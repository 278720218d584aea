import Majordomo.Text.Decimal
import Majordomo.Text.Hex
import Majordomo.Toml.Value

/-! # Numbers of a document

Integers have 64 bits. A number with a fraction or an exponent may be too small for
a double, and too large on the negative side, but not on the positive one.
-/
namespace Majordomo.Toml

def isDigit (c : Char) : Bool := (Text.Decimal.digit? c).isSome

/-- Reads more digits, each of which may follow an underscore. -/
def moreDigits? (digit : Char → Bool) : List Char → Option (List Char × List Char)
  | '_' :: c :: rest =>
    if digit c then (moreDigits? digit rest).map fun (cs, rest) => (c :: cs, rest) else none
  | ['_'] => none
  | c :: rest =>
    if digit c then (moreDigits? digit rest).map fun (cs, rest) => (c :: cs, rest)
    else some ([], c :: rest)
  | [] => some ([], [])

def digits? (digit : Char → Bool) : List Char → Option (List Char × List Char)
  | c :: rest =>
    if digit c then (moreDigits? digit rest).map fun (cs, rest) => (c :: cs, rest) else none
  | [] => none

/-- Reads the digits before a point: a zero stands alone. -/
def whole? : List Char → Option (List Char × List Char)
  | '0' :: rest => some (['0'], rest)
  | s => digits? isDigit s

def sign : List Char → Bool × List Char
  | '+' :: rest => (false, rest)
  | '-' :: rest => (true, rest)
  | s => (false, s)

def natOf (cs : List Char) : Nat := (Text.Decimal.natOf? Text.Decimal.digit? 10 cs).getD 0

def fraction? : List Char → Option (List Char × List Char)
  | '.' :: rest => digits? isDigit rest
  | s => some ([], s)

/-- Reads an exponent, zero if there is none. -/
def exponent? : List Char → Option (Int × List Char)
  | c :: rest =>
    if c = 'e' || c = 'E' then
      let (negative, rest) := sign rest
      (digits? isDigit rest).map fun (cs, rest) =>
        (if negative then -(natOf cs : Int) else natOf cs, rest)
    else some (0, c :: rest)
  | [] => some (0, [])

/-- From here on a positive number is rounded to infinity. -/
def infinityBound : Nat := Nat.pow 2 1024 - Nat.pow 2 970

/-- Whether `digits * 10 ^ exponent` rounds to infinity. -/
def overflows (digits : List Char) (exponent : Int) : Bool :=
  let digits := digits.dropWhile (· = '0')
  if digits.isEmpty then false
  else match exponent with
    | .ofNat e => 400 < e || infinityBound ≤ natOf digits * Nat.pow 10 e
    | .negSucc e => e + 1 < digits.length && infinityBound * Nat.pow 10 (e + 1) ≤ natOf digits

def integer? (n : Int) : Option Value :=
  if Int64.minValue.toInt ≤ n ∧ n ≤ Int64.maxValue.toInt then some (.integer n) else none

def isFractional : List Char → Bool
  | c :: _ => c = '.' || c = 'e' || c = 'E'
  | [] => false

def decimal? (s : List Char) : Option (Value × List Char) := do
  let (negative, s) := sign s
  let (whole, s) ← whole? s
  if isFractional s then
    let (fraction, s) ← fraction? s
    let (exponent, s) ← exponent? s
    guard (negative || !overflows (whole ++ fraction) (exponent - fraction.length))
    return (.float, s)
  else
    let n := natOf whole
    return (← integer? (if negative then -(n : Int) else n), s)

/-- Reads an integer in digits of another base, after the mark of the base. -/
def based? (base : Nat) (s : List Char) : Option (Value × List Char) := do
  let value (c : Char) : Option Nat := (Text.Hex.value? c).filter (· < base)
  let (digits, rest) ← digits? (fun c => (value c).isSome) s
  return (← integer? (← Text.Decimal.natOf? value base digits), rest)

def number? (s : List Char) : Option (Value × List Char) :=
  match s with
  | '0' :: 'x' :: rest => based? 16 rest
  | '0' :: 'o' :: rest => based? 8 rest
  | '0' :: 'b' :: rest => based? 2 rest
  | _ =>
    match (sign s).2 with
    | 'i' :: 'n' :: 'f' :: rest => some (.float, rest)
    | 'n' :: 'a' :: 'n' :: rest => some (.float, rest)
    | _ => decimal? s

end Majordomo.Toml
