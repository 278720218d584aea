import Majordomo.Frame

/-! # Messages as protocol buffers

A message is written as one field after the other, each with the key 1 and one frame
in it. A reader passes over the fields with other keys, whatever they hold.
-/
namespace Majordomo.Router.Protobuf

/-! ## Numbers -/

/-- Writes a number in groups of seven bits, the lowest first. -/
def varint (n : Nat) : List UInt8 :=
  if n < 128 then [UInt8.ofNat n] else UInt8.ofNat (n % 128 + 128) :: varint (n / 128)

/-- Reads a number of at most `n` groups; the tenth group of ten holds one bit. -/
def varintOf? : Nat → List UInt8 → Option (Nat × List UInt8)
  | 0, _ => none
  | _ + 1, [] => none
  | n + 1, b :: rest =>
    if b < 128 then if n = 0 ∧ 2 ≤ b then none else some (b.toNat, rest)
    else (varintOf? n rest).map fun (high, rest) => (b.toNat % 128 + 128 * high, rest)

/-- Reads a number of 64 bits. -/
def varint? (bytes : List UInt8) : Option (Nat × List UInt8) := varintOf? 10 bytes

/-! ## Fields -/

inductive Form
  | varint
  | fixed64
  | delimited
  | groupStart
  | groupEnd
  | fixed32
deriving DecidableEq, Inhabited

def Form.ofNat? : Nat → Option Form
  | 0 => some varint
  | 1 => some fixed64
  | 2 => some delimited
  | 3 => some groupStart
  | 4 => some groupEnd
  | 5 => some fixed32
  | _ => none

structure Key where
  number : Nat
  form : Form
deriving DecidableEq, Inhabited

/-- Reads a key. It has 32 bits, and no field has the number zero. -/
def key? (bytes : List UInt8) : Option (Key × List UInt8) := do
  let (n, rest) ← varint? bytes
  guard (8 ≤ n ∧ n < UInt32.size)
  return ({ number := n / 8, form := ← Form.ofNat? (n % 8) }, rest)

def take? (n : Nat) (bytes : List UInt8) : Option (List UInt8 × List UInt8) :=
  if n ≤ bytes.length then some (bytes.take n, bytes.drop n) else none

def delimited? (bytes : List UInt8) : Option (List UInt8 × List UInt8) := do
  let (n, rest) ← varint? bytes
  take? n rest

/-- Passes over the fields of the group `number` to its end, at most `n`, each with `skip`. -/
def skipGroup? (skip : Key → List UInt8 → Option (List UInt8)) (number : Nat) :
    Nat → List UInt8 → Option (List UInt8)
  | 0, _ => none
  | n + 1, bytes =>
    match key? bytes with
    | none => none
    | some (key, rest) =>
      if key.form = .groupEnd then if key.number = number then some rest else none
      else (skip key rest).bind (skipGroup? skip number n)

/-- Groups may not be nested deeper. -/
def depthLimit : Nat := 100

/-- Passes over a field after its key, with at most `depth` fields inside each other. -/
def skip? : Nat → Key → List UInt8 → Option (List UInt8)
  | 0, _, _ => none
  | depth + 1, key, bytes =>
    match key.form with
    | .varint => (varint? bytes).map (·.2)
    | .fixed64 => (take? 8 bytes).map (·.2)
    | .fixed32 => (take? 4 bytes).map (·.2)
    | .delimited => (delimited? bytes).map (·.2)
    | .groupStart => skipGroup? (skip? depth) key.number bytes.length bytes
    | .groupEnd => none

/-! ## Messages -/

def encode (m : Message) : List UInt8 :=
  m.flatMap fun f => varint 10 ++ varint f.size ++ f.bytes

def decodeUpTo : Nat → List UInt8 → Option Message
  | _, [] => some []
  | 0, _ => none
  | n + 1, bytes =>
    match key? bytes with
    | none => none
    | some (key, rest) =>
      if key.number = 1 then
        if key.form = .delimited then
          (delimited? rest).bind fun (frame, rest) =>
            (decodeUpTo n rest).map (⟨frame⟩ :: ·)
        else none
      else (skip? depthLimit key rest).bind (decodeUpTo n)

def decode? (bytes : List UInt8) : Option Message := decodeUpTo bytes.length bytes

end Majordomo.Router.Protobuf
