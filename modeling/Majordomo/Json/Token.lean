import Majordomo.Text.Hex

/-! # JSON tokens

A JSON text as a list of tokens. A string keeps its pieces, since a half of a
surrogate pair is allowed where the string is skipped and not where it is read.
-/
namespace Majordomo.Json

/-- A piece of a string: a character, or an escaped half of a surrogate pair. -/
inductive Piece
  | char (c : Char)
  | surrogate (half : Nat)
deriving DecidableEq, Inhabited

inductive Token
  | openObject
  | closeObject
  | openArray
  | closeArray
  | colon
  | comma
  | string (pieces : List Piece)
  | null
  /-- A number, `true` or `false`. -/
  | scalar
deriving DecidableEq, Inhabited

/-- The text of a string: every surrogate must be half of a pair. -/
def textOf? : List Piece → Option (List Char)
  | [] => some []
  | .char c :: rest => (textOf? rest).map (c :: ·)
  | .surrogate high :: .surrogate low :: rest =>
    if high < 0xDC00 ∧ 0xDC00 ≤ low then
      (textOf? rest).map (Char.ofNat (0x10000 + (high - 0xD800) * 0x400 + (low - 0xDC00)) :: ·)
    else none
  | .surrogate _ :: _ => none

def isBlank (c : Char) : Bool := c = ' ' || c = '\t' || c = '\n' || c = '\r'

def isDigit (c : Char) : Bool := '0' ≤ c && c ≤ '9'

def unescape? (c : Char) : Option Char :=
  match c with
  | '"' | '\\' | '/' => some c
  | 'b' => some '\x08'
  | 'f' => some '\x0c'
  | 'n' => some '\n'
  | 'r' => some '\r'
  | 't' => some '\t'
  | _ => none

/-- The piece written by the four digits of a numeric escape. -/
def pieceOf? (a b c d : Char) : Option Piece := do
  let n := (((← Text.Hex.value? a) * 16 + (← Text.Hex.value? b)) * 16 + (← Text.Hex.value? c)) * 16 +
    (← Text.Hex.value? d)
  return if 0xD800 ≤ n ∧ n < 0xE000 then .surrogate n else .char (Char.ofNat n)

/-- Reads a string after its opening quote: its pieces, and what follows the closing one. -/
def string? : List Char → Option (List Piece × List Char)
  | [] => none
  | '"' :: rest => some ([], rest)
  | '\\' :: 'u' :: a :: b :: c :: d :: rest => do
    let piece ← pieceOf? a b c d
    let (pieces, rest) ← string? rest
    return (piece :: pieces, rest)
  | '\\' :: c :: rest => do
    let c ← unescape? c
    let (pieces, rest) ← string? rest
    return (.char c :: pieces, rest)
  | c :: rest =>
    if c.toNat < 0x20 ∨ c = '\\' then none
    else (string? rest).map fun (pieces, rest) => (.char c :: pieces, rest)

def digits? : List Char → Option (List Char)
  | c :: rest => if isDigit c then some (rest.dropWhile isDigit) else none
  | [] => none

def fraction? : List Char → Option (List Char)
  | '.' :: rest => digits? rest
  | rest => some rest

def exponent? : List Char → Option (List Char)
  | c :: rest =>
    if c = 'e' ∨ c = 'E' then
      match rest with
      | '+' :: rest => digits? rest
      | '-' :: rest => digits? rest
      | rest => digits? rest
    else some (c :: rest)
  | [] => some []

/-- Passes over a number without its sign. A leading zero stands alone. -/
def number? : List Char → Option (List Char)
  | '0' :: rest => do exponent? (← fraction? rest)
  | rest => do exponent? (← fraction? (← digits? rest))

def punctuation? (c : Char) : Option Token :=
  match c with
  | '\x7b' => some .openObject
  | '\x7d' => some .closeObject
  | '[' => some .openArray
  | ']' => some .closeArray
  | ':' => some .colon
  | ',' => some .comma
  | _ => none

def word? : List Char → Option (Token × List Char)
  | 'n' :: 'u' :: 'l' :: 'l' :: rest => some (.null, rest)
  | 't' :: 'r' :: 'u' :: 'e' :: rest => some (.scalar, rest)
  | 'f' :: 'a' :: 'l' :: 's' :: 'e' :: rest => some (.scalar, rest)
  | _ => none

/-- Reads one token that begins with `c`, and gives what follows it. -/
def token? (c : Char) (rest : List Char) : Option (Token × List Char) :=
  match punctuation? c with
  | some t => some (t, rest)
  | none =>
    if c = '"' then (string? rest).map fun (pieces, rest) => (.string pieces, rest)
    else if c = '-' then (number? rest).map (.scalar, ·)
    else if isDigit c then (number? (c :: rest)).map (.scalar, ·)
    else word? (c :: rest)

theorem string?_length {cs rest : List Char} {pieces : List Piece}
    (h : string? cs = some (pieces, rest)) : rest.length < cs.length := by
  fun_induction string? cs generalizing pieces with
  | case1 => simp at h
  | case2 => simp_all
  | case3 a b c d cs ih =>
    simp only [Option.bind_eq_bind, Option.bind_eq_some_iff, Option.pure_def, Option.some.injEq,
      Prod.mk.injEq, Prod.exists] at h
    obtain ⟨_, _, ps, _, hr, _, rfl⟩ := h
    have := ih hr
    simp only [List.length_cons]
    omega
  | case4 c cs _ ih =>
    simp only [Option.bind_eq_bind, Option.bind_eq_some_iff, Option.pure_def, Option.some.injEq,
      Prod.mk.injEq, Prod.exists] at h
    obtain ⟨_, _, ps, _, hr, _, rfl⟩ := h
    have := ih hr
    simp only [List.length_cons]
    omega
  | case5 => simp at h
  | case6 c cs _ _ _ _ ih =>
    simp only [Option.map_eq_some_iff, Prod.mk.injEq, Prod.exists] at h
    obtain ⟨ps, _, hr, _, rfl⟩ := h
    have := ih hr
    simp only [List.length_cons]
    omega

theorem digits?_length {cs rest : List Char} (h : digits? cs = some rest) :
    rest.length < cs.length := by
  cases cs with
  | nil => simp [digits?] at h
  | cons c cs => grind [digits?, (List.dropWhile_suffix (l := cs) isDigit).length_le]

theorem fraction?_length {cs rest : List Char} (h : fraction? cs = some rest) :
    rest.length ≤ cs.length := by
  unfold fraction? at h
  split at h
  · exact Nat.le_succ_of_le (Nat.le_of_lt (digits?_length h))
  · simp_all

theorem exponent?_length {cs rest : List Char} (h : exponent? cs = some rest) :
    rest.length ≤ cs.length := by
  unfold exponent? at h
  split at h
  · split at h
    · split at h <;> have := digits?_length h <;> simp only [List.length_cons] at this ⊢ <;> omega
    · simp_all
  · simp_all

theorem number?_length {cs rest : List Char} (h : number? cs = some rest) :
    rest.length < cs.length := by
  unfold number? at h
  split at h
  · simp only [Option.bind_eq_bind, Option.bind_eq_some_iff] at h
    obtain ⟨r, hr, h⟩ := h
    have := fraction?_length hr
    have := exponent?_length h
    simp only [List.length_cons]
    omega
  · simp only [Option.bind_eq_bind, Option.bind_eq_some_iff] at h
    obtain ⟨s, hs, r, hr, h⟩ := h
    have := digits?_length hs
    have := fraction?_length hr
    have := exponent?_length h
    omega

theorem word?_length {cs rest : List Char} {t : Token} (h : word? cs = some (t, rest)) :
    rest.length < cs.length := by
  unfold word? at h
  split at h <;> simp_all <;> omega

theorem token?_length {c : Char} {cs rest : List Char} {t : Token}
    (h : token? c cs = some (t, rest)) : rest.length ≤ cs.length := by
  unfold token? at h
  split at h
  · simp_all
  split at h
  · simp only [Option.map_eq_some_iff, Prod.mk.injEq, Prod.exists] at h
    obtain ⟨_, _, hr, _, rfl⟩ := h
    exact Nat.le_of_lt (string?_length hr)
  split at h
  · simp only [Option.map_eq_some_iff, Prod.mk.injEq] at h
    obtain ⟨_, hr, _, rfl⟩ := h
    exact Nat.le_of_lt (number?_length hr)
  split at h
  · simp only [Option.map_eq_some_iff, Prod.mk.injEq] at h
    obtain ⟨_, hr, _, rfl⟩ := h
    exact Nat.le_of_lt_succ (number?_length hr)
  · exact Nat.le_of_lt_succ (word?_length h)

def tokens? (cs : List Char) : Option (List Token) :=
  match cs with
  | [] => some []
  | c :: rest =>
    if isBlank c then tokens? rest
    else match _h : token? c rest with
      | some (t, rest') => (tokens? rest').map (t :: ·)
      | none => none
termination_by cs.length
decreasing_by
  · simp
  · have := token?_length _h
    simp only [List.length_cons]
    omega

end Majordomo.Json
