/-! # UTF-8

Texts and their bytes. `encode` writes a text; `decode?` reads bytes strictly;
`decodeLossy` reads any bytes, with one replacement character for every maximal
run of bytes that starts a character and cannot finish it.
-/
namespace Majordomo.Text.Utf8

def encode (s : String) : List UInt8 := s.toList.flatMap String.utf8EncodeChar

/-- A character that has begun: the bits read so far, how many bytes follow the
next one, and the range the next one must lie in. -/
structure Begun where
  bits : Nat
  more : Nat
  low : UInt8
  high : UInt8

/-- What the first byte of a sequence announces. -/
inductive Lead
  | char (c : Char)
  | begun (b : Begun)
  | invalid

def lead (b : UInt8) : Lead :=
  if b < 0x80 then .char (Char.ofNat b.toNat)
  else if b < 0xC2 then .invalid
  else if b < 0xE0 then .begun ⟨b.toNat % 32, 0, 0x80, 0xBF⟩
  else if b < 0xF0 then
    .begun ⟨b.toNat % 16, 1, if b = 0xE0 then 0xA0 else 0x80, if b = 0xED then 0x9F else 0xBF⟩
  else if b < 0xF5 then
    .begun ⟨b.toNat % 8, 2, if b = 0xF0 then 0x90 else 0x80, if b = 0xF4 then 0x8F else 0xBF⟩
  else .invalid

/-- Reads the bytes piece by piece: `none` stands for a maximal invalid run. -/
def pieces : Option Begun → List UInt8 → List (Option Char)
  | none, [] => []
  | some _, [] => [none]
  | none, b :: bs =>
    match lead b with
    | .char c => some c :: pieces none bs
    | .begun p => pieces (some p) bs
    | .invalid => none :: pieces none bs
  | some p, b :: bs =>
    if p.low ≤ b ∧ b ≤ p.high then
      let bits := p.bits * 64 + b.toNat % 64
      match p.more with
      | 0 => some (Char.ofNat bits) :: pieces none bs
      | more + 1 => pieces (some ⟨bits, more, 0x80, 0xBF⟩) bs
    else
      none :: match lead b with
        | .char c => some c :: pieces none bs
        | .begun q => pieces (some q) bs
        | .invalid => none :: pieces none bs

/-- The text of the bytes, or `none` if they are not well formed. -/
def decode? (bytes : List UInt8) : Option String :=
  ((pieces none bytes).mapM id).map String.ofList

/-- The text of the bytes with every invalid run replaced by U+FFFD. -/
def decodeLossy (bytes : List UInt8) : String :=
  String.ofList ((pieces none bytes).map (·.getD '\uFFFD'))

end Majordomo.Text.Utf8
