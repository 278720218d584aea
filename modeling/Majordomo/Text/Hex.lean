/-! # Hexadecimal text of bytes -/
namespace Majordomo.Text.Hex

/-- Digit `n < 16`, with letters counted from `a`. -/
def digit (a : Char) (n : Nat) : Char :=
  if n < 10 then Char.ofNat ('0'.toNat + n) else Char.ofNat (a.toNat + (n - 10))

/-- Two digits for every byte, the high half first. -/
def digits (a : Char) (bytes : List UInt8) : List Char :=
  bytes.flatMap fun b => [digit a (b.toNat / 16), digit a (b.toNat % 16)]

def upper (bytes : List UInt8) : String := String.ofList (digits 'A' bytes)

def lower (bytes : List UInt8) : String := String.ofList (digits 'a' bytes)

def value? (c : Char) : Option Nat :=
  if '0' ≤ c ∧ c ≤ '9' then some (c.toNat - '0'.toNat)
  else if 'a' ≤ c ∧ c ≤ 'f' then some (c.toNat - 'a'.toNat + 10)
  else if 'A' ≤ c ∧ c ≤ 'F' then some (c.toNat - 'A'.toNat + 10)
  else none

/-- The bytes written by pairs of digits; `none` on an odd digit or another character. -/
def bytes? : List Char → Option (List UInt8)
  | [] => some []
  | h :: l :: rest => do
    let hi ← value? h
    let lo ← value? l
    return UInt8.ofNat (hi * 16 + lo) :: (← bytes? rest)
  | [_] => none

end Majordomo.Text.Hex
