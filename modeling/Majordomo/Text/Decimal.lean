/-! # Decimal numbers -/
namespace Majordomo.Text.Decimal

def digit? (c : Char) : Option Nat :=
  if '0' ≤ c ∧ c ≤ '9' then some (c.toNat - '0'.toNat) else none

/-- The number written by one or more digits of `base`, read with `digit`. -/
def natOf? (digit : Char → Option Nat) (base : Nat) (cs : List Char) : Option Nat :=
  if cs.isEmpty then none
  else cs.foldlM (fun n c => (digit c).map (n * base + ·)) 0

/-- A natural number of at most `bits` bits: an optional plus sign, then digits only. -/
def unsigned? (bits : Nat) (s : String) : Option Nat := do
  let cs := match s.toList with
    | '+' :: rest => rest
    | cs => cs
  let n ← natOf? digit? 10 cs
  guard (n < Nat.pow 2 bits)
  return n

end Majordomo.Text.Decimal
