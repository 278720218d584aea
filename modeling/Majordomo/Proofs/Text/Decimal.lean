import Majordomo.Text.Decimal
import Mathlib.Algebra.Group.Nat.Defs
import Mathlib.Data.List.Basic
import Mathlib.Data.Option.Basic

/-! # A number is read back from its decimal digits -/
namespace Majordomo.Text.Decimal

theorem digit?_digitChar : ∀ d < 10, digit? d.digitChar = some d := by decide

theorem foldlM_toDigits (n : Nat) :
    (Nat.toDigits 10 n).foldlM (fun m c => (digit? c).map (m * 10 + ·)) 0 = some n := by
  induction n using Nat.strongRecOn with
  | ind n ih =>
    rw [Nat.toDigits_eq_if (by decide)]
    split
    · rename_i hn
      simp [digit?_digitChar n hn]
    · rename_i hn
      rw [List.foldlM_append, ih (n / 10) (by omega)]
      simp [digit?_digitChar (n % 10) (Nat.mod_lt n (by decide))]
      omega

theorem natOf?_toDigits (n : Nat) : natOf? digit? 10 (Nat.toDigits 10 n) = some n := by
  have hne : (Nat.toDigits 10 n).isEmpty = false := by
    rw [Nat.toDigits_eq_if (by decide)]
    split <;> simp
  rw [natOf?, hne]
  exact foldlM_toDigits n

/-- The digits of a number begin with no sign. -/
theorem notMem_toDigits (n : Nat) : '+' ∉ Nat.toDigits 10 n := by
  intro h
  cases Nat.isDigit_of_mem_toDigits (by decide) (by decide) h

/-- A number is read from its digits if it has few enough bits. -/
theorem unsigned?_repr {bits n : Nat} (h : n < 2 ^ bits) : unsigned? bits n.repr = some n := by
  rw [unsigned?, Nat.repr_eq_ofList_toDigits, String.toList_ofList]
  split
  · rename_i rest hcs
    exact absurd (hcs ▸ List.mem_cons_self ..) (notMem_toDigits n)
  · rw [natOf?_toDigits]
    have hfits : guard (n < Nat.pow 2 bits) = some () := if_pos h
    exact congrArg (· >>= fun _ => some n) hfits

end Majordomo.Text.Decimal
