import Majordomo.Duration
import Mathlib.Algebra.Group.Nat.Defs
import Mathlib.Data.Nat.Basic

/-! # Durations in nanoseconds

A duration is as good as the number of its nanoseconds. Taken several times over it is exact, or
there is none so long.
-/
namespace Majordomo
namespace Word
variable {a b c : UInt64}

theorem toNat_of_mul? (h : mul? a b = some c) : c.toNat = a.toNat * b.toNat := by
  rw [mul?, Option.ite_none_right_eq_some, Option.some.injEq] at h
  obtain ⟨hlt,rfl⟩ := h
  rw [UInt64.toNat_mul, Nat.mod_eq_of_lt hlt]

theorem mul?_eq_none : mul? a b = none ↔ 2 ^ 64 ≤ a.toNat * b.toNat := by
  simp [mul?, UInt64.size]

theorem toNat_of_add? (h : add? a b = some c) : c.toNat = a.toNat + b.toNat := by
  rw [add?, Option.ite_none_right_eq_some, Option.some.injEq] at h
  obtain ⟨hlt,rfl⟩ := h
  rw [UInt64.toNat_add, Nat.mod_eq_of_lt hlt]

theorem add?_eq_none : add? a b = none ↔ 2 ^ 64 ≤ a.toNat + b.toNat := by
  simp [add?, UInt64.size]

end Word

namespace Duration
variable {d e : Duration} {n : UInt32}

def total (d : Duration) : Nat := d.seconds.toNat * 1000000000 + d.nanos.toNat

theorem total_ofMillis (ms : UInt64) : (ofMillis ms).total = ms.toNat * 1000000 := by
  simp only [total, ofMillis, toNat_fraction, UInt64.toNat_div, UInt64.reduceToNat]
  omega

theorem millis_eq (d : Duration) : d.millis = d.total / 1000000 := by
  simp only [millis, total]
  omega

/-! ## Multiples -/

/-- The nanoseconds beyond whole seconds, taken several times over, have 64 bits. -/
theorem toNat_nanos_mul (d : Duration) (n : UInt32) :
    (d.nanos.toUInt64 * n.toUInt64).toNat = d.nanos.toNat * n.toNat := by
  rw [UInt64.toNat_mul, UInt32.toNat_toUInt64, UInt32.toNat_toUInt64]
  refine Nat.mod_eq_of_lt ?_
  calc d.nanos.toNat * n.toNat ≤ 1000000000 * 2 ^ 32 :=
        Nat.mul_le_mul (Nat.le_of_lt d.nanos_lt) (Nat.le_of_lt n.toNat_lt)
    _ < 2 ^ 64 := by decide

theorem total_mul (d : Duration) (n : UInt32) :
    d.total * n.toNat =
      d.seconds.toNat * n.toNat * 1000000000 + d.nanos.toNat * n.toNat := by
  rw [total, Nat.add_mul, Nat.mul_right_comm]

/-- A multiple has so many times the nanoseconds. -/
theorem total_of_times? (h : d.times? n = some e) : e.total = d.total * n.toNat := by
  obtain ⟨s,hs,h⟩ := Option.bind_eq_some_iff.mp h
  obtain ⟨t,ht,h⟩ := Option.bind_eq_some_iff.mp h
  cases h
  have hs := Word.toNat_of_mul? hs
  have ht := Word.toNat_of_add? ht
  rw [total_mul]
  simp only [total, UInt64.toNat_toUInt32, UInt64.toNat_mod, UInt64.toNat_div, toNat_nanos_mul,
    UInt64.reduceToNat, UInt32.toNat_toUInt64] at hs ht ⊢
  omega

/-- There is no multiple exactly if it would have too many seconds. -/
theorem times?_eq_none : d.times? n = none ↔ 2 ^ 64 * 1000000000 ≤ d.total * n.toNat := by
  have hn := d.toNat_nanos_mul n
  rw [total_mul]
  unfold times?
  cases hm : Word.mul? d.seconds n.toUInt64 with
  | none =>
    have hs := Word.mul?_eq_none.mp hm
    rw [UInt32.toNat_toUInt64] at hs
    exact iff_of_true rfl (by omega)
  | some s =>
    have hs := Word.toNat_of_mul? hm
    cases ha : Word.add? s (d.nanos.toUInt64 * n.toUInt64 / 1000000000) with
    | none =>
      have ht := Word.add?_eq_none.mp ha
      simp only [UInt32.toNat_toUInt64, UInt64.toNat_div, UInt64.reduceToNat, hn] at hs ht
      exact iff_of_true (by simp [ha]) (by omega)
    | some t =>
      have hlt := t.toNat_lt
      have ht := Word.toNat_of_add? ha
      simp only [UInt32.toNat_toUInt64, UInt64.toNat_div, UInt64.reduceToNat, hn] at hs ht
      exact iff_of_false (by simp [ha]) (by omega)

end Duration
end Majordomo
