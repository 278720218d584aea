import Majordomo.Frame
import Mathlib.Data.List.Basic

/-! # Hexadecimal text names one run of bytes -/
namespace Majordomo
namespace Text.Hex

theorem digit_inj : ∀ m < 16, ∀ n < 16, digit 'A' m = digit 'A' n → m = n := by decide

/-- The two digits of a byte name it. -/
theorem byte_inj {a b : UInt8} (hh : digit 'A' (a.toNat / 16) = digit 'A' (b.toNat / 16))
    (hl : digit 'A' (a.toNat % 16) = digit 'A' (b.toNat % 16)) : a = b := by
  have ha := a.toNat_lt
  have hb := b.toNat_lt
  have hd := digit_inj _ (by omega) _ (by omega) hh
  have hm := digit_inj _ (by omega) _ (by omega) hl
  exact UInt8.toNat_inj.mp (by omega)

theorem digits_inj {as bs : List UInt8} (h : digits 'A' as = digits 'A' bs) : as = bs := by
  induction as generalizing bs with
  | nil =>
    cases bs with
    | nil => rfl
    | cons b bs => simp [digits] at h
  | cons a as ih =>
    cases bs with
    | nil => simp [digits] at h
    | cons b bs =>
      simp only [digits, List.flatMap_cons, List.cons_append, List.nil_append,
        List.cons.injEq] at h
      obtain ⟨hh,hl,hr⟩ := h
      rw [byte_inj hh hl, ih hr]

theorem upper_inj {as bs : List UInt8} (h : upper as = upper bs) : as = bs :=
  digits_inj (String.ofList_inj.mp h)

end Text.Hex

namespace Frame

/-- Different frames have different texts. -/
theorem hex_inj {f g : Frame} (h : f.hex = g.hex) : f = g := by
  obtain ⟨as⟩ := f
  obtain ⟨bs⟩ := g
  exact congrArg Frame.mk (Text.Hex.upper_inj h)

end Frame
end Majordomo
