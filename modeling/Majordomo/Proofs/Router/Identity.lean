import Majordomo.Router.Peer
import Mathlib

/-! # Identities of peers

The bytes of a number name it among all numbers that fit into them, so the first 2 ^ 64
peers have different identities.
-/
namespace Majordomo

namespace Bytes

@[simp] theorem bigEndian_length (width n : Nat) : (bigEndian width n).length = width := by
  induction width generalizing n with
  | zero => rfl
  | succ width ih => simp [bigEndian, ih]

theorem bigEndian_inj {width m n : Nat} (h : bigEndian width m = bigEndian width n) :
    m % 256 ^ width = n % 256 ^ width := by
  induction width generalizing m n with
  | zero => simp [Nat.mod_one]
  | succ width ih =>
    simp only [bigEndian] at h
    obtain ⟨hh,hl⟩ := List.append_inj h (by simp)
    have hd := ih hh
    have hb : m % 256 = n % 256 := by
      have he := congrArg UInt8.toNat (List.cons.inj hl).1
      simpa using he
    rw [Nat.pow_succ', Nat.mod_mul, Nat.mod_mul, hb, hd]

end Bytes

namespace Peer

theorem identity_inj {m n : Nat} (hm : m < 2 ^ 64) (hn : n < 2 ^ 64)
    (h : identity m = identity n) : m = n := by
  have he := Bytes.bigEndian_inj (Frame.mk.inj h)
  omega

end Peer
end Majordomo
