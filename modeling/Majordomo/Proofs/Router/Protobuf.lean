import Majordomo.Router.Protobuf
import Majordomo.Proofs.Text.Utf8
import Mathlib

/-! # Messages survive protocol buffers

A number is read as it was written, and so is a field and a message, whatever stands behind it.
-/
namespace Majordomo.Router.Protobuf

/-! ## Numbers -/

/-- A number that is written in groups is read within `k + 1` groups, of which the last holds one
bit. -/
theorem varintOf?_varint {k n : Nat} (h : n < 2 * 128 ^ k) (rest : List UInt8) :
    varintOf? (k + 1) (varint n ++ rest) = some (n,rest) := by
  induction k generalizing n with
  | zero =>
    obtain rfl | rfl : n = 0 ∨ n = 1 := by omega
    · simp [varint, varintOf?]
    · simp [varint, varintOf?]
  | succ k ih =>
    rw [varint]
    split
    · rename_i hn
      have hv : (UInt8.ofNat n).toNat = n := Text.Utf8.toNat_ofNat (by omega)
      have hb : UInt8.ofNat n < 128 := (Text.Utf8.ofNat_lt_iff (by omega) _).mpr hn
      simp [varintOf?, hb, hv]
    · rename_i hn
      have hv : (UInt8.ofNat (n % 128 + 128)).toNat = n % 128 + 128 :=
        Text.Utf8.toNat_ofNat (by omega)
      have hb : ¬UInt8.ofNat (n % 128 + 128) < 128 := by
        rw [UInt8.lt_iff_toNat_lt, hv]
        simp
      have hd : n / 128 < 2 * 128 ^ k := by
        rw [Nat.div_lt_iff_lt_mul (by omega)]
        rw [Nat.pow_succ] at h
        omega
      rw [List.cons_append, varintOf?, if_neg hb, ih hd, hv]
      simp only [Option.map_some, Option.some.injEq, Prod.mk.injEq, and_true]
      omega

theorem varint?_varint {n : Nat} (h : n < 2 ^ 64) (rest : List UInt8) :
    varint? (varint n ++ rest) = some (n,rest) :=
  varintOf?_varint (by omega) rest

theorem varint_ne_nil (n : Nat) : varint n ≠ [] := by
  rw [varint]
  split <;> simp

/-! ## Fields and messages -/

/-- The key that stands before each frame. -/
theorem key?_varint (rest : List UInt8) :
    key? (varint 10 ++ rest) = some (⟨1,.delimited⟩,rest) := by
  rw [key?, varint?_varint (by omega)]
  rfl

theorem delimited?_varint {f : Frame} (h : f.size < 2 ^ 64) (rest : List UInt8) :
    delimited? (varint f.size ++ f.bytes ++ rest) = some (f.bytes,rest) := by
  rw [List.append_assoc, delimited?, varint?_varint h]
  simp [take?, Frame.size]

theorem encode_cons (f : Frame) (m : Message) :
    encode (f :: m) = varint 10 ++ (varint f.size ++ f.bytes ++ encode m) := by
  simp [encode, List.append_assoc]

theorem size_le_length_encode {f : Frame} {m : Message} (h : f ∈ m) :
    f.size ≤ (encode m).length := by
  obtain ⟨before,after,rfl⟩ := List.append_of_mem h
  simp [encode, Frame.size]
  omega

theorem length_le_length_encode (m : Message) : m.length ≤ (encode m).length := by
  induction m with
  | nil => exact Nat.zero_le _
  | cons f m ih =>
    have hv := List.length_pos_of_ne_nil (varint_ne_nil 10)
    rw [encode_cons]
    simp only [List.length_cons, List.length_append]
    omega

theorem decodeUpTo_encode {m : Message} (h : ∀ f ∈ m, f.size < 2 ^ 64) {k : Nat}
    (hk : m.length ≤ k) : decodeUpTo k (encode m) = some m := by
  induction m generalizing k with
  | nil => cases k <;> rfl
  | cons f m ih =>
    obtain _ | k := k
    · cases hk
    · have hm := ih (fun g hg => h g (List.mem_cons_of_mem f hg)) (Nat.le_of_succ_le_succ hk)
      have hne : encode (f :: m) ≠ [] := by
        simp [encode_cons, varint_ne_nil]
      rw [decodeUpTo]
      · rw [encode_cons, key?_varint]
        dsimp only
        rw [if_pos rfl, if_pos rfl, delimited?_varint (h f (List.mem_cons_self ..)),
          Option.bind_some, hm]
        rfl
      · exact hne

/-- A message whose bytes can be counted in 64 bits is read as it was written. -/
theorem decode?_encode {m : Message} (h : (encode m).length < 2 ^ 64) :
    decode? (encode m) = some m := by
  apply decodeUpTo_encode
  · intro f hf
    exact Nat.lt_of_le_of_lt (size_le_length_encode hf) h
  · exact length_le_length_encode m

end Majordomo.Router.Protobuf
