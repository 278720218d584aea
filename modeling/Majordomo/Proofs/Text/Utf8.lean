import Majordomo.Frame
import Mathlib.Data.List.Basic

/-! # A text is read back from its bytes

A character is written as a first byte that says how many follow, and bytes that carry six bits
each. Reading them gives the one character, and what follows is read as if it stood alone.
-/
namespace Majordomo
namespace Text.Utf8

theorem toNat_ofNat {n : Nat} (h : n < 256) : (UInt8.ofNat n).toNat = n := by
  rw [UInt8.toNat_ofNat']
  exact Nat.mod_eq_of_lt h

/-! ## The bytes after the first -/

/-- A byte after the first that carries the six bits `n` and lies where it must. -/
theorem follower {n : Nat} (hn : n < 64) {low high : UInt8} (hl : low.toNat ≤ n + 0x80)
    (hh : n + 0x80 ≤ high.toNat) :
    (low ≤ UInt8.ofNat (n + 0x80) ∧ UInt8.ofNat (n + 0x80) ≤ high) ∧
      (UInt8.ofNat (n + 0x80)).toNat % 64 = n := by
  have hb : (UInt8.ofNat (n + 0x80)).toNat = n + 0x80 := toNat_ofNat (by omega)
  rw [UInt8.le_iff_toNat_le, UInt8.le_iff_toNat_le, hb]
  exact ⟨⟨hl,hh⟩,by omega⟩

theorem pieces_last {bits n : Nat} {low high : UInt8} (hn : n < 64) (hl : low.toNat ≤ n + 0x80)
    (hh : n + 0x80 ≤ high.toNat) (bytes : List UInt8) :
    pieces (some ⟨bits,0,low,high⟩) (UInt8.ofNat (n + 0x80) :: bytes) =
      some (Char.ofNat (bits * 64 + n)) :: pieces none bytes := by
  obtain ⟨hr,hm⟩ := follower hn hl hh
  simp only [pieces, if_pos hr, hm]

theorem pieces_more {bits more n : Nat} {low high : UInt8} (hn : n < 64)
    (hl : low.toNat ≤ n + 0x80) (hh : n + 0x80 ≤ high.toNat) (bytes : List UInt8) :
    pieces (some ⟨bits,more + 1,low,high⟩) (UInt8.ofNat (n + 0x80) :: bytes) =
      pieces (some ⟨bits * 64 + n,more,0x80,0xBF⟩) bytes := by
  obtain ⟨hr,hm⟩ := follower hn hl hh
  simp only [pieces, if_pos hr, hm]

/-! ## The first byte -/

theorem ofNat_lt_iff {n : Nat} (hn : n < 256) (b : UInt8) : UInt8.ofNat n < b ↔ n < b.toNat := by
  rw [UInt8.lt_iff_toNat_lt, toNat_ofNat hn]

theorem ofNat_eq_iff {n : Nat} (hn : n < 256) (b : UInt8) : UInt8.ofNat n = b ↔ n = b.toNat := by
  rw [← UInt8.toNat_inj, toNat_ofNat hn]

theorem lead_one {n : Nat} (h : n < 0x80) : lead (UInt8.ofNat n) = .char (Char.ofNat n) := by
  have hn : n < 256 := by omega
  simp only [lead, ofNat_lt_iff hn, toNat_ofNat hn, UInt8.reduceToNat]
  exact if_pos h

theorem lead_two {n : Nat} (hl : 2 ≤ n) (hh : n < 32) :
    lead (UInt8.ofNat (n + 0xC0)) = .begun ⟨n,0,0x80,0xBF⟩ := by
  have hn : n + 0xC0 < 256 := by omega
  have hm : (n + 0xC0) % 32 = n := by omega
  simp only [lead, ofNat_lt_iff hn, toNat_ofNat hn, hm, UInt8.reduceToNat]
  rw [if_neg (by omega), if_neg (by omega), if_pos (by omega)]

theorem lead_three {n : Nat} (hh : n < 16) :
    lead (UInt8.ofNat (n + 0xE0)) =
      .begun ⟨n,1,if n = 0 then 0xA0 else 0x80,if n = 13 then 0x9F else 0xBF⟩ := by
  have hn : n + 0xE0 < 256 := by omega
  have hm : (n + 0xE0) % 16 = n := by omega
  have hlow : n + 0xE0 = 0xE0 ↔ n = 0 := by omega
  have hhigh : n + 0xE0 = 0xED ↔ n = 13 := by omega
  simp only [lead, ofNat_lt_iff hn, ofNat_eq_iff hn, toNat_ofNat hn, hm, UInt8.reduceToNat, hlow,
    hhigh]
  rw [if_neg (by omega), if_neg (by omega), if_neg (by omega), if_pos (by omega)]

theorem lead_four {n : Nat} (hh : n < 5) :
    lead (UInt8.ofNat (n + 0xF0)) =
      .begun ⟨n,2,if n = 0 then 0x90 else 0x80,if n = 4 then 0x8F else 0xBF⟩ := by
  have hn : n + 0xF0 < 256 := by omega
  have hm : (n + 0xF0) % 8 = n := by omega
  have hlow : n + 0xF0 = 0xF0 ↔ n = 0 := by omega
  have hhigh : n + 0xF0 = 0xF4 ↔ n = 4 := by omega
  simp only [lead, ofNat_lt_iff hn, ofNat_eq_iff hn, toNat_ofNat hn, hm, UInt8.reduceToNat, hlow,
    hhigh]
  rw [if_neg (by omega), if_neg (by omega), if_neg (by omega), if_neg (by omega),
    if_pos (by omega)]

theorem pieces_of_char {b : UInt8} {c : Char} (h : lead b = .char c) (bytes : List UInt8) :
    pieces none (b :: bytes) = some c :: pieces none bytes := by
  simp only [pieces, h]

theorem pieces_of_begun {b : UInt8} {p : Begun} (h : lead b = .begun p) (bytes : List UInt8) :
    pieces none (b :: bytes) = pieces (some p) bytes := by
  simp only [pieces, h]

/-! ## Characters and texts -/

/-- The bytes of a character are read as that character. -/
theorem pieces_utf8EncodeChar (c : Char) (bytes : List UInt8) :
    pieces none (String.utf8EncodeChar c ++ bytes) = some c :: pieces none bytes := by
  have hvalid : c.val.toNat < 0xD800 ∨ 0xDFFF < c.val.toNat ∧ c.val.toNat < 0x110000 := c.valid
  have hc : Char.ofNat c.val.toNat = c := c.ofNat_toNat
  have hlow : (0x80 : UInt8).toNat = 0x80 := rfl
  have hhigh : (0xBF : UInt8).toNat = 0xBF := rfl
  unfold String.utf8EncodeChar
  dsimp only
  generalize c.val.toNat = v at hvalid hc
  split
  · rename_i h1
    rw [List.singleton_append, pieces_of_char (lead_one (by omega)), hc]
  split
  · rename_i h1 h2
    have hv : v / 64 % 0x20 * 64 + v % 0x40 = v := by omega
    rw [List.cons_append, List.singleton_append,
      pieces_of_begun (lead_two (by omega) (by omega)),
      pieces_last (by omega) (by omega) (by omega), hv, hc]
  split
  · rename_i h1 h2 h3
    have hv : (v / 4096 % 0x10 * 64 + v / 64 % 0x40) * 64 + v % 0x40 = v := by omega
    rw [List.cons_append, List.cons_append, List.singleton_append,
      pieces_of_begun (lead_three (by omega)), pieces_more (n := v / 64 % 0x40) (by omega),
      pieces_last (by omega) (by omega) (by omega), hv, hc]
    · split <;> simp only [UInt8.reduceToNat] <;> omega
    · split <;> simp only [UInt8.reduceToNat] <;> omega
  · rename_i h1 h2 h3
    have hv : ((v / 262144 % 0x08 * 64 + v / 4096 % 0x40) * 64 + v / 64 % 0x40) * 64 +
      v % 0x40 = v := by omega
    rw [List.cons_append, List.cons_append, List.cons_append, List.singleton_append,
      pieces_of_begun (lead_four (by omega)), pieces_more (n := v / 4096 % 0x40) (by omega),
      pieces_more (n := v / 64 % 0x40) (by omega) (by omega) (by omega),
      pieces_last (by omega) (by omega) (by omega), hv, hc]
    · split <;> simp only [UInt8.reduceToNat] <;> omega
    · split <;> simp only [UInt8.reduceToNat] <;> omega

theorem pieces_encode (s : String) : pieces none (encode s) = s.toList.map some := by
  unfold encode
  induction s.toList with
  | nil => rfl
  | cons c cs ih => rw [List.flatMap_cons, pieces_utf8EncodeChar, ih, List.map_cons]

@[simp] theorem decodeLossy_encode (s : String) : decodeLossy (encode s) = s := by
  simp [decodeLossy, pieces_encode, Function.comp_def]

theorem decode?_encode (s : String) : decode? (encode s) = some s := by
  have hm (cs : List Char) : (cs.map some).mapM id = some cs := by
    induction cs with
    | nil => rfl
    | cons c cs ih => simp [ih]
  rw [decode?, pieces_encode, hm, Option.map_some, String.ofList_toList]

theorem encode_append (s t : String) : encode (s ++ t) = encode s ++ encode t := by
  simp [encode]

end Text.Utf8

namespace Frame

@[simp] theorem toText_ofText (s : String) : (ofText s).toText = s := Text.Utf8.decodeLossy_encode s

@[simp] theorem startsWith_ofText_append (s t : String) :
    (ofText (s ++ t)).startsWith s = true := by
  simp [startsWith, ofText, Text.Utf8.encode_append]

end Frame
end Majordomo
