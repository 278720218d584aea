import Majordomo.Router.Framing
import Majordomo.Proofs.Router.Identity
import Majordomo.Proofs.Router.Protobuf

/-! # The messages of a stream

The bytes of a stream come in pieces. Which messages stand in them, and what is left behind the
last one, does not depend on how the bytes are cut, and the messages are the ones that were written.
-/
namespace Majordomo

namespace Bytes

theorem ofBigEndian_concat (bytes : List UInt8) (b : UInt8) :
    ofBigEndian (bytes ++ [b]) = ofBigEndian bytes * 256 + b.toNat := by
  rw [ofBigEndian, List.foldl_append]
  rfl

theorem ofBigEndian_bigEndian (width n : Nat) :
    ofBigEndian (bigEndian width n) = n % 256 ^ width := by
  induction width generalizing n with
  | zero => simp [bigEndian, ofBigEndian, Nat.mod_one]
  | succ width ih =>
    have hb : (UInt8.ofNat (n % 256)).toNat = n % 256 :=
      Text.Utf8.toNat_ofNat (Nat.mod_lt _ (by omega))
    rw [bigEndian, ofBigEndian_concat, ih, hb, Nat.pow_succ', Nat.mod_mul]
    omega

end Bytes

namespace Router.Framing
variable {bytes rest : List UInt8} {m : Message}

/-! ## One message -/

/-- What the front of a stream is found to be, bytes that come later do not change. -/
theorem next_cases (bytes : List UInt8) :
    next bytes = .incomplete ∨ (∀ more, next (bytes ++ more) = .broken) ∨
    ∃ m rest, rest.length < bytes.length ∧
      ∀ more, next (bytes ++ more) = .message m (rest ++ more) := by
  match bytes with
  | [] | [_] | [_,_] | [_,_,_] | [_,_,_,_] => exact .inl rfl
  | flag :: a :: b :: c :: d :: tail =>
    simp only [List.cons_append, next]
    by_cases hflag : flag ≠ 0 ∨ limit < Bytes.ofBigEndian [a,b,c,d]
    · simp only [if_pos hflag]
      exact .inr (.inl fun _ => trivial)
    · simp only [if_neg hflag]
      by_cases hlen : tail.length < Bytes.ofBigEndian [a,b,c,d]
      · exact .inl (if_pos hlen)
      · have hle := Nat.le_of_not_lt hlen
        have hmore (more : List UInt8) : ¬(tail ++ more).length < Bytes.ofBigEndian [a,b,c,d] := by
          rw [List.length_append]
          omega
        simp only [if_neg (hmore _), List.take_append_of_le_length hle,
          List.drop_append_of_le_length hle]
        cases Protobuf.decode? (tail.take (Bytes.ofBigEndian [a,b,c,d])) with
        | none => exact .inr (.inl fun _ => rfl)
        | some m =>
          refine .inr (.inr ⟨m,tail.drop (Bytes.ofBigEndian [a,b,c,d]),?_,fun _ => rfl⟩)
          simp only [List.length_cons, List.length_drop]
          omega

theorem of_next_message (h : next bytes = .message m rest) :
    rest.length < bytes.length ∧ ∀ more, next (bytes ++ more) = .message m (rest ++ more) := by
  rcases next_cases bytes with hn | hn | ⟨n,left,hlt,hn⟩
  · rw [hn] at h
    cases h
  · have h0 := hn []
    rw [List.append_nil, h] at h0
    cases h0
  · have h0 := hn []
    rw [List.append_nil, List.append_nil, h] at h0
    cases h0
    exact ⟨hlt,hn⟩

/-- A message that is not too long is read as it was written, whatever follows. -/
theorem next_encode_append (h : (Protobuf.encode m).length ≤ limit) (rest : List UInt8) :
    next (encode m ++ rest) = .message m rest := by
  have hl : (Protobuf.encode m).length < 256 ^ 4 :=
    Nat.lt_of_le_of_lt h (by decide)
  have hd : Protobuf.decode? (Protobuf.encode m) = some m :=
    Protobuf.decode?_encode (Nat.lt_trans hl (by decide))
  obtain ⟨a,b,c,d,hb⟩ :
      ∃ a b c d, Bytes.bigEndian 4 (Protobuf.encode m).length = [a,b,c,d] := ⟨_,_,_,_,rfl⟩
  have hn : Bytes.ofBigEndian [a,b,c,d] = (Protobuf.encode m).length := by
    rw [← hb, Bytes.ofBigEndian_bigEndian, Nat.mod_eq_of_lt hl]
  have hflag : ¬((0 : UInt8) ≠ 0 ∨ limit < (Protobuf.encode m).length) := by
    rintro (h0 | hlt)
    · exact h0 rfl
    · exact Nat.not_lt.mpr h hlt
  simp only [encode, hb, List.cons_append, List.nil_append, next, hn]
  rw [if_neg hflag, if_neg (by simp), List.take_left, List.drop_left, hd]

/-! ## All messages -/

/-- The complete messages at the front of a stream, at most `k`, and what is left behind them. -/
def scanUpTo : Nat → List UInt8 → List Message × List UInt8
  | 0, bytes => ([],bytes)
  | k + 1, bytes =>
    match next bytes with
    | .message m rest => (scanUpTo k rest).map (m :: ·) id
    | _ => ([],bytes)

def scan (bytes : List UInt8) : List Message × List UInt8 := scanUpTo bytes.length bytes

def IsStuck (bytes : List UInt8) : Prop := ∀ m rest, next bytes ≠ .message m rest

theorem isStuck_nil : IsStuck [] := by
  intro m rest h
  cases h

theorem isStuck_or (bytes : List UInt8) :
    IsStuck bytes ∨ ∃ m rest, next bytes = .message m rest := by
  by_cases h : IsStuck bytes
  · exact .inl h
  · simp only [IsStuck, not_forall, not_not] at h
    exact .inr h

theorem IsStuck.next (h : IsStuck bytes) :
    Framing.next bytes = .incomplete ∨ Framing.next bytes = .broken := by
  cases hn : Framing.next bytes with
  | incomplete => exact .inl rfl
  | broken => exact .inr rfl
  | message m rest => exact absurd hn (h m rest)

theorem scanUpTo_of_isStuck (h : IsStuck bytes) (k : Nat) : scanUpTo k bytes = ([],bytes) := by
  cases k with
  | zero => rfl
  | succ k =>
    rw [scanUpTo]
    split
    · rename_i hm
      exact absurd hm (h _ _)
    · rfl

/-- Messages are taken one after the other, as long as there are any. -/
theorem induction_next {P : List UInt8 → Prop} (stuck : ∀ bytes, IsStuck bytes → P bytes)
    (message : ∀ bytes m rest, next bytes = .message m rest → P rest → P bytes)
    (bytes : List UInt8) : P bytes := by
  induction hn : bytes.length using Nat.strong_induction_on generalizing bytes with
  | _ n ih =>
    rcases isStuck_or bytes with hs | ⟨m,rest,hm⟩
    · exact stuck bytes hs
    · exact message bytes m rest hm (ih rest.length (hn ▸ (of_next_message hm).1) rest rfl)

theorem scanUpTo_eq_scanUpTo {j k : Nat} (hj : bytes.length ≤ j) (hk : bytes.length ≤ k) :
    scanUpTo j bytes = scanUpTo k bytes := by
  induction bytes using induction_next generalizing j k with
  | stuck bytes hs => rw [scanUpTo_of_isStuck hs, scanUpTo_of_isStuck hs]
  | message bytes m rest hm ih =>
    have hlt := (of_next_message hm).1
    obtain ⟨j,rfl⟩ := Nat.exists_eq_add_one_of_ne_zero (by omega : j ≠ 0)
    obtain ⟨k,rfl⟩ := Nat.exists_eq_add_one_of_ne_zero (by omega : k ≠ 0)
    simp only [scanUpTo, hm, ih (by omega : rest.length ≤ j) (by omega : rest.length ≤ k)]

theorem scanUpTo_eq_scan {k : Nat} (h : bytes.length ≤ k) : scanUpTo k bytes = scan bytes :=
  scanUpTo_eq_scanUpTo h (Nat.le_refl _)

theorem scan_of_isStuck (h : IsStuck bytes) : scan bytes = ([],bytes) := scanUpTo_of_isStuck h _

theorem scan_of_message (h : next bytes = .message m rest) :
    scan bytes = (scan rest).map (m :: ·) id := by
  have hlt := (of_next_message h).1
  rw [← scanUpTo_eq_scan (Nat.le_succ bytes.length), scanUpTo, h]
  simp only [scanUpTo_eq_scan (Nat.le_of_lt hlt)]

theorem isStuck_scan (bytes : List UInt8) : IsStuck (scan bytes).2 := by
  induction bytes using induction_next with
  | stuck bytes hs =>
    rw [scan_of_isStuck hs]
    exact hs
  | message bytes m rest hm ih =>
    rw [scan_of_message hm]
    exact ih

/-- What comes later is scanned behind what is left of what came before. -/
theorem scan_append (bytes more : List UInt8) :
    scan (bytes ++ more) = (scan ((scan bytes).2 ++ more)).map ((scan bytes).1 ++ ·) id := by
  induction bytes using induction_next with
  | stuck bytes hs =>
    rw [scan_of_isStuck hs]
    rfl
  | message bytes m rest hm ih =>
    rw [scan_of_message ((of_next_message hm).2 more), scan_of_message hm, ih]
    rfl

theorem scan_encode_append {ms : List Message} (h : ∀ m ∈ ms, (Protobuf.encode m).length ≤ limit)
    (tail : List UInt8) : scan (ms.flatMap encode ++ tail) = (scan tail).map (ms ++ ·) id := by
  induction ms with
  | nil => rfl
  | cons m ms ih =>
    have hm := next_encode_append (h m (List.mem_cons_self ..)) (ms.flatMap encode ++ tail)
    rw [List.flatMap_cons, List.append_assoc, scan_of_message hm,
      ih fun n hn => h n (List.mem_cons_of_mem m hn)]
    rfl

/-- Whatever is written as messages is scanned as the same messages, and a message that is not
complete is left. -/
theorem scan_encode {ms : List Message} (h : ∀ m ∈ ms, (Protobuf.encode m).length ≤ limit)
    {tail : List UInt8} (ht : next tail = .incomplete) :
    scan (ms.flatMap encode ++ tail) = (ms,tail) := by
  have hs : IsStuck tail := by
    intro m rest hm
    rw [ht] at hm
    cases hm
  rw [scan_encode_append h, scan_of_isStuck hs, Prod.map_apply, List.append_nil]
  rfl

end Router.Framing
end Majordomo
