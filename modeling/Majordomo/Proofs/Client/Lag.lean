import Majordomo.Proofs.Client.Outbox
import Mathlib.Data.List.DropRight

/-! # How far the replies lag behind

The journal of a session falls into chapters, one for every episode, each ending where the
session was told to be disconnected. Within a chapter the replies lag behind by what was written
and not yet answered.
-/
namespace Majordomo.Client

namespace Entry

def isWritten : Entry → Bool
  | .written .. => true
  | _ => false

def isCounted : Entry → Bool
  | .counted _ => true
  | _ => false

/-- The entry neither ends an episode nor tells of messages that are sent or counted. -/
def isCalm : Entry → Bool
  | .taken _ | .written .. | .lost _ | .counted _ | .event .disconnected => false
  | _ => true

theorem isWritten_of_isCalm {x : Entry} (h : x.isCalm = true) : x.isWritten = false := by
  cases x with
  | written => cases h
  | _ => rfl

theorem isCounted_of_isCalm {x : Entry} (h : x.isCalm = true) : x.isCounted = false := by
  cases x with
  | counted => cases h
  | _ => rfl

theorem isDeparture_of_isCalm {x : Entry} (h : x.isCalm = true) : x.isDeparture = false := by
  cases x with
  | taken | written | lost => cases h
  | _ => rfl

theorem ne_disconnected_of_isCalm {x : Entry} (h : x.isCalm = true) :
    x ≠ .event .disconnected := by
  rintro rfl
  cases h

theorem isDeparture_of_isWritten {x : Entry} (h : x.isWritten = true) : x.isDeparture = true := by
  cases x with
  | written => rfl
  | _ => cases h

end Entry

/-! ## Chapters -/

/-- What was noted since the last episode ended. -/
def chapter (l : List Entry) : List Entry := l.rtakeWhile (· ≠ .event .disconnected)

/-- What was noted of the last episode that ended. -/
def lastChapter (l : List Entry) : List Entry :=
  chapter (l.rdropWhile (· ≠ .event .disconnected)).dropLast

theorem chapter_disconnected (l : List Entry) : chapter (l ++ [.event .disconnected]) = [] :=
  List.rtakeWhile_concat_neg _ _ _ (by simp)

theorem chapter_snoc (l : List Entry) {x : Entry} (h : x ≠ .event .disconnected) :
    chapter (l ++ [x]) = chapter l ++ [x] :=
  List.rtakeWhile_concat_pos _ _ _ (by simpa using h)

theorem countP_chapter_snoc (l : List Entry) {x : Entry} (h : x ≠ .event .disconnected)
    (p : Entry → Bool) :
    (chapter (l ++ [x])).countP p = (chapter l).countP p + if p x then 1 else 0 := by
  rw [chapter_snoc l h, List.countP_append, List.countP_singleton]

theorem lastChapter_disconnected (l : List Entry) :
    lastChapter (l ++ [.event .disconnected]) = chapter l := by
  rw [lastChapter, List.rdropWhile_concat_neg _ _ _ (by simp), List.dropLast_concat]

theorem lastChapter_snoc (l : List Entry) {x : Entry} (h : x ≠ .event .disconnected) :
    lastChapter (l ++ [x]) = lastChapter l := by
  rw [lastChapter, List.rdropWhile_concat_pos _ _ _ (by simpa using h), lastChapter]

/-! ## The lag -/

/-- By how much the messages written in the latest chapter outnumber its replies. -/
def lag (l : List Entry) : Nat :=
  (chapter l).countP Entry.isWritten - (chapter l).countP Entry.isCounted

theorem lag_disconnected (l : List Entry) : lag (l ++ [.event .disconnected]) = 0 := by
  rw [lag, chapter_disconnected]
  exact rfl

theorem lag_snoc_le (l : List Entry) {x : Entry} (h : x.isWritten = false) :
    lag (l ++ [x]) ≤ lag l := by
  by_cases hx : x = .event .disconnected
  · rw [hx, lag_disconnected]
    exact Nat.zero_le _
  · rw [lag, lag, countP_chapter_snoc l hx, countP_chapter_snoc l hx, h]
    simp only [Bool.false_eq_true, if_false]
    omega

theorem lag_snoc_le_succ (l : List Entry) (x : Entry) : lag (l ++ [x]) ≤ lag l + 1 := by
  by_cases hx : x = .event .disconnected
  · rw [hx, lag_disconnected]
    exact Nat.zero_le _
  · rw [lag, lag, countP_chapter_snoc l hx, countP_chapter_snoc l hx]
    split <;> omega

structure Tally (l : List Entry) (written counted : Nat) : Prop where
  written : written = (chapter l).countP Entry.isWritten
  counted : counted = (chapter l).countP Entry.isCounted

section
variable {l : List Entry} {n k : Nat}

theorem Tally.lag_eq (h : Tally l n k) : lag l = n - k := by
  rw [lag, h.written, h.counted]

theorem Tally.snoc (h : Tally l n k) {x : Entry} (hx : x ≠ .event .disconnected) :
    Tally (l ++ [x]) (n + if x.isWritten then 1 else 0) (k + if x.isCounted then 1 else 0) := by
  constructor
  · rw [countP_chapter_snoc l hx, ← h.written]
  · rw [countP_chapter_snoc l hx, ← h.counted]

end

/-- Since the last episode ended the replies have never lagged more than `threshold` behind. -/
def KeptUp (threshold : Nat) (l : List Entry) : Prop :=
  ∀ pre mid, pre ++ mid = l → .event .disconnected ∉ mid → lag pre ≤ threshold

/-- No message has left the queue once the replies lagged more than `threshold` behind. -/
def Gated (threshold : Nat) (l : List Entry) : Prop :=
  ∀ pre x, pre ++ [x] <+: l → x.isDeparture = true → KeptUp threshold pre

section
variable {threshold : Nat} {l m : List Entry} {x : Entry}

theorem KeptUp.lag_le (h : KeptUp threshold l) : lag l ≤ threshold :=
  h l [] (List.append_nil l) (by simp)

theorem KeptUp.snoc (h : x ≠ .event .disconnected → KeptUp threshold l)
    (hx : lag (l ++ [x]) ≤ threshold) : KeptUp threshold (l ++ [x]) := by
  intro pre mid hl hd
  rcases mid.eq_nil_or_concat' with rfl | ⟨mid,y,rfl⟩
  · rw [List.append_nil] at hl
    rwa [hl]
  · rw [← List.append_assoc] at hl
    obtain ⟨rfl,hy⟩ := List.append_inj' hl rfl
    obtain rfl : y = x := by simpa using hy
    obtain ⟨hmid,hne⟩ : .event .disconnected ∉ mid ∧ y ≠ .event .disconnected := by
      simpa [eq_comm] using hd
    exact h hne pre mid rfl hmid

theorem keptUp_disconnected (threshold : Nat) (l : List Entry) :
    KeptUp threshold (l ++ [.event .disconnected]) := by
  refine .snoc (fun h => absurd rfl h) ?_
  rw [lag_disconnected]
  exact Nat.zero_le _

theorem KeptUp.snoc_of_not_isWritten (h : KeptUp threshold l) (hx : x.isWritten = false) :
    KeptUp threshold (l ++ [x]) :=
  .snoc (fun _ => h) (Nat.le_trans (lag_snoc_le l hx) h.lag_le)

theorem Gated.snoc (h : Gated threshold l) (hx : x.isDeparture = true → KeptUp threshold l) :
    Gated threshold (l ++ [x]) := by
  intro pre y hp hy
  rcases List.prefix_concat_iff.mp hp with hp | hp
  · obtain ⟨rfl,hxy⟩ := List.append_inj' hp rfl
    obtain rfl : y = x := by simpa using hxy
    exact hx hy
  · exact h pre y hp hy

/-- The replies never lag behind by more than one message over the threshold. -/
theorem Gated.lag_le (h : Gated threshold l) {pre : List Entry} (hp : pre <+: l) :
    lag pre ≤ threshold + 1 := by
  induction pre using List.reverseRecOn with
  | nil => exact Nat.zero_le _
  | append_singleton pre x ih =>
    cases hx : x.isWritten with
    | true =>
      have hk : lag pre ≤ threshold := (h pre x hp (Entry.isDeparture_of_isWritten hx)).lag_le
      have hs := lag_snoc_le_succ pre x
      omega
    | false =>
      exact Nat.le_trans (lag_snoc_le pre hx) (ih (List.IsPrefix.trans (List.prefix_append ..) hp))

end

/-! ## Calm additions -/

section
variable {threshold : Nat} {l l' : List Entry}

theorem Entry.isCalm_of_isNotice (x : Entry) (h : x.isNotice = true) : x.isCalm = true := by
  cases x with
  | event e =>
    cases e with
    | reconnecting | destroyed => rfl
    | _ => cases h
  | _ => cases h

theorem calm_deliveries (payload : String) (s : State) :
    ∀ x ∈ s.deliveries payload, x.isCalm = true := by
  unfold State.deliveries
  cases s.listener <;> simp [Entry.isCalm]

theorem countP_chapter_of_calm (h : Grows Entry.isCalm l l') {p : Entry → Bool}
    (hp : ∀ x : Entry, x.isCalm = true → p x = false) :
    (chapter l').countP p = (chapter l).countP p := by
  refine Grows.rec_snoc h rfl fun n x hx ih => ?_
  rw [countP_chapter_snoc n (Entry.ne_disconnected_of_isCalm hx), hp x hx, ih]
  exact rfl

theorem Tally.calm {n k : Nat} (h : Tally l n k) (hl : Grows Entry.isCalm l l') :
    Tally l' n k := by
  constructor
  · rw [countP_chapter_of_calm hl fun _ => Entry.isWritten_of_isCalm, ← h.written]
  · rw [countP_chapter_of_calm hl fun _ => Entry.isCounted_of_isCalm, ← h.counted]

theorem lastChapter_of_calm (h : Grows Entry.isCalm l l') : lastChapter l' = lastChapter l := by
  refine Grows.rec_snoc h rfl fun n x hx ih => ?_
  rw [lastChapter_snoc n (Entry.ne_disconnected_of_isCalm hx), ih]

theorem isCalm_of_mem_chapter (h : Grows Entry.isCalm l l')
    (hl : ∀ x ∈ chapter l, x.isCalm = true) : ∀ x ∈ chapter l', x.isCalm = true := by
  refine Grows.rec_snoc h hl fun n y hy ih x hx => ?_
  rw [chapter_snoc n (Entry.ne_disconnected_of_isCalm hy)] at hx
  rcases List.mem_append.mp hx with hx | hx
  · exact ih x hx
  · exact List.mem_singleton.mp hx ▸ hy

theorem KeptUp.calm (hl : KeptUp threshold l) (h : Grows Entry.isCalm l l') :
    KeptUp threshold l' :=
  Grows.rec_snoc h hl fun _ _ hx ih => ih.snoc_of_not_isWritten (Entry.isWritten_of_isCalm hx)

theorem Gated.calm (hl : Gated threshold l) (h : Grows Entry.isCalm l l') :
    Gated threshold l' := by
  refine Grows.rec_snoc h hl fun _ _ hx ih => ih.snoc fun hd => ?_
  cases (Entry.isDeparture_of_isCalm hx).symm.trans hd

end
end Majordomo.Client
