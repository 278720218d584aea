import Majordomo.Proofs.Client.Lifecycle
import Mathlib.Data.List.Induction

/-! # How the journal grows

A session only ever adds to its journal. What it adds between two episodes is a notice: that it
connects again, or that it is destroyed.
-/
namespace Majordomo.Client

namespace Entry

def event? : Entry → Option Event
  | .event e => some e
  | .dialled _ | .accepted _ | .admitted _ | .taken _ | .written .. | .lost _ | .counted _
  | .delivered .. => none

def isNotice : Entry → Bool
  | .event .reconnecting | .event .destroyed => true
  | _ => false

def isDialled : Entry → Bool
  | .dialled _ => true
  | _ => false

def isIntake : Entry → Bool
  | .accepted _ | .admitted _ => true
  | _ => false

/-- The entry notes what no task of an episode does. -/
def isOutside (x : Entry) : Bool := x.isNotice || x.isIntake

end Entry

def Grows (kind : Entry → Bool) (l l' : List Entry) : Prop :=
  ∃ m, (∀ x ∈ m, kind x = true) ∧ l' = l ++ m

section
variable {kind : Entry → Bool} {l l' l'' : List Entry}

theorem Grows.refl (l : List Entry) : Grows kind l l := ⟨[],nofun,(List.append_nil l).symm⟩

theorem Grows.append (h : Grows kind l l') {m : List Entry} (hm : ∀ x ∈ m, kind x = true) :
    Grows kind l (l' ++ m) := by
  obtain ⟨n,hn,rfl⟩ := h
  refine ⟨n ++ m,fun x hx => ?_,List.append_assoc ..⟩
  exact (List.mem_append.mp hx).elim (hn x) (hm x)

theorem Grows.snoc (h : Grows kind l l') {x : Entry} (hx : kind x = true) :
    Grows kind l (l' ++ [x]) :=
  h.append fun _ hm => List.mem_singleton.mp hm ▸ hx

theorem Grows.trans (h : Grows kind l l') (h' : Grows kind l' l'') : Grows kind l l'' := by
  obtain ⟨m,hm,rfl⟩ := h'
  exact h.append hm

theorem Grows.mono {kind' : Entry → Bool} (h : Grows kind l l')
    (hk : ∀ x, kind x = true → kind' x = true) : Grows kind' l l' := by
  obtain ⟨m,hm,hl⟩ := h
  exact ⟨m,fun x hx => hk x (hm x hx),hl⟩

theorem Grows.isPrefix (h : Grows kind l l') : l <+: l' := by
  obtain ⟨m,_,rfl⟩ := h
  exact List.prefix_append l m

theorem Grows.countP_eq (h : Grows kind l l') {p : Entry → Bool}
    (hp : ∀ x, kind x = true → p x = false) : l'.countP p = l.countP p := by
  obtain ⟨m,hm,rfl⟩ := h
  have hnone : m.countP p = 0 := List.countP_eq_zero.mpr fun x hx => by simp [hp x (hm x hx)]
  rw [List.countP_append, hnone, Nat.add_zero]

theorem Grows.count_eq (h : Grows kind l l') {x : Entry} (hx : kind x = false) :
    l'.count x = l.count x := by
  refine h.countP_eq fun y hy => ?_
  simp only [beq_eq_false_iff_ne]
  rintro rfl
  cases hx.symm.trans hy

/-- What is added to a journal, entry by entry. -/
@[elab_as_elim]
theorem Grows.rec_snoc {motive : List Entry → Prop} (h : Grows kind l l') (hl : motive l)
    (hsnoc : ∀ l x, kind x = true → motive l → motive (l ++ [x])) : motive l' := by
  obtain ⟨m,hm,rfl⟩ := h
  induction m using List.reverseRecOn with
  | nil => rwa [List.append_nil]
  | append_singleton m x ih =>
    rw [← List.append_assoc]
    exact hsnoc _ _ (hm x (List.mem_append_right _ (List.mem_singleton_self _)))
      (ih fun y hy => hm y (List.mem_append_left _ hy))

/-- What looks for entries of other kinds sees no difference. -/
theorem Grows.filterMap_eq {α : Type} {f : Entry → Option α} (h : Grows kind l l')
    (hf : ∀ x, kind x = true → f x = none) : l'.filterMap f = l.filterMap f := by
  obtain ⟨m,hm,rfl⟩ := h
  have hnone : m.filterMap f = [] := List.filterMap_eq_nil_iff.mpr fun x hx => hf x (hm x hx)
  rw [List.filterMap_append, hnone, List.append_nil]

end

namespace State

theorem grows_finishDestroy (s : State) :
    Grows Entry.isNotice s.journal s.finishDestroy.journal := by
  unfold finishDestroy
  split
  · exact .refl _
  · exact .snoc (.refl _) rfl

theorem grows_reconnect (s : State) : Grows Entry.isNotice s.journal s.reconnect.journal := by
  by_cases h : s.releasePhase = .new
  · rw [reconnect_of_new h]
    exact .snoc (.refl _) rfl
  · rw [reconnect_of_ne_new h]
    exact .refl _

/-- The end of an episode is told before what follows from it. -/
theorem grows_onReleased (failed : Bool) (s : State) :
    Grows Entry.isNotice (s.journal ++ [.event .disconnected]) (s.onReleased failed).journal := by
  rw [onReleased_eq]
  split
  · exact grows_finishDestroy s.released
  · split
    · exact .refl _
    · split
      · exact grows_reconnect { s.released with sendRequested := false }
      · exact grows_reconnect s.released

theorem grows_requestSend (s : State) : Grows Entry.isNotice s.journal s.requestSend.journal := by
  rcases Option.eq_none_or_eq_some s.episode with he | ⟨e,he⟩
  · rw [requestSend_of_idle he]
    exact grows_reconnect { s with sendRequested := true }
  · rw [requestSend_of_live he]
    exact .refl _

theorem grows_close (s : State) : Grows Entry.isNotice s.journal s.close.journal := by
  unfold close
  split
  · exact .refl _
  · dsimp only
    split
    · exact grows_finishDestroy s.stopped
    · exact .refl _

end State
end Majordomo.Client
