import Majordomo.Proofs.Client.Closing
import Majordomo.Proofs.Client.Outbox

/-! # The sends that wait when a session is closed

Closing takes nothing out of the queue. Those of the waiting sends for which the queue still has
room are let in; the others are neither let in nor refused, whatever happens afterwards.
-/
namespace Majordomo.Client

def Entry.admitted? : Entry → Option Nat
  | .admitted ticket => some ticket
  | _ => none

/-- A task that is told to stop takes nothing from the queue. -/
theorem Turn.queue_of_isStopped {s t : State} {e e' : Episode} (h : Turn s e t e')
    (hx : s.isStopped e = true) : t.queue = s.queue := by
  cases h <;> first | rfl | simp_all

namespace State
variable {s t t' : State} {k : Nat}

/-- The tickets of the sends that had waited and have returned, in order. -/
def admissions (s : State) : List Nat := s.journal.filterMap Entry.admitted?

def room (s : State) : Nat := max 1 s.settings.capacity - s.queue.length

theorem hasRoom_iff : s.hasRoom = true ↔ 0 < s.room := by
  simp only [hasRoom, room, decide_eq_true_eq]
  omega

/-! ## A session that is closed -/

theorem ending_of_closing (h : s.Sound) (hc : s.closing = true) : Ending s s :=
  ⟨h,h.isCancelled_of_closing hc,fun _ => hc,id,rfl,rfl⟩

/-! ## Who is let in -/

/-- Since the session was `s` it was closed, and the first `k` of the sends that waited then
have been let in. -/
structure LetIn (s t : State) (k : Nat) : Prop where
  closing : t.closing = true
  settings : t.settings = s.settings
  le : k ≤ s.waiting.length
  room : k ≤ s.room
  waiting : t.waiting = s.waiting.drop k
  queue : t.queue = s.queue ++ (s.waiting.take k).map Prod.snd
  admissions : t.admissions = s.admissions ++ (s.waiting.take k).map Prod.fst

theorem letIn_close (s : State) : LetIn s s.close 0 := by
  have hq : s.close.queue = s.queue ++ [] := (gains_close s).queue
  have ha : s.close.admissions = s.admissions := (grows_close s).filterMap_eq fun x hx => by
    cases x <;> first | rfl | cases hx
  exact ⟨closing_close s,settings_close s,Nat.zero_le _,Nat.zero_le _,by simp [waiting_close],by simp [hq],
    by simp [ha]⟩

/-- A change that leaves the queue and those who wait for it alone. -/
theorem LetIn.congr (h : LetIn s t k) (hc : t'.closing = true) (hset : t'.settings = t.settings)
    (hw : t'.waiting = t.waiting) (hq : t'.queue = t.queue)
    (ha : t'.admissions = t.admissions) : LetIn s t' k :=
  ⟨hc,hset.trans h.settings,h.le,h.room,hw.trans h.waiting,hq.trans h.queue,
    ha.trans h.admissions⟩

/-- The next of those who wait is let in. -/
theorem LetIn.enqueue (h : LetIn s t k) {ticket : Nat} {o : Outbound}
    {waiting : List (Nat × Outbound)} (hw : t.waiting = (ticket,o) :: waiting)
    (hr : t.hasRoom = true) :
    LetIn s
      { t with
        waiting
        queue := t.queue ++ [o]
        journal := t.journal ++ [.accepted o] ++ [.admitted ticket] } (k + 1) := by
  have hdrop : s.waiting.drop k = (ticket,o) :: waiting := h.waiting.symm.trans hw
  have hlt : k < s.waiting.length := by
    refine Nat.lt_of_not_le fun hle => ?_
    rw [List.drop_eq_nil_of_le hle] at hdrop
    cases hdrop
  have htake : s.waiting.take (k + 1) = s.waiting.take k ++ [(ticket,o)] := by
    rw [List.take_add, hdrop]
    rfl
  have hroom : k + 1 ≤ s.room := by
    have hlen : t.queue.length = s.queue.length + k := by
      rw [h.queue, List.length_append, List.length_map, List.length_take, Nat.min_eq_left h.le]
    rw [hasRoom_iff, State.room, h.settings, hlen] at hr
    rw [State.room]
    omega
  refine ⟨h.closing,h.settings,hlt,hroom,?_,?_,?_⟩
  · rw [← List.drop_drop, hdrop]
    rfl
  · simp [h.queue, htake]
  · have ha := h.admissions
    simp only [State.admissions] at ha ⊢
    simp [ha, htake, Entry.admitted?, List.filterMap_cons]

/-- What every change does to a session that is closed. -/
theorem LetIn.change (h : LetIn s t k) (hs : t.Sound) (hc : Change t t') : ∃ k, LetIn s t' k := by
  cases hc with
  | step hstep =>
    cases hstep with
    | @turn _ e e' u _ he ht =>
      have hx : t.isStopped e = true := by
        simp [isStopped, hs.isCancelled_of_closing h.closing]
      have hclosing : u.closing = true := (congrArg State.closing ht.frame :).trans h.closing
      have hd : u.destroyed = false :=
        (congrArg State.destroyed ht.frame :).trans (hs.live e he).1.notDestroyed
      have hset : u.settings = t.settings := (congrArg State.settings ht.frame :)
      have hw : u.waiting = t.waiting := (congrArg State.waiting ht.frame :)
      have hq : u.queue = t.queue := ht.queue_of_isStopped hx
      have hj : u.journal = t.journal := (ht.of_isStopped hx).1
      refine ⟨k,?_⟩
      -- the turn may have been the last of the episode, but that lets nobody in either
      rcases settleEpisode_of_ending (by rw [hclosing]; rfl) hd e' with ⟨_,hu⟩ | ⟨_,hu⟩ <;> rw [hu]
      · exact h.congr hclosing hset hw hq (by rw [State.admissions, hj]; rfl)
      · exact h.congr rfl hset hw hq (by simp [State.admissions, hj, Entry.admitted?])
    | revive =>
      rw [execute_of_not_canExecute (by simp [canExecute, h.closing])]
      exact ⟨k,h.congr h.closing rfl rfl rfl rfl⟩
    | enqueue hw hr => exact ⟨k + 1,h.enqueue hw hr⟩
  | request hc | push _ hc | wait _ _ hc => cases h.closing.symm.trans hc
  | suppress | listen | network | tick | shutdown =>
    exact ⟨k,h.congr h.closing rfl rfl rfl rfl⟩

theorem LetIn.run (h : LetIn s t k) (hs : t.Sound) (acts : List Act) :
    ∃ k, LetIn s (t.run acts) k := by
  have hrun : (t.run acts).Sound ∧ ∃ k, LetIn s (t.run acts) k :=
    run_invariant (P := fun u => u.Sound ∧ ∃ k, LetIn s u k)
      (fun _ _ _ hc ⟨hs,_,h⟩ => ⟨hc.sound hs,h.change hs hc⟩)
      (fun _ u ⟨hs,n,h⟩ => ⟨hs.close,n,by rwa [close_of_closing h.closing]⟩)
      hs.sane ⟨hs,k,h⟩
  exact hrun.2

/-- At rest all those are let in for whom there was room. -/
theorem LetIn.eq_room (h : LetIn s t k) (hfull : t.waiting = [] ∨ t.hasRoom = false) :
    k = min s.room s.waiting.length := by
  have hle := h.le
  have hroom := h.room
  rcases hfull with hw | hr
  · have hdrop : s.waiting.drop k = [] := h.waiting.symm.trans hw
    have hge : s.waiting.length ≤ k := List.drop_eq_nil_iff.mp hdrop
    omega
  · have hlen : t.queue.length = s.queue.length + k := by
      rw [h.queue, List.length_append, List.length_map, List.length_take, Nat.min_eq_left h.le]
    have hn : ¬ 0 < t.room := fun hp => by simp [hasRoom_iff.mpr hp] at hr
    rw [State.room, h.settings, hlen] at hn
    rw [State.room] at hroom ⊢
    omega

/-- When a session that was closed has come to rest, as many of the sends that waited have
returned as there was room for, in their order, and their messages are in the queue. The others
still wait, and whatever happens they wait for ever. -/
theorem waiting_sends_stranded (c : Settings) (m : Mode) (monitor : Monitor)
    (listener : Option Nat) (acts later : List Act)
    (hq : (((start c m monitor listener).run acts).close.run later).isQuiescent = true) :
    let s := (start c m monitor listener).run acts
    let t := s.close.run later
    t.destroyed = true ∧
    t.queue = s.queue ++ (s.waiting.take s.room).map Prod.snd ∧
    t.admissions = s.admissions ++ (s.waiting.take s.room).map Prod.fst ∧
    t.waiting = s.waiting.drop s.room ∧
    ∀ more, (t.run more).waiting = t.waiting ∧ (t.run more).admissions = t.admissions := by
  intro s t
  have hs : s.Sound := sound_run (sound_start ..) acts
  have hend : Ending s.close t := (ending_of_closing hs.close (closing_close s)).run later
  have hstill : t.Still := hend.still hq
  obtain ⟨k,hk⟩ := (letIn_close s).run hs.close later
  have hroom := hk.eq_room hstill.full
  have ⟨htake,hdrop⟩ : s.waiting.take k = s.waiting.take s.room ∧
      s.waiting.drop k = s.waiting.drop s.room := by
    rcases Nat.le_total s.room s.waiting.length with hle | hle
    · rw [hroom, Nat.min_eq_left hle]
      exact ⟨rfl,rfl⟩
    · rw [hroom, Nat.min_eq_right hle, List.take_of_length_le hle, List.drop_eq_nil_of_le hle]
      simp
  refine ⟨(hend.result hq).1,?_,?_,?_,fun more => ?_⟩
  · rw [← htake]
    exact hk.queue
  · rw [← htake]
    exact hk.admissions
  · rw [← hdrop]
    exact hk.waiting
  · obtain ⟨hu,hj,_⟩ := hstill.run more
    obtain ⟨k',hk'⟩ := hk.run (sound_run hs.close later) more
    have hroom' := hk'.eq_room hu.full
    refine ⟨?_,congrArg (List.filterMap Entry.admitted?) hj⟩
    rw [hk'.waiting, hk.waiting, hroom, hroom']

/-- The queue holds one message and the second send waits when the session is closed: it waits
for ever in a session that is destroyed. -/
theorem waiting_sends_stranded_full :
    let c := { Settings.sample with capacity := 1 }
    let s := (start c .hang {} none).run
      [.move .sender, .send 1 ⟨"echo","a"⟩, .send 2 ⟨"echo","b"⟩]
    let t := s.close.run [.move .sender, .move .receiver]
    t.isQuiescent = true ∧ t.destroyed = true ∧ t.waiting = [(2,⟨"echo","b"⟩)] ∧
      ∀ more, (t.run more).waiting = t.waiting ∧ (t.run more).admissions = t.admissions := by
  intro c s t
  have hq : t.isQuiescent = true := by decide
  obtain ⟨hdes,_,_,hw,hmore⟩ := waiting_sends_stranded c .hang {} none
    [.move .sender, .send 1 ⟨"echo","a"⟩, .send 2 ⟨"echo","b"⟩] [.move .sender, .move .receiver] hq
  have hrest : s.waiting.drop s.room = [(2,⟨"echo","b"⟩)] := by decide
  exact ⟨hq,hdes,hw.trans hrest,hmore⟩

end State
end Majordomo.Client
