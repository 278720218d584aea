import Majordomo.Proofs.Client.Halves
import Majordomo.Proofs.Client.Modes

/-! # How a session ends

Once a session is to end its tasks only stop. What is left for them to do gets less with every
move, and when nothing is left the session is destroyed and stays as it is.
-/
namespace Majordomo.Client

theorem Turn.of_isStopped {s t : State} {e e' : Episode} (h : Turn s e t e')
    (hx : s.isStopped e = true) : t.journal = s.journal ∧ t.monitor = s.monitor := by
  cases h <;> first | exact ⟨rfl,rfl⟩ | simp_all

def Sender.left (r : Sender) : Nat := if r = .ended then 0 else 1

def Receiver.left : Receiver → Nat
  | .ended => 0
  | .waiting | .reading _ => 1
  | .handed _ => 2

def Episode.left (e : Episode) : Nat := e.sender.left + e.receiver.left

theorem Turn.left_lt {s t : State} {e e' : Episode} (h : Turn s e t e')
    (hx : s.isStopped e = true) : e'.left < e.left := by
  cases h <;> grind [Episode.left, Sender.left, Receiver.left, Episode.quit, Episode.hangUp,
    Sender.isConnecting]

theorem Episode.left_le (e : Episode) : e.left ≤ 3 := by
  have hs : e.sender.left ≤ 1 := by
    unfold Sender.left
    split <;> omega
  have hr : e.receiver.left ≤ 2 := by
    cases e.receiver <;> simp [Receiver.left]
  exact Nat.add_le_add hs hr

namespace State
variable {s s' t : State} {e : Episode}

/-! ## What is left to do -/

theorem Sound.isCancelled_of_closing (h : s.Sound) (hc : s.closing = true) :
    s.isCancelled = true := by
  rcases Option.eq_none_or_eq_some s.episode with he | ⟨e,he⟩
  · cases hr : s.rootStopped with
    | true => simp [isCancelled, hr]
    | false => simp [isCancelled, ((h.gone he hc).shutDown hr).2.2]
  · simp [isCancelled, ((h.live e he).1.closing hc).2]

theorem Sound.not_closing (h : s.Sound) (hk : s.isCancelled = false) : s.closing = false :=
  Bool.eq_false_iff.mpr fun hc => by cases hk.symm.trans (h.isCancelled_of_closing hc)

/-- An episode of a session that is to end: when it is over the session is destroyed. -/
theorem settleEpisode_of_ending (hc : (s.closing || s.isCancelled) = true)
    (hd : s.destroyed = false) (e : Episode) :
    (e.isOver = false ∧ s.settleEpisode e = { s with episode := some e }) ∨
    (e.isOver = true ∧ s.settleEpisode e =
      { s with
        episode := none
        closing := true
        destroyed := true
        releasePhase := s.releasePhase.next .finished
        destroyedCalls := s.destroyedCalls + 1
        journal := s.journal ++ [.event .disconnected] ++ [.event .destroyed] }) := by
  cases ho : e.isOver with
  | false => exact .inl ⟨rfl,settleEpisode_of_not_over ho s⟩
  | true =>
    refine .inr ⟨rfl,?_⟩
    have hd' : s.released.destroyed = false := hd
    rw [settleEpisode_of_over ho, onReleased_of_closing hc, finishDestroy_of_not_destroyed hd']
    simp only [released, hc]

def left (s : State) : Nat :=
  s.episode.elim 0 Episode.left + s.reconnectDue.toNat + s.waiting.length

/-- What a session that is to end has still to tell. -/
def farewell (s : State) : List Event :=
  if s.episode.isSome then [.disconnected, .destroyed] else []

/-- The session `t` has been told to end since it was `s`, and nothing else has come of it. -/
structure Ending (s t : State) : Prop where
  sound : t.Sound
  cancelled : t.isCancelled = true
  closing : t.episode = none → t.closing = true
  stopped : s.rootStopped = true → t.rootStopped = true
  reported : t.monitor.reported = s.monitor.reported
  events : t.events ++ t.farewell = s.events ++ s.farewell

theorem left_settleEpisode_le (hc : (s.closing || s.isCancelled) = true)
    (hd : s.destroyed = false) (e : Episode) :
    (s.settleEpisode e).left ≤ e.left + s.reconnectDue.toNat + s.waiting.length := by
  rcases settleEpisode_of_ending hc hd e with ⟨_,hu⟩ | ⟨_,hu⟩ <;> rw [hu] <;> simp [left]

/-- The episode goes on, or it is over and with it the session. -/
theorem Ending.settle {u : State} {e' : Episode} (h : Ending s t) (he : t.episode = some e)
    (hsound : (u.settleEpisode e').Sound) (hroot : u.rootStopped = t.rootStopped)
    (hm : u.monitor = t.monitor) (hd : u.destroyed = t.destroyed) (hev : u.events = t.events) :
    Ending s (u.settleEpisode e') := by
  have hd : u.destroyed = false := hd.trans (h.sound.live e he).1.notDestroyed
  have hk : u.isCancelled = true := by
    rw [isCancelled, hroot, hm]
    exact h.cancelled
  have hstop : s.rootStopped = true → u.rootStopped = true := hroot ▸ h.stopped
  have hrep : u.monitor.reported = s.monitor.reported := hm ▸ h.reported
  have hold : u.events ++ [.disconnected, .destroyed] = s.events ++ s.farewell := by
    simpa [farewell, he, hev] using h.events
  have hend : (u.closing || u.isCancelled) = true := by simp [hk]
  rcases settleEpisode_of_ending hend hd e' with ⟨_,hu⟩ | ⟨_,hu⟩ <;> rw [hu] at hsound ⊢
  · exact ⟨hsound,hk,fun hx => (by cases hx),hstop,hrep,hold⟩
  · refine ⟨hsound,hk,fun _ => rfl,hstop,hrep,?_⟩
    simpa [farewell, events_eq, Entry.event?] using hold

/-- A task that is told to stop gives up what it has and neither notes nor reports anything. -/
theorem Ending.turn {u : State} {e' : Episode} (h : Ending s t) (he : t.episode = some e)
    (ht : Turn t e u e') : Ending s (u.settleEpisode e') := by
  have hx : t.isStopped e = true := by simp [isStopped, h.cancelled]
  obtain ⟨hj,hm⟩ := ht.of_isStopped hx
  have hsound : (u.settleEpisode e').Sound :=
    (ht.live (h.sound.live e he).1).sound_settleEpisode
  exact h.settle he hsound (congrArg State.rootStopped ht.frame :) hm
    (congrArg State.destroyed ht.frame :) (by rw [events_eq, events_eq, hj])

/-- The sender may still write what it has in hand. -/
theorem Ending.stint {hand hand' : Option Outbound} {u : State} {e' : Episode} {manager : Nat}
    {session : Option Nat} (h : Ending s t) (he : t.episode = some e)
    (hs : e.sender = .forwarding manager session) (hst : Stint hand t e hand' u e') :
    Ending s (u.settleEpisode e') := by
  have hsound : (u.settleEpisode e').Sound :=
    (hst.live (h.sound.live e he).1).sound_settleEpisode
  cases hst with
  | turn ht => exact h.turn he ht
  | misfire hx => cases hs.symm.trans hx
  | take => exact h.settle he hsound rfl rfl rfl (by simp [events_eq, Entry.event?])
  | put _ hput =>
    cases hput <;> exact h.settle he hsound rfl rfl rfl (by simp [events_eq, Entry.event?])

theorem Ending.step (h : Ending s t) {task : Task} (hstep : Step t task s') :
    Ending s s' ∧ s'.left < t.left := by
  have hsound : s'.Sound := hstep.sound h.sound
  cases hstep with
  | @turn _ e e' u _ he ht =>
    have hx : t.isStopped e = true := by simp [isStopped, h.cancelled]
    have hlt : e'.left < e.left := ht.left_lt hx
    have hroot : u.rootStopped = t.rootStopped := (congrArg State.rootStopped ht.frame :)
    have hdue : u.reconnectDue = t.reconnectDue := (congrArg State.reconnectDue ht.frame :)
    have hw : u.waiting = t.waiting := (congrArg State.waiting ht.frame :)
    have hd : u.destroyed = false :=
      (congrArg State.destroyed ht.frame :).trans (h.sound.live e he).1.notDestroyed
    have hk : u.isCancelled = true := by
      rw [isCancelled, hroot, (ht.of_isStopped hx).2]
      exact h.cancelled
    have hle := left_settleEpisode_le (by simp [hk]) hd e'
    refine ⟨h.turn he ht,?_⟩
    simp only [left, he, hdue, hw, Option.elim] at hle ⊢
    omega
  | revive hd =>
    -- the reconnect that was due finds the session closed
    have he := h.sound.idle_of_due hd
    rw [execute_of_not_canExecute (by simp [canExecute, h.closing he])] at hsound ⊢
    exact ⟨⟨hsound,h.cancelled,h.closing,h.stopped,h.reported,h.events⟩,by simp [left, he, hd]⟩
  | enqueue hw =>
    refine ⟨⟨hsound,h.cancelled,h.closing,h.stopped,h.reported,?_⟩,?_⟩
    · simpa [farewell, events_eq, Entry.event?, List.filterMap_cons] using h.events
    · simp only [left, hw, List.length_cons]
      exact Nat.lt_succ_self _

theorem Ending.change (h : Ending s t) (hc : Change t s') : Ending s s' := by
  have hsound : s'.Sound := hc.sound h.sound
  cases hc with
  | step hstep => exact (h.step hstep).1
  | request hc =>
    rcases Option.eq_none_or_eq_some t.episode with he | ⟨e,he⟩
    · cases (h.closing he).symm.trans hc
    · rw [requestSend_of_live he] at hsound ⊢
      exact ⟨hsound,h.cancelled,h.closing,h.stopped,h.reported,h.events⟩
  | push =>
    refine ⟨hsound,h.cancelled,h.closing,h.stopped,h.reported,?_⟩
    simpa [farewell, events_eq, Entry.event?, List.filterMap_cons] using h.events
  | shutdown =>
    refine ⟨hsound,?_,h.closing,h.stopped,h.reported,h.events⟩
    simp [isCancelled, Monitor.shutdown]
  | wait | suppress | listen | network | tick =>
    exact ⟨hsound,h.cancelled,h.closing,h.stopped,h.reported,h.events⟩

theorem Ending.close (h : Ending s t) : Ending s t.close := by
  have hsound : t.close.Sound := h.sound.close
  rcases Bool.eq_false_or_eq_true t.closing with hc | hc
  · rwa [close_of_closing hc]
  · rcases Option.eq_none_or_eq_some t.episode with he | ⟨e,he⟩
    · cases (h.closing he).symm.trans hc
    · rw [close_of_live hc he] at hsound ⊢
      exact ⟨hsound,rfl,fun _ => rfl,fun _ => rfl,h.reported,h.events⟩

theorem lessens_ending (s : State) : Lessens (Ending s) left :=
  fun _ _ _ h hm => h.step (step_move h.sound.sane hm)

/-- A session that is to end comes to rest whatever order its tasks move in. -/
theorem Ending.length_le {tasks : List Task} (h : Ending s t)
    (hm : tasks.foldlM move t = some s') : tasks.length ≤ t.left :=
  (lessens_ending s).length_le h hm

theorem Ending.run (h : Ending s t) (acts : List Act) : Ending s (t.run acts) :=
  run_invariant (fun _ _ _ hc h => h.change hc) (fun _ _ h => h.close) h.sound.sane h

/-- A write that has waited may be made after the session has been told to end. -/
theorem Ending.course {th : Threads} (h : Ending s th.session) (hw : th.Whole)
    {deeds : List Deed} (hd : ∀ d ∈ deeds, d.isWhole = true) :
    Ending s (th.course deeds).session :=
  hw.invariant (fun _ a _ h => h.run [a]) (fun _ h he hs hst => h.stint he hs hst) h hd

theorem Ending.isQuiescent_moveUpTo {n : Nat} (h : Ending s t) (hn : t.left ≤ n) :
    (moveUpTo n t).isQuiescent = true :=
  (lessens_ending s).isQuiescent_moveUpTo h hn

/-! ## The session at its end -/

structure Still (s : State) : Prop where
  closing : s.closing = true
  idle : s.episode = none
  notDue : s.reconnectDue = false
  full : s.waiting = [] ∨ s.hasRoom = false

theorem Still.move (h : s.Still) (task : Task) : s.move task = none := by
  cases task with
  | sender | receiver | watchdog => exact within_of_idle h.idle
  | reconnect => simp [State.move, reconnectMove, h.notDue]
  | admission =>
    rcases h.full with hw | hr
    · simp [State.move, admissionMove, hw]
    · simp only [State.move, admissionMove, hr]
      split <;> rfl

theorem send_of_closing (h : s.closing = true) (ticket : Nat) (o : Outbound) :
    s.send ticket o = (.refused .closed,s) := by
  simp [send, trySend, h]

/-- Whatever is done to the session, nothing is told, delivered or opened. -/
theorem Still.apply (h : s.Still) (a : Act) :
    (s.apply a).Still ∧ (s.apply a).journal = s.journal ∧
      (s.apply a).network.links.length = s.network.links.length := by
  cases a with
  | move task =>
    rw [State.apply, h.move]
    exact ⟨h,rfl,rfl⟩
  | overlook =>
    have ho : s.overlook = s := by rw [overlook, within_of_idle h.idle, Option.getD_none]
    rw [State.apply, ho]
    exact ⟨h,rfl,rfl⟩
  | send | disconnect =>
    rw [State.apply, send_of_closing h.closing]
    exact ⟨h,rfl,rfl⟩
  | sendIgnoringReply =>
    have hc : State.closing { s with suppressNext := true } = true := h.closing
    rw [State.apply, sendIgnoringReply, send_of_closing hc]
    exact ⟨{ h with },rfl,rfl⟩
  | attempt o =>
    have ho : s.trySend o = (.refused .closed,s) := by simp [trySend, h.closing]
    rw [State.apply, ho]
    exact ⟨h,rfl,rfl⟩
  | close =>
    rw [State.apply, close_of_closing h.closing]
    exact ⟨h,rfl,rfl⟩
  | network event =>
    exact ⟨{ h with },rfl,Network.links_onEvent_length s.network event⟩
  | listen | tick | shutdown => exact ⟨{ h with },rfl,rfl⟩

theorem Still.run (h : s.Still) (acts : List Act) :
    (s.run acts).Still ∧ (s.run acts).journal = s.journal ∧
      (s.run acts).network.links.length = s.network.links.length := by
  induction acts generalizing s with
  | nil => exact ⟨h,rfl,rfl⟩
  | cons a acts ih =>
    obtain ⟨ha,hj,hn⟩ := h.apply a
    obtain ⟨hr,hj',hn'⟩ := ih ha
    exact ⟨hr,hj'.trans hj,hn'.trans hn⟩

theorem Ending.still (h : Ending s t) (hq : t.isQuiescent = true) : t.Still := by
  have hi : t.episode = none := by
    rcases Option.eq_none_or_eq_some t.episode with he | ⟨e,he⟩
    · exact he
    · have hx : t.isStopped e = true := by simp [isStopped, h.cancelled]
      obtain ⟨hl,ho⟩ := h.sound.live e he
      cases (not_isStopped_of_quiescent hq he hl.valid ho).symm.trans hx
  refine ⟨h.closing hi,hi,not_reconnectDue_of_quiescent hq,?_⟩
  rw [isQuiescent_iff] at hq
  have hm : t.admissionMove = none := hq .admission
  unfold admissionMove at hm
  split at hm
  · split at hm
    · cases hm
    · rename_i hr
      exact .inr (by simpa using hr)
  · rename_i hw
    exact .inl hw

/-- A session that was to end and has come to rest. -/
theorem Ending.result (h : Ending s t) (hq : t.isQuiescent = true) :
    t.destroyed = true ∧ t.episode = none ∧ t.Gone ∧ t.events.count .destroyed = 1 ∧
      t.destroyedCalls = 1 ∧ t.events = s.events ++ s.farewell := by
  have hi : t.episode = none := (h.still hq).idle
  have hg : t.Gone := h.sound.gone hi (h.closing hi)
  have ha := h.sound.announced
  have hk := h.sound.calls
  have hev := h.events
  rw [hg.destroyed] at ha hk
  exact ⟨hg.destroyed,hi,hg,ha,hk,by simpa [farewell, hi] using hev⟩

end State
end Majordomo.Client
