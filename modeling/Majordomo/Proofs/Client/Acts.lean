import Majordomo.Proofs.Client.Shutdown

/-! # What one act does to a session

A task moves within the episode that is live, or a reconnect that is due begins the next one, or
the application asks for a connection or closes the session. Whatever else happens touches neither
an episode nor what is to come of it.
-/
namespace Majordomo.Client

namespace Act

def isSend : Act → Bool
  | .send .. | .sendIgnoringReply .. | .disconnect .. | .attempt _ => true
  | _ => false

def onNetwork (n : Network) : Act → Network
  | .network event => (n.onEvent event).2
  | _ => n

theorem onNetwork_of_isSend {a : Act} (h : a.isSend = true) (n : Network) :
    a.onNetwork n = n := by
  cases a with
  | network => cases h
  | _ => rfl

end Act

namespace State
variable {s s' t : State} {e e' : Episode} {a : Act}

/-- The session but for its messages and connections, the clock and what the application does
with it. -/
def core (s : State) : State :=
  { s with
    network := {}, clock := 0, monitor := {}, suppressNext := false, queue := [], waiting := []
    listener := none, journal := [] }

/-- The act touches neither an episode nor what is to come of it. -/
structure Unmoved (s : State) (a : Act) (t : State) : Prop where
  core : t.core = s.core
  journal : Grows Entry.isIntake s.journal t.journal
  network : t.network = a.onNetwork s.network

inductive Effect (s : State) : Act → State → Prop
  | turn {a : Act} {e e' : Episode} {u : State} (ha : a.isInner = true)
      (he : s.episode = some e) (h : Turn s e u e') : Effect s a (u.settleEpisode e')
  | revive (hd : s.reconnectDue = true) : Effect s (.move .reconnect) (execute
      { s with reconnectDue := false, releasePhase := s.releasePhase.next .finished })
  | request {a : Act} {t : State} (ha : a.isSend = true) (hc : s.closing = false)
      (h : Unmoved s.requestSend a t) : Effect s a t
  | close : Effect s .close s.close
  | pass {a : Act} {t : State}
      (hm : ∀ task, a = .move task → task ≠ .admission → s.move task = none)
      (hc : a.isSend = true → s.closing = true) (h : Unmoved s a t) : Effect s a t

/-- The episode goes on as it is, and a reconnect that is due stays due. -/
structure Beside (s t : State) : Prop where
  episode : t.episode = s.episode
  journal : Grows Entry.isOutside s.journal t.journal
  /-- Nothing is told in an episode. -/
  events : s.episode.isSome = true → t.events = s.events
  due : s.reconnectDue = true → t.reconnectDue = true

theorem Unmoved.episode (h : Unmoved s a t) : t.episode = s.episode :=
  (congrArg State.episode h.core :)

theorem Unmoved.events (h : Unmoved s a t) : t.events = s.events := by
  rw [events_eq, events_eq]
  refine h.journal.filterMap_eq fun x hx => ?_
  cases x with
  | event => cases hx
  | _ => rfl

theorem unmoved_of_eq (hc : t.core = s.core) (hj : t.journal = s.journal)
    (hn : t.network = a.onNetwork s.network) : Unmoved s a t :=
  ⟨hc,hj ▸ .refl _,hn⟩

/-! ## Sends -/

theorem requestSend_suppressNext (suppressNext : Bool) (s : State) :
    requestSend { s with suppressNext } = { s.requestSend with suppressNext } := by
  rcases Option.eq_none_or_eq_some s.episode with he | ⟨e,he⟩
  · have he' : episode { s with suppressNext } = none := he
    rw [requestSend_of_idle he, requestSend_of_idle he']
    by_cases hp : s.releasePhase = .new
    · rw [reconnect_of_new (by exact hp), reconnect_of_new (by exact hp)]
    · rw [reconnect_of_ne_new (by exact hp), reconnect_of_ne_new (by exact hp)]
  · have he' : episode { s with suppressNext } = some e := he
    rw [requestSend_of_live he, requestSend_of_live he']

/-- An attempt to send, whether the next reply is to be delivered or not and whoever waits. -/
theorem effect_trySend (ha : a.isSend = true) (suppressNext : Bool) (o : Outbound)
    (waiting : List (Nat × Outbound)) (s : State) :
    Effect s a { (trySend o { s with suppressNext }).2 with waiting } := by
  have hsame : s.requestSend.network = s.network := (congrArg State.network (body_requestSend s) :)
  rcases trySend_cases o { s with suppressNext } with ⟨hc,h⟩ | ⟨hc,_,_,h⟩ | ⟨hc,h⟩ <;>
    simp only [h]
  · refine .pass (fun task hm => ?_) (fun _ => hc) (unmoved_of_eq rfl rfl ?_)
    · rw [hm] at ha
      cases ha
    · exact (Act.onNetwork_of_isSend ha _).symm
  · rw [requestSend_suppressNext]
    refine .request ha hc ⟨rfl,.snoc (.refl _) rfl,?_⟩
    exact (Act.onNetwork_of_isSend ha _).symm
  · rw [requestSend_suppressNext]
    exact .request ha hc (unmoved_of_eq rfl rfl (Act.onNetwork_of_isSend ha _).symm)

theorem send_eq (ticket : Nat) (o : Outbound) (s : State) :
    ∃ waiting, (s.send ticket o).2 = { (s.trySend o).2 with waiting } := by
  unfold send
  split
  · rename_i h
    exact ⟨_,by rw [h]⟩
  · exact ⟨(s.trySend o).2.waiting,rfl⟩

theorem effect_send (ha : a.isSend = true) (suppressNext : Bool) (ticket : Nat) (o : Outbound)
    (s : State) : Effect s a (send ticket o { s with suppressNext }).2 := by
  obtain ⟨waiting,h⟩ := send_eq ticket o { s with suppressNext }
  rw [h]
  exact effect_trySend ha suppressNext o waiting s

/-! ## All acts -/

theorem Step.effect {task : Task} (h : Step s task s') (ha : a = .move task ∨ a = .overlook)
    (hr : a = .overlook → task = .receiver) : Effect s a s' := by
  have hinner : a.isInner = true := by
    rcases ha with rfl | rfl <;> rfl
  have hmove (hn : task ≠ .receiver) : a = .move task :=
    ha.resolve_right fun ho => hn (hr ho)
  cases h with
  | turn _ he h => exact .turn hinner he h
  | revive hd =>
    rw [hmove nofun]
    exact .revive hd
  | enqueue =>
    obtain rfl := hmove nofun
    refine .pass (fun task ht hn => ?_) nofun ⟨rfl,.snoc (.snoc (.refl _) rfl) rfl,rfl⟩
    exact absurd (Act.move.inj ht).symm hn

theorem Unmoved.effect (h : Unmoved s a t) (hm : ∀ task, a ≠ .move task)
    (hn : a.isSend = false) : Effect s a t :=
  .pass (fun task ha => absurd ha (hm task)) (fun ha => by cases hn.symm.trans ha) h

theorem effect_apply (hs : s.Sane) (a : Act) : Effect s a (s.apply a) := by
  cases a with
  | move task =>
    cases h : s.move task with
    | none =>
      have hv : s.apply (.move task) = s := by simp [apply, h]
      rw [hv]
      refine .pass (fun task' ht _ => Act.move.inj ht ▸ h) (fun hc => ?_) (unmoved_of_eq rfl rfl rfl)
      cases hc
    | some s' =>
      have hv : s.apply (.move task) = s' := by simp [apply, h]
      rw [hv]
      exact (step_move hs h).effect (.inl rfl) fun ho => by cases ho
  | overlook =>
    rcases step_overlook hs with hv | hstep
    · have hv : s.apply .overlook = s := hv
      rw [hv]
      exact Unmoved.effect (unmoved_of_eq rfl rfl rfl) (fun _ h => by cases h) rfl
    · exact hstep.effect (.inr rfl) fun _ => rfl
  | send ticket o => exact effect_send rfl s.suppressNext ticket o s
  | sendIgnoringReply ticket o => exact effect_send rfl true ticket o s
  | disconnect ticket id => exact effect_send rfl s.suppressNext ticket (disconnection id) s
  | attempt o => exact effect_trySend rfl s.suppressNext o (s.trySend o).2.waiting s
  | close => exact .close
  | listen | network | tick | shutdown =>
    exact Unmoved.effect (unmoved_of_eq rfl rfl rfl) (fun _ h => by cases h) rfl

/-! ## What does not wait for a task -/

theorem Beside.trans {u : State} (h : Beside s t) (h' : Beside t u) : Beside s u where
  episode := h'.episode.trans h.episode
  journal := h.journal.trans h'.journal
  events hl := (h'.events (h.episode ▸ hl)).trans (h.events hl)
  due hd := h'.due (h.due hd)

theorem grows_outside {l l' : List Entry} (h : Grows Entry.isNotice l l') :
    Grows Entry.isOutside l l' :=
  h.mono fun x hx => by rw [Entry.isOutside, hx, Bool.true_or]

theorem beside_requestSend (s : State) : Beside s s.requestSend := by
  refine ⟨episode_requestSend s,grows_outside (grows_requestSend s),fun hl => ?_,fun hd => ?_⟩
  · obtain ⟨e,he⟩ := Option.isSome_iff_exists.mp hl
    rw [requestSend_of_live he, events_eq, events_eq]
  · rcases Option.eq_none_or_eq_some s.episode with he | ⟨e,he⟩
    · rw [requestSend_of_idle he]
      by_cases hp : s.releasePhase = .new
      · rw [reconnect_of_new (by exact hp)]
      · rw [reconnect_of_ne_new (by exact hp)]
        exact hd
    · rw [requestSend_of_live he]
      exact hd

theorem beside_close (s : State) : Beside s s.close := by
  refine ⟨episode_close s,grows_outside (grows_close s),fun hl => ?_,fun hd => ?_⟩
  · obtain ⟨e,he⟩ := Option.isSome_iff_exists.mp hl
    rcases Bool.eq_false_or_eq_true s.closing with hc | hc
    · rw [close_of_closing hc]
    · rw [close_of_live hc he, events_eq, events_eq]
      rfl
  · unfold close
    split
    · exact hd
    · dsimp only
      split
      · unfold finishDestroy
        split <;> exact hd
      · exact hd

theorem Unmoved.beside (h : Unmoved s a t) : Beside s t where
  episode := h.episode
  journal := h.journal.mono fun x hx => by rw [Entry.isOutside, hx, Bool.or_true]
  events _ := h.events
  due hd := (congrArg State.reconnectDue h.core :).trans hd

/-- A task moves within the episode, or a reconnect that was due is made, or neither. -/
theorem Effect.cases (h : Effect s a t) :
    (∃ e e' u, a.isInner = true ∧ s.episode = some e ∧ Turn s e u e' ∧ t = u.settleEpisode e') ∨
    (a = .move .reconnect ∧ s.reconnectDue = true ∧ t = execute
      { s with reconnectDue := false, releasePhase := s.releasePhase.next .finished }) ∨
    Beside s t := by
  cases h with
  | turn ha he h => exact .inl ⟨_,_,_,ha,he,h,rfl⟩
  | revive hd => exact .inr (.inl ⟨rfl,hd,rfl⟩)
  | request _ _ h => exact .inr (.inr ((beside_requestSend s).trans h.beside))
  | close => exact .inr (.inr (beside_close s))
  | pass _ _ h => exact .inr (.inr h.beside)

/-! ## A session that is to end -/

/-- Only a move within an episode can report anything. -/
theorem Step.monitor_eq {task : Task} (h : Step s task s')
    (ht : ∀ e e' t, s.episode = some e → Turn s e t e' → t.monitor = s.monitor) :
    s'.monitor = s.monitor := by
  cases h with
  | @turn _ e e' t _ he hturn => exact (monitor_settleEpisode e' t).trans (ht e e' t he hturn)
  | revive => exact monitor_execute _
  | enqueue => rfl

/-- In a session that is to end nothing is reported. -/
theorem Step.monitor {task : Task} (h : Step s task s') (hc : s.isCancelled = true) :
    s'.monitor = s.monitor := by
  refine h.monitor_eq fun e e' t _ ht => ?_
  have hx : s.isStopped e = true := by simp [isStopped, hc]
  exact (ht.of_isStopped hx).2

theorem Step.isCancelled {task : Task} (h : Step s task s') (hc : s.isCancelled = true) :
    s'.isCancelled = true := by
  rw [State.isCancelled, h.rootStopped, h.monitor hc]
  exact hc

theorem Change.isCancelled (h : Change s s') (hc : s.isCancelled = true) :
    s'.isCancelled = true := by
  cases h with
  | step h => exact h.isCancelled hc
  | request =>
    have hb := body_requestSend s
    have hroot : s.requestSend.rootStopped = s.rootStopped := (congrArg State.rootStopped hb :)
    have hm : s.requestSend.monitor = s.monitor := (congrArg State.monitor hb :)
    rw [State.isCancelled, hroot, hm]
    exact hc
  | shutdown => simp [State.isCancelled, Monitor.shutdown]
  | push | wait | suppress | listen | network | tick => exact hc

theorem isCancelled_close (hc : s.isCancelled = true) : s.close.isCancelled = true := by
  have hm := s.monitor_close
  have hroot : s.rootStopped = true → s.close.rootStopped = true := by
    intro hr
    rcases s.body_close with h | h
    · exact ((congrArg State.rootStopped h :) : s.close.rootStopped = s.rootStopped).trans hr
    · exact (congrArg State.rootStopped h :)
  rw [State.isCancelled, Bool.or_eq_true] at hc ⊢
  rw [hm]
  exact hc.imp_left hroot

theorem isCancelled_run (hs : s.Sane) (hc : s.isCancelled = true) (acts : List Act) :
    (s.run acts).isCancelled = true :=
  run_invariant (P := fun s => s.isCancelled = true) (fun _ _ _ h hc => h.isCancelled hc)
    (fun _ _ => isCancelled_close) hs hc

/-- A reconnect that is due begins an episode, unless the session is to end. -/
theorem Sound.canExecute_of_due (h : s.Sound) (hd : s.reconnectDue = true) :
    canExecute { s with reconnectDue := false, releasePhase := s.releasePhase.next .finished } =
      !s.isCancelled := by
  change (!s.closing && !s.isCancelled && s.releasePhase.next .finished = .finished &&
    s.queueHome) = _
  cases hk : s.isCancelled with
  | true => simp
  | false =>
    have hc : s.closing = false := h.not_closing hk
    have hr := h.resting (h.idle_of_due hd) hc
    rw [hc, hr.due.mp hd, hr.queueHome]
    rfl

/-! ## The journal grows -/

theorem prefix_settleEpisode (e : Episode) (s : State) :
    s.journal <+: (s.settleEpisode e).journal := by
  cases ho : e.isOver with
  | false => simp [settleEpisode_of_not_over ho]
  | true =>
    rw [settleEpisode_of_over ho]
    exact (List.prefix_append _ [.event .disconnected]).trans (grows_onReleased ..).isPrefix

theorem prefix_turn (h : Turn s e t e') : s.journal <+: t.journal := by
  cases h <;> simp only [giveUp, List.append_assoc, List.prefix_append, List.prefix_rfl]

/-- Nothing that is noted is ever taken back. -/
theorem Effect.grows (h : Effect s a t) : s.journal <+: t.journal := by
  rcases h.cases with ⟨_,_,_,_,_,hturn,rfl⟩ | ⟨_,_,rfl⟩ | hb
  · exact (prefix_turn hturn).trans (prefix_settleEpisode ..)
  · unfold execute
    split <;> exact List.prefix_rfl
  · exact hb.journal.isPrefix

theorem prefix_run (hs : s.Sane) (acts : List Act) : s.journal <+: (s.run acts).journal := by
  induction acts generalizing s with
  | nil => exact List.prefix_rfl
  | cons a acts ih => exact (effect_apply hs a).grows.trans (ih (sane_apply hs a))

theorem isCancelled_settleEpisode (e : Episode) (s : State) :
    (s.settleEpisode e).isCancelled = s.isCancelled := by
  have hroot : (s.settleEpisode e).rootStopped = s.rootStopped :=
    (congrArg rootStopped (body_settleEpisode e s) :)
  rw [isCancelled, isCancelled, monitor_settleEpisode, hroot]

end State

/-! ## Stints and courses -/

section
variable {hand hand' : Option Outbound} {s t : State} {e e' : Episode}

theorem Stint.isCancelled (h : Stint hand s e hand' t e') (hk : s.isCancelled = true) :
    t.isCancelled = true := by
  cases h with
  | turn ht =>
    have hx : s.isStopped e = true := by simp [State.isStopped, hk]
    have hroot : t.rootStopped = s.rootStopped := (congrArg State.rootStopped ht.frame :)
    rw [State.isCancelled, hroot, (ht.of_isStopped hx).2]
    exact hk
  | misfire =>
    rw [State.isCancelled, Bool.or_eq_true] at hk ⊢
    exact hk.imp_right fun hm => by simp [State.expire, State.report, Monitor.report, hm]
  | take => exact hk
  | put _ hput => cases hput <;> exact hk

theorem Stint.grows (h : Stint hand s e hand' t e') : s.journal <+: t.journal := by
  cases h with
  | turn ht => exact State.prefix_turn ht
  | misfire => exact List.prefix_rfl
  | take => exact List.prefix_append ..
  | put _ hput => cases hput <;> exact List.prefix_append ..

end

namespace Threads
open State
variable {th th' : Threads}

theorem Passage.grows {new : List Outbound} (h : Passage th new th') :
    th.session.journal <+: th'.session.journal := by
  cases h with
  | stint _ hst hg => exact hst.grows.trans hg.journal.isPrefix
  | begin _ hg => exact hg.journal.isPrefix
  | pass hg => exact hg.journal.isPrefix

/-- Nothing that is noted is ever taken back. -/
theorem Crewed.grows (h : th.Crewed) (deeds : List Deed) :
    th.session.journal <+: (th.course deeds).session.journal := by
  induction deeds generalizing th with
  | nil => exact List.prefix_rfl
  | cons d deeds ih =>
    have hp := passage_perform h d
    exact hp.grows.trans (ih (hp.crewed h))

theorem Whole.isCancelled_course (h : th.Whole) (hk : th.session.isCancelled = true)
    {deeds : List Deed} (hd : ∀ d ∈ deeds, d.isWhole = true) :
    (th.course deeds).session.isCancelled = true :=
  h.invariant (P := fun s => s.isCancelled = true)
    (fun _ a hs hk => isCancelled_run hs.sane hk [a])
    (fun _ hk _ _ hst => (isCancelled_settleEpisode ..).trans (hst.isCancelled hk)) hk hd

end Threads
end Majordomo.Client
