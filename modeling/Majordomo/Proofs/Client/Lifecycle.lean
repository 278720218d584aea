import Majordomo.Client.Session

/-! # Between two episodes

What the steps that end, begin and destroy come to, field by field, once it is known in
which of their cases they are.
-/
namespace Majordomo.Client.State
variable {s : State}

theorem finishDestroy_of_not_destroyed (h : s.destroyed = false) :
    s.finishDestroy =
      { s with
        destroyed := true
        releasePhase := s.releasePhase.next .finished
        destroyedCalls := s.destroyedCalls + 1
        journal := s.journal ++ [.event .destroyed] } :=
  if_neg (Bool.eq_false_iff.mp h)

theorem reconnect_of_new (h : s.releasePhase = .new) :
    s.reconnect =
      { s with
        releasePhase := .started
        reconnectDue := true
        journal := s.journal ++ [.event .reconnecting] } := by
  simp [reconnect, schedule, h, Phase.next, emit, log]

/-- A reconnect that is under way already is not started again. -/
theorem schedule_of_ne_new (h : s.releasePhase ≠ .new) (inRuntime : Bool) :
    s.schedule inRuntime = s := by
  have hp : s.releasePhase.next .started = s.releasePhase := by
    cases hr : s.releasePhase with
    | new => exact absurd hr h
    | started | finished | stopped => rfl
  simp [schedule, h, hp]

theorem reconnect_of_ne_new (h : s.releasePhase ≠ .new) : s.reconnect = s :=
  schedule_of_ne_new h true

theorem execute_of_canExecute (h : s.canExecute = true) :
    s.execute = { s.reset with episode := some {}, queueHome := false } :=
  if_pos h

theorem execute_of_not_canExecute (h : s.canExecute = false) : s.execute = s :=
  if_neg (Bool.eq_false_iff.mp h)

/-- The session when an episode is over, before it is decided what follows. -/
def released (s : State) : State :=
  { s with
    episode := none
    closing := s.closing || s.isCancelled
    journal := s.journal ++ [.event .disconnected] }

theorem onReleased_eq (failed : Bool) (s : State) :
    s.onReleased failed =
      if s.released.closing then s.released.finishDestroy
      else if failed && !s.sendRequested then s.released
      else if failed then reconnect { s.released with sendRequested := false }
      else s.released.reconnect := rfl

theorem onReleased_of_closing (h : (s.closing || s.isCancelled) = true) (failed : Bool) :
    s.onReleased failed = s.released.finishDestroy :=
  if_pos h

theorem closing_finishDestroy (s : State) : s.finishDestroy.closing = s.closing := by
  unfold finishDestroy
  split <;> rfl

theorem closing_onReleased (h : (s.closing || s.isCancelled) = true) (failed : Bool) :
    (s.onReleased failed).closing = true := by
  rw [onReleased_of_closing h, closing_finishDestroy]
  exact h

/-- After a connect that failed the session waits for the next send. -/
theorem onReleased_of_paused (h : (s.closing || s.isCancelled) = false)
    (hr : s.sendRequested = false) : s.onReleased true = s.released := by
  have hc : s.released.closing = false := h
  rw [onReleased_eq, hc, hr]
  rfl

theorem onReleased_of_again (h : (s.closing || s.isCancelled) = false) {failed : Bool}
    (hr : failed = false ∨ s.sendRequested = true) :
    ∃ requested,
      s.onReleased failed = reconnect { s.released with sendRequested := requested } := by
  have hc : s.released.closing = false := h
  rw [onReleased_eq, hc]
  cases failed with
  | false => exact ⟨s.sendRequested,rfl⟩
  | true =>
    have hr : s.sendRequested = true := by simpa using hr
    refine ⟨false,?_⟩
    rw [hr]
    rfl

theorem requestSend_of_live {e : Episode} (h : s.episode = some e) :
    s.requestSend = { s with sendRequested := true } :=
  if_neg (by simp [isIdle, h])

theorem requestSend_of_idle (h : s.episode = none) :
    s.requestSend = reconnect { s with sendRequested := true } :=
  if_pos (by simp [isIdle, h])

def stopped (s : State) : State :=
  { s with
    closing := true
    rootStopped := true
    releasePhase := s.releasePhase.next .stopped
    sendPhase := s.sendPhase.next .stopped
    receivePhase := s.receivePhase.next .stopped }

theorem close_of_closing (h : s.closing = true) : s.close = s := if_pos h

theorem close_of_live (h : s.closing = false) {e : Episode} (he : s.episode = some e) :
    s.close = s.stopped := by
  unfold close
  rw [if_neg (Bool.eq_false_iff.mp h)]
  exact if_neg (by simp [isIdle, he])

theorem close_of_idle (h : s.closing = false) (he : s.episode = none) :
    s.close = s.stopped.finishDestroy := by
  unfold close
  rw [if_neg (Bool.eq_false_iff.mp h)]
  exact if_pos (by simp [isIdle, he])

theorem closing_close (s : State) : s.close.closing = true := by
  rcases Bool.eq_false_or_eq_true s.closing with hc | hc
  · rwa [close_of_closing hc]
  · rcases Option.eq_none_or_eq_some s.episode with he | ⟨e,he⟩
    · rw [close_of_idle hc he, finishDestroy]
      split <;> rfl
    · rw [close_of_live hc he]
      rfl

/-! ## What stays as it is -/

/-- The session but for what only the steps between two episodes change. -/
def body (s : State) : State :=
  { s with
    releasePhase := .new, sendRequested := false, episode := none, reconnectDue := false
    closing := false, destroyed := false, destroyedCalls := 0, journal := [] }

@[simp] theorem body_finishDestroy (s : State) : s.finishDestroy.body = s.body := by
  unfold finishDestroy
  split <;> rfl

@[simp] theorem body_reconnect (s : State) : s.reconnect.body = s.body := by
  by_cases h : s.releasePhase = .new
  · rw [reconnect_of_new h]
    rfl
  · rw [reconnect_of_ne_new h]

@[simp] theorem body_onReleased (failed : Bool) (s : State) :
    (s.onReleased failed).body = s.body := by
  rw [onReleased_eq]
  split
  · rw [body_finishDestroy]
    rfl
  · split
    · rfl
    · split <;> rw [body_reconnect] <;> rfl

@[simp] theorem body_settleEpisode (e : Episode) (s : State) :
    (s.settleEpisode e).body = s.body := by
  unfold settleEpisode
  split
  · exact body_onReleased ..
  · rfl

theorem monitor_settleEpisode (e : Episode) (s : State) :
    (s.settleEpisode e).monitor = s.monitor :=
  (congrArg monitor (body_settleEpisode e s) :)

theorem body_close (s : State) : s.close.body = s.body ∨ s.close.body = s.stopped.body := by
  rcases Bool.eq_false_or_eq_true s.closing with hc | hc
  · exact .inl (by rw [close_of_closing hc])
  · rcases Option.eq_none_or_eq_some s.episode with he | ⟨e,he⟩
    · exact .inr (by rw [close_of_idle hc he, body_finishDestroy])
    · exact .inr (by rw [close_of_live hc he])

theorem network_close (s : State) : s.close.network = s.network := by
  rcases s.body_close with h | h <;> exact (congrArg network h :)

theorem settings_close (s : State) : s.close.settings = s.settings := by
  rcases s.body_close with h | h <;> exact (congrArg settings h :)

theorem waiting_close (s : State) : s.close.waiting = s.waiting := by
  rcases s.body_close with h | h <;> exact (congrArg waiting h :)

theorem monitor_close (s : State) : s.close.monitor = s.monitor := by
  rcases s.body_close with h | h <;> exact (congrArg monitor h :)

theorem monitor_execute (s : State) : s.execute.monitor = s.monitor := by
  unfold execute
  split <;> rfl

@[simp] theorem body_requestSend (s : State) : s.requestSend.body = s.body := by
  cases he : s.episode with
  | none => rw [requestSend_of_idle he, body_reconnect]; rfl
  | some e => rw [requestSend_of_live he]; rfl

@[simp] theorem episode_finishDestroy (s : State) : s.finishDestroy.episode = s.episode := by
  unfold finishDestroy
  split <;> rfl

@[simp] theorem episode_reconnect (s : State) : s.reconnect.episode = s.episode := by
  by_cases h : s.releasePhase = .new
  · rw [reconnect_of_new h]
  · rw [reconnect_of_ne_new h]

theorem episode_requestSend (s : State) : s.requestSend.episode = s.episode := by
  rcases Option.eq_none_or_eq_some s.episode with he | ⟨e,he⟩
  · rw [requestSend_of_idle he, episode_reconnect]
  · rw [requestSend_of_live he]

theorem episode_close (s : State) : s.close.episode = s.episode := by
  unfold close
  split
  · rfl
  · dsimp only
    split
    · exact episode_finishDestroy _
    · rfl

@[simp] theorem episode_onReleased (failed : Bool) (s : State) :
    (s.onReleased failed).episode = none := by
  rw [onReleased_eq]
  split
  · rw [episode_finishDestroy]
    rfl
  · split
    · rfl
    · split <;> rw [episode_reconnect] <;> rfl

end Majordomo.Client.State
