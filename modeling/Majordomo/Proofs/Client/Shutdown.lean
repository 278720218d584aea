import Majordomo.Proofs.Client.Ending

/-! # The shutdown of the application

A shutdown ends the episode that is live, and with it the session. Between two episodes
nobody sees it: the session connects no more, but it is not destroyed and takes messages.
-/
namespace Majordomo.Client.State
variable {s s' t : State} {e : Episode}

theorem Step.rootStopped {task : Task} (h : Step s task s') : s'.rootStopped = s.rootStopped := by
  cases h with
  | turn _ he ht =>
    have hframe := (congrArg State.rootStopped ht.frame :)
    exact (congrArg State.rootStopped (body_settleEpisode _ _) :).trans hframe
  | revive hd =>
    unfold execute
    split <;> rfl
  | enqueue => rfl

/-- Only closing stops a session for good. -/
theorem Change.rootStopped (h : Change s s') : s'.rootStopped = s.rootStopped := by
  cases h with
  | step h => exact h.rootStopped
  | request => exact (congrArg State.rootStopped (body_requestSend s) :)
  | push | wait | suppress | listen | network | tick | shutdown => rfl

theorem ending_shutdown (h : s.Sound) (he : s.episode = some e) : Ending s s.shutdown where
  sound := h.shutdown
  cancelled := by simp [isCancelled, shutdown, Monitor.shutdown]
  closing hi := nomatch he.symm.trans hi
  stopped := id
  reported := rfl
  events := rfl

structure CutOff (s : State) : Prop where
  sound : s.Sound
  idle : s.episode = none
  notClosing : s.closing = false
  cancelled : s.monitor.cancelled = true

theorem CutOff.change (h : s.CutOff) (hc : Change s s') : s'.CutOff := by
  have hsound : s'.Sound := hc.sound h.sound
  cases hc with
  | step hstep =>
    cases hstep with
    | turn _ he => cases h.idle.symm.trans he
    | revive =>
      have hk : canExecute
          { s with reconnectDue := false, releasePhase := s.releasePhase.next .finished } =
          false := by
        simp [canExecute, isCancelled, h.cancelled]
      rw [execute_of_not_canExecute hk] at hsound ⊢
      exact ⟨hsound,h.idle,h.notClosing,h.cancelled⟩
    | enqueue => exact ⟨hsound,h.idle,h.notClosing,h.cancelled⟩
  | request =>
    have hm : s.requestSend.monitor = s.monitor :=
      (congrArg State.monitor (body_requestSend s) :)
    exact ⟨hsound,(episode_requestSend s).trans h.idle,(closing_requestSend s).trans h.notClosing,
      by rw [hm]; exact h.cancelled⟩
  | shutdown => exact ⟨hsound,h.idle,h.notClosing,rfl⟩
  | push | wait | suppress | listen | network | tick =>
    exact ⟨hsound,h.idle,h.notClosing,h.cancelled⟩

theorem send_of_not_closing (h : s.closing = false) (ticket : Nat) (o : Outbound) :
    (s.send ticket o).1 = .accepted ∨ (s.send ticket o).1 = .waits := by
  rcases s.trySend_cases o with ⟨hc,_⟩ | ⟨_,_,_,hs⟩ | ⟨_,hs⟩
  · cases h.symm.trans hc
  · exact .inl (by simp [send, hs])
  · exact .inr (by simp [send, hs])

/-- After a shutdown a session that was in an episode ends as if closed, but for the phase of
its release; a session between two episodes is not destroyed and goes on taking messages. -/
theorem shutdown_outcome (c : Settings) (m : Mode) (monitor : Monitor) (listener : Option Nat)
    (acts : List Act) (hc : ((start c m monitor listener).run acts).closing = false) :
    let s := (start c m monitor listener).run acts
    ∀ later, .close ∉ later → (s.shutdown.run later).isQuiescent = true →
      let t := s.shutdown.run later
      (s.episode.isSome = true →
        (t.destroyed = true ∧ t.episode = none ∧ t.releasePhase = .new) ∧
        (∀ k, t.network.sinkHeld k = false ∧ t.network.streamHeld k = false) ∧
        (t.events.count .destroyed = 1 ∧ t.destroyedCalls = 1) ∧
        t.events = s.events ++ [.disconnected, .destroyed] ∧
        t.monitor.reported = s.monitor.reported ∧
        ∀ ticket o, (t.send ticket o).1 = .refused .closed) ∧
      (s.episode = none →
        (t.destroyed = false ∧ t.episode = none ∧ t.closing = false) ∧
        (t.events.count .destroyed = 0 ∧ t.destroyedCalls = 0) ∧
        ∀ ticket o, (t.send ticket o).1 = .accepted ∨ (t.send ticket o).1 = .waits) := by
  intro s later hn hq t
  have hs : s.Sound := sound_run (sound_start ..) acts
  have htidy : s.Tidy := tidy_run (sound_start ..) (tidy_start ..) acts
  have hroot : s.rootStopped = false :=
    Bool.eq_false_iff.mpr fun hr => by cases hc.symm.trans (hs.rooted hr)
  refine ⟨fun hi => ?_,fun hi => ?_⟩
  · -- the episode sees the shutdown
    obtain ⟨e,he⟩ := Option.isSome_iff_exists.mp hi
    have hend : Ending s t := (ending_shutdown hs he).run later
    obtain ⟨hdes,hnone,hg,hcount,hcalls,hev⟩ := hend.result hq
    have htidy' : t.Tidy := tidy_run hs htidy (.shutdown :: later)
    have hroot' : t.rootStopped = false :=
      run_invariant (P := fun u => u.rootStopped = false)
        (fun _ _ _ hc h => hc.rootStopped.trans h) (fun hm => absurd hm hn)
        hs.shutdown.sane hroot
    refine ⟨⟨hdes,hnone,(hg.shutDown hroot').1⟩,htidy'.idle hnone,⟨hcount,hcalls⟩,?_,
      hend.reported,fun ticket o => ?_⟩
    · simpa [farewell, he] using hev
    · rw [send_of_closing (hend.still hq).closing]
  · -- nobody sees it
    have hcut : t.CutOff :=
      run_invariant (fun _ _ _ hc h => h.change hc) (fun hm => absurd hm hn) hs.shutdown.sane
        ⟨hs.shutdown,hi,hc,rfl⟩
    have hr : t.Resting := hcut.sound.resting hcut.idle hcut.notClosing
    exact ⟨⟨hr.notDestroyed,hcut.idle,hcut.notClosing⟩,⟨hr.announced,hr.calls⟩,
      send_of_not_closing hcut.notClosing⟩

/-- A shutdown while the connect hangs. -/
theorem shutdown_outcome_dialling :
    let s := (start .sample .hang {} none).run [.move .sender]
    let t := s.shutdown.run [.move .sender, .move .receiver]
    s.closing = false ∧ t.isQuiescent = true ∧ t.destroyed = true ∧ t.releasePhase = .new := by
  intro s t
  have hc : s.closing = false := by decide
  have hq : t.isQuiescent = true := by decide
  have hlive : s.episode.isSome = true := by decide
  obtain ⟨hend,_⟩ := shutdown_outcome .sample .hang {} none [.move .sender] hc
    [.move .sender, .move .receiver] (by decide) hq
  obtain ⟨⟨hdes,_,hrel⟩,_⟩ := hend hlive
  exact ⟨hc,hq,hdes,hrel⟩

/-- After a connect that was refused, a shutdown leaves the session as it is, and the next
message is accepted. -/
theorem shutdown_paused_accepts :
    let s := (start .sample .refuse {} none).run [.move .sender, .move .receiver]
    s.closing = false ∧ s.shutdown.isQuiescent = true ∧ s.shutdown.destroyed = false ∧
      s.shutdown.releasePhase = .new ∧
      (s.shutdown.send 1 { target := "echo", payload := "late" }).1 = .accepted := by
  decide

end Majordomo.Client.State
