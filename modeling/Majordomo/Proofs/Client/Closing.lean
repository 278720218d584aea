import Majordomo.Proofs.Client.Ending

/-! # Closing a session

A session that is closed gives up what it has, is destroyed, and from then on does nothing.
-/
namespace Majordomo.Client.State
variable {s : State}

/-- What a session does that is asked to close and is not destroyed yet. -/
theorem close_cases (h : s.Sound) (hd : s.destroyed = false) :
    (∃ e, s.episode = some e ∧ (s.close = s.stopped ∨ s.rootStopped = true ∧ s.close = s)) ∨
    (s.episode = none ∧ s.reconnectDue.toNat ≤ 1 ∧ s.close = s.stopped.finishDestroy) := by
  rcases Option.eq_none_or_eq_some s.episode with he | ⟨e,he⟩
  · have hc : s.closing = false := by
      refine Bool.eq_false_iff.mpr fun hc => ?_
      cases hd.symm.trans (h.gone he hc).destroyed
    exact .inr ⟨he,Bool.toNat_le _,close_of_idle hc he⟩
  · refine .inl ⟨e,he,?_⟩
    rcases Bool.eq_false_or_eq_true s.closing with hc | hc
    · exact .inr ⟨((h.live e he).1.closing hc).2,close_of_closing hc⟩
    · exact .inl (close_of_live hc he)

/-- A session that is asked to close is on its way to its end. -/
theorem ending_close (h : s.Sound) (hd : s.destroyed = false) :
    Ending s.close s.close ∧ s.close.rootStopped = true := by
  have hroot : s.close.rootStopped = true := by
    rcases close_cases h hd with ⟨e,_,hc | ⟨hroot,hc⟩⟩ | ⟨_,_,hc⟩ <;> rw [hc]
    · rfl
    · exact hroot
    · exact (congrArg rootStopped (body_finishDestroy s.stopped) :)
  have hk : s.close.isCancelled = true := by simp [isCancelled, hroot]
  exact ⟨⟨h.close,hk,fun _ => h.close.rooted hroot,fun _ => hroot,rfl,rfl⟩,hroot⟩

/-- What is told from the moment in which a session is asked to close. -/
theorem events_close (h : s.Sound) (hd : s.destroyed = false) :
    s.close.events ++ s.close.farewell =
      s.events ++ (if s.episode.isSome then [.disconnected] else []) ++ [.destroyed] := by
  rcases close_cases h hd with ⟨e,he,hc⟩ | ⟨he,_,hc⟩
  · have hj : s.close.journal = s.journal ∧ s.close.episode = some e := by
      rcases hc with hc | ⟨_,hc⟩ <;> rw [hc]
      · exact ⟨rfl,he⟩
      · exact ⟨rfl,he⟩
    simp [farewell, hj, he, events_eq]
  · have hd' : s.stopped.destroyed = false := hd
    rw [hc, finishDestroy_of_not_destroyed hd']
    simp [farewell, stopped, he, events_eq, Entry.event?]

theorem left_close_le (h : s.Sound) (hd : s.destroyed = false) :
    s.close.left ≤ s.waiting.length + 3 := by
  rcases close_cases h hd with ⟨e,he,hc⟩ | ⟨he,hdue,hc⟩
  · have hl := (h.live e he).1
    have hleft : s.close.left = e.left + s.waiting.length := by
      rcases hc with hc | ⟨_,hc⟩ <;> rw [hc] <;> simp [left, stopped, he, hl.notDue]
    have he := e.left_le
    omega
  · have hd' : s.stopped.destroyed = false := hd
    have hleft : s.close.left = s.reconnectDue.toNat + s.waiting.length := by
      rw [hc, finishDestroy_of_not_destroyed hd']
      simp [left, stopped, he]
    omega

/-- Closing always completes. However the tasks move from there they come to rest, and
whatever else happens until they do, the session is destroyed then, told so once, has given
everything up and reported nothing; every send is refused, and nothing comes of anything. -/
theorem close_completes (c : Settings) (m : Mode) (monitor : Monitor) (listener : Option Nat)
    (acts : List Act) (hd : ((start c m monitor listener).run acts).destroyed = false) :
    let s := (start c m monitor listener).run acts
    (∀ (tasks : List Task) t, tasks.foldlM move s.close = some t →
      tasks.length ≤ s.waiting.length + 3) ∧
    (∃ tasks : List Task, tasks.foldlM move s.close = some s.close.settle) ∧
    s.close.settle.isQuiescent = true ∧
    ∀ later, (s.close.run later).isQuiescent = true →
      let t := s.close.run later
      (t.destroyed = true ∧ t.episode = none ∧ t.releasePhase = .finished) ∧
      (∀ k, t.network.sinkHeld k = false ∧ t.network.streamHeld k = false) ∧
      (t.events.count .destroyed = 1 ∧ t.destroyedCalls = 1) ∧
      t.events = s.events ++ (if s.episode.isSome then [.disconnected] else []) ++ [.destroyed] ∧
      t.monitor.reported = s.monitor.reported ∧
      ∀ more,
        let u := t.run more
        u.journal = t.journal ∧ u.network.links.length = t.network.links.length ∧
        ∀ ticket o id,
          (u.send ticket o).1 = .refused .closed ∧
          (u.sendIgnoringReply ticket o).1 = .refused .closed ∧
          (u.send ticket (disconnection id)).1 = .refused .closed := by
  intro s
  have hs : s.Sound := sound_run (sound_start ..) acts
  have htidy : s.Tidy := tidy_run (sound_start ..) (tidy_start ..) acts
  obtain ⟨hc,hroot⟩ := ending_close hs hd
  have hleft : s.close.left ≤ s.waiting.length + 3 := left_close_le hs hd
  refine ⟨fun tasks t ht => ?_,settle_moves s.close,?_,fun later hq => ?_⟩
  · exact Nat.le_trans (hc.length_le ht) hleft
  · refine hc.isQuiescent_moveUpTo (Nat.le_trans hleft ?_)
    simp only [work, waiting_close]
    omega
  · intro t
    have ht : Ending s.close t := hc.run later
    have hstill : t.Still := ht.still hq
    obtain ⟨hdes,hi,hg,hcount,hcalls,hev⟩ := ht.result hq
    have htidy' : t.Tidy := tidy_run hs htidy (.close :: later)
    refine ⟨⟨hdes,hi,hg.stopped (ht.stopped hroot)⟩,htidy'.idle hi,⟨hcount,hcalls⟩,
      hev.trans (events_close hs hd),?_,fun more => ?_⟩
    · rw [ht.reported, monitor_close]
    · obtain ⟨hu,hj,hn⟩ := hstill.run more
      refine ⟨hj,hn,fun ticket o id => ?_⟩
      have hx : State.closing { t.run more with suppressNext := true } = true := hu.closing
      rw [sendIgnoringReply, send_of_closing hu.closing, send_of_closing hu.closing,
        send_of_closing hx]
      exact ⟨rfl,rfl,rfl⟩

/-- Closing while the connect hangs: the two tasks stop, and that is all. -/
theorem close_completes_dialling :
    let s := (start .sample .hang {} none).run [.move .sender]
    let t := s.close.run [.move .sender, .move .receiver]
    s.destroyed = false ∧ t.isQuiescent = true ∧ t.destroyed = true ∧
      t.events = [.disconnected, .destroyed] := by
  intro s t
  have hd : s.destroyed = false := by decide
  have hq : t.isQuiescent = true := by decide
  obtain ⟨_,_,_,hend⟩ := close_completes .sample .hang {} none [.move .sender] hd
  obtain ⟨⟨hdes,_⟩,_,_,hev,_⟩ := hend _ hq
  have hlive : s.episode.isSome = true := by decide
  have hnone : s.events = [] := by decide
  refine ⟨hd,hq,hdes,hev.trans ?_⟩
  rw [hlive, hnone]
  rfl

/-- Closing while the sender waits for room: the receiver stops, and that is all. -/
theorem close_awaits_room :
    let deeds : List Deed := [
      .act (.move .sender), .accepts 0, .act (.move .sender), .act (.move .receiver),
      .fill 0,
      .act (.send 0 ⟨"echo","a"⟩), .act (.move .sender),
      .act .close, .act (.move .receiver)]
    let th := (Threads.start .sample .accept {} none).course deeds
    (∀ d ∈ deeds, d.isWhole = true) ∧ th.session.closing = true ∧ th.isQuiescent = true ∧
      th.session.destroyed = false ∧ th.session.releasePhase = .stopped ∧
      th.session.episode = some ⟨.forwarding 0 none,.ended,2,true,false⟩ ∧
      th.session.network.sinkHeld 0 = true ∧ th.session.events = [.connected "manager:9000"] := by
  decide +kernel

end Majordomo.Client.State
