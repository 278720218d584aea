import Majordomo.Proofs.Client.Journal
import Majordomo.Proofs.Client.Runs

/-! # Where a session stands

What holds between the flags, the phases and the two tasks, in every state that a run can
reach. An episode is live, or the session is between two episodes: about to connect again,
paused after a connect that failed, cut off by the application's shutdown, or destroyed.
-/
namespace Majordomo.Client

def Sender.phase : Sender → Phase
  | .starting => .new
  | .dialling | .awaiting .. | .joining _ | .forwarding .. => .started
  | .ended => .finished

def Receiver.phases : Receiver → List Phase
  | .waiting | .handed _ => [.new]
  | .reading _ => [.started]
  | .ended => [.new, .finished]

namespace State
variable {s s' : State} {e e' : Episode}

structure Live (s : State) (e : Episode) : Prop where
  valid : e.Valid
  notDue : s.reconnectDue = false
  notDestroyed : s.destroyed = false
  calls : s.destroyedCalls = 0
  announced : s.events.count .destroyed = 0
  rooted : s.rootStopped = true → s.closing = true
  closing : s.closing = true → s.releasePhase = .stopped ∧ s.rootStopped = true
  release : s.closing = false → s.releasePhase = .new
  /-- The sender has the queue until it ends. -/
  queueHome : s.queueHome = true ↔ e.sender = .ended
  send : s.closing = false → s.sendPhase = e.sender.phase
  receive : s.closing = false → s.receivePhase ∈ e.receiver.phases
  counters : e.sender.isConnecting = true ∨ e.connectFailed = true → s.sent = 0 ∧ s.received = 0
  /-- Where the sender has not ended, the replies do not lag too far behind. -/
  valve : e.sender ≠ .ended → s.isTripped = false
  failed : e.connectFailed = true →
    (s.closing = false → s.receivePhase = .new) ∧
      ∃ reason, s.events.getLast? = some (.connectFailed reason)

/-- A connect has failed and nothing has been sent since. -/
structure Paused (s : State) : Prop where
  send : s.sendPhase = .finished
  receive : s.receivePhase = .new
  sent : s.sent = 0
  received : s.received = 0
  failed : ∃ reason, [.connectFailed reason, .disconnected] <:+ s.events

structure Between (s : State) : Prop where
  idle : s.episode = none
  notClosing : s.closing = false
  notStopped : s.rootStopped = false
  notDestroyed : s.destroyed = false
  calls : s.destroyedCalls = 0
  announced : s.events.count .destroyed = 0
  queueHome : s.queueHome = true
  send : s.sendPhase = .new ∨ s.sendPhase = .finished
  receive : s.receivePhase = .new ∨ s.receivePhase = .finished

/-- Between two episodes, and the phase of the release says what comes next. -/
structure Resting (s : State) : Prop extends s.Between where
  due : s.reconnectDue = true ↔ s.releasePhase = .started
  release : s.releasePhase ≠ .stopped
  paused : s.releasePhase = .new → s.Paused
  cutOff : s.releasePhase = .finished → s.isCancelled = true

structure Gone (s : State) : Prop where
  destroyed : s.destroyed = true
  queueHome : s.queueHome = true
  stopped : s.rootStopped = true → s.releasePhase = .finished
  shutDown : s.rootStopped = false →
    s.releasePhase = .new ∧ s.reconnectDue = false ∧ s.monitor.cancelled = true

/-- What holds of every state that a run reaches. -/
structure Sound (s : State) : Prop where
  rooted : s.rootStopped = true → s.closing = true
  calls : s.destroyedCalls = s.destroyed.toNat
  announced : s.events.count .destroyed = s.destroyed.toNat
  live : ∀ e, s.episode = some e → s.Live e ∧ e.isOver = false
  resting : s.episode = none → s.closing = false → s.Resting
  gone : s.episode = none → s.closing = true → s.Gone

/-! ## What a move within an episode keeps -/

def frame (s : State) : State :=
  { s with
    network := {}, monitor := {}, sendPhase := .new, receivePhase := .new, sent := 0
    received := 0, suppressNext := false, queue := [], queueHome := true, episode := none
    journal := [] }

end State

theorem State.events_eq (s : State) : s.events = s.journal.filterMap Entry.event? := by
  refine congrArg (List.filterMap · s.journal) ?_
  funext e
  cases e <;> rfl

theorem State.events_deliveries (payload : String) (s : State) :
    (s.deliveries payload).filterMap Entry.event? = [] := by
  unfold deliveries
  cases s.listener <;> rfl

theorem Sender.phase_of_isConnecting {r : Sender} (h : r.isConnecting = true)
    (hn : r ≠ .starting) : r.phase = .started := by
  cases r with
  | dialling | awaiting | joining => rfl
  | starting => exact absurd rfl hn
  | forwarding | ended => cases h

section Turn
variable {s t : State} {e e' : Episode}

theorem Turn.frame (h : Turn s e t e') : t.frame = s.frame := by
  cases h <;> rfl

/-- A move tells of a connection, or of a connect that failed. -/
theorem Turn.events (h : Turn s e t e') :
    (e'.connectFailed = e.connectFailed ∧
      (t.events = s.events ∨ ∃ address, t.events = s.events ++ [.connected address])) ∨
    (e' = e.fail ∧ e.sender.isConnecting = true ∧ s.isStopped e = false ∧
      t.receivePhase = s.receivePhase ∧ t.sent = s.sent ∧ t.received = s.received ∧
      ∃ reason, t.events = s.events ++ [.connectFailed reason]) := by
  simp only [State.events_eq]
  cases h with
  | refuse hs hx | reject hs hx | timeOut hs hx | refuseOwn hs hx =>
    refine .inr ⟨rfl,by rw [hs]; rfl,hx,rfl,rfl,rfl,?_⟩
    simp [State.giveUp, Entry.event?, List.filterMap_cons]
  | establish | establishOwn =>
    refine .inl ⟨rfl,.inr ?_⟩
    simp [State.events_deliveries, Entry.event?, List.filterMap_cons]
  | count =>
    refine .inl ⟨rfl,.inl ?_⟩
    split <;> simp [State.events_deliveries, Entry.event?, List.filterMap_cons]
  | _ => exact .inl ⟨rfl,.inl (by simp [Entry.event?])⟩

/-- A move tells of nothing else. -/
theorem Turn.count_events (h : Turn s e t e') {x : Event} (hc : ∀ address, x ≠ .connected address)
    (hf : ∀ reason, x ≠ .connectFailed reason) : t.events.count x = s.events.count x := by
  rcases h.events with ⟨_,hev | ⟨address,hev⟩⟩ | ⟨_,_,_,_,_,_,reason,hev⟩ <;> rw [hev]
  · rw [List.count_append, List.count_singleton, if_neg (by simpa using (hc address).symm)]
    rfl
  · rw [List.count_append, List.count_singleton, if_neg (by simpa using (hf reason).symm)]
    rfl

theorem Turn.count_destroyed (h : Turn s e t e') :
    t.events.count .destroyed = s.events.count .destroyed :=
  h.count_events nofun nofun

/-- A sender that ends gives the queue back. -/
theorem Turn.queueHome (h : Turn s e t e') :
    t.queueHome = true ↔ s.queueHome = true ∨ e.sender ≠ .ended ∧ e'.sender = .ended := by
  cases h <;> grind [Sender.isConnecting, Episode.quit, Episode.fail, Episode.hangUp, State.giveUp]

theorem Turn.sender_ended (h : Turn s e t e') (hs : e.sender = .ended) : e'.sender = .ended := by
  cases h <;> simp_all [Episode.quit, Episode.hangUp]

theorem Turn.send (h : Turn s e t e') (hp : s.sendPhase = e.sender.phase) :
    t.sendPhase = e'.sender.phase := by
  cases h with
  | leave hs hn =>
    have hp : s.sendPhase = .started := hp.trans (Sender.phase_of_isConnecting hs hn)
    simp [hp, Phase.next, Episode.quit, Sender.phase]
  | _ => grind [Sender.phase, Phase.next, Episode.quit, Episode.fail, Episode.hangUp, State.giveUp]

theorem Turn.receive (h : Turn s e t e') (hp : s.receivePhase ∈ e.receiver.phases) :
    t.receivePhase ∈ e'.receiver.phases := by
  cases h <;> grind [Receiver.phases, Phase.next, Episode.quit, Episode.fail, Episode.hangUp,
    State.giveUp]

/-- Nothing is counted before the session is accepted. -/
theorem Turn.counters (h : Turn s e t e') (hv : e.Valid)
    (hc : e.sender.isConnecting = true ∨ e.connectFailed = true → s.sent = 0 ∧ s.received = 0)
    (hc' : e'.sender.isConnecting = true ∨ e'.connectFailed = true) :
    t.sent = 0 ∧ t.received = 0 := by
  cases h with
  | write hs | trip hs =>
    have hf : e.connectFailed = true := by
      simpa [hs, Sender.isConnecting, Episode.quit] using hc'
    have hx : e.sender = .ended := (hv.failed hf).1
    rw [hx] at hs
    cases hs
  | count hr =>
    have hw : e.receiver = .waiting ∨ e.receiver = .ended := by
      rcases hc' with hc' | hc'
      · exact hv.connecting hc'
      · exact (hv.failed hc').2
    rcases hw with hw | hw <;> rw [hw] at hr <;> cases hr
  | _ =>
    refine hc ?_
    grind [Episode.quit, Episode.fail, Episode.hangUp, Sender.isConnecting]

/-- A sender that goes on has looked how far the replies lag behind. -/
theorem Turn.valve (h : Turn s e t e') (hv : e.sender ≠ .ended → s.isTripped = false)
    (hn : e'.sender ≠ .ended) : t.isTripped = false := by
  cases h with
  | write _ _ _ _ hg => simpa [State.isTripped] using hg
  | count hr =>
    have ht : s.sent - s.received ≤ s.settings.threshold := by simpa [State.isTripped] using hv hn
    simp only [State.isTripped, decide_eq_false_iff_not]
    omega
  | trip => exact absurd rfl hn
  | _ =>
    refine hv ?_
    grind [Episode.quit, Episode.fail, Episode.hangUp]

/-- After a connect that failed only the receiver is left, and it just ends. -/
theorem Turn.eq_of_failed (h : Turn s e t e') (hs : e.sender = .ended)
    (hr : e.receiver = .waiting ∨ e.receiver = .ended) : t = s := by
  cases h <;> grind [Sender.isConnecting]

theorem Turn.failed (h : Turn s e t e') (hl : s.Live e) (hf : e'.connectFailed = true) :
    (t.closing = false → t.receivePhase = .new) ∧
      ∃ reason, t.events.getLast? = some (.connectFailed reason) := by
  have hclosing : t.closing = s.closing := (congrArg State.closing h.frame :)
  rcases h.events with ⟨he,hev⟩ | ⟨_,hs,hx,hp,_,_,reason,hev⟩
  · rw [he] at hf
    obtain ⟨hs,hw⟩ := hl.valid.failed hf
    obtain rfl : t = s := h.eq_of_failed hs hw
    exact hl.failed hf
  · -- the receiver still waits to be handed a connection
    have hw : e.receiver = .waiting := hl.valid.waiting hs (Bool.or_eq_false_iff.mp hx).1
    refine ⟨fun hc => ?_,reason,by simp [hev]⟩
    have hr := hl.receive (hclosing ▸ hc)
    rw [hw] at hr
    exact hp.trans (by simpa [Receiver.phases] using hr)

/-- A session that stands in an episode still does after a move within it. -/
theorem Turn.live (h : Turn s e t e') (hl : s.Live e) : t.Live e' := by
  have hclosing : t.closing = s.closing := (congrArg State.closing h.frame :)
  have hrelease : t.releasePhase = s.releasePhase := (congrArg State.releasePhase h.frame :)
  have hroot : t.rootStopped = s.rootStopped := (congrArg State.rootStopped h.frame :)
  exact
    { valid := h.valid hl.valid
      notDue := (congrArg State.reconnectDue h.frame :).trans hl.notDue
      notDestroyed := (congrArg State.destroyed h.frame :).trans hl.notDestroyed
      calls := (congrArg State.destroyedCalls h.frame :).trans hl.calls
      announced := h.count_destroyed.trans hl.announced
      rooted := by rw [hclosing, hroot]; exact hl.rooted
      closing := by rw [hclosing, hrelease, hroot]; exact hl.closing
      release := by rw [hclosing, hrelease]; exact hl.release
      queueHome := by
        rw [h.queueHome, hl.queueHome]
        exact ⟨fun hx => hx.elim h.sender_ended And.right,
          fun hx => (Decidable.em (e.sender = .ended)).imp_right fun hn => ⟨hn,hx⟩⟩
      send := by rw [hclosing]; exact fun hc => h.send (hl.send hc)
      receive := by rw [hclosing]; exact fun hc => h.receive (hl.receive hc)
      counters := h.counters hl.valid hl.counters
      valve := h.valve hl.valve
      failed := h.failed hl }

end Turn

namespace State
variable {s s' : State} {e : Episode}

/-! ## What the steps between two episodes keep -/

theorem events_released (s : State) : s.released.events = s.events ++ [.disconnected] := by
  simp [events_eq, released, Entry.event?]

/-- Destroying a session whose episodes are over and that is to end. -/
theorem sound_finishDestroy (hi : s.episode = none) (hc : s.closing = true)
    (hq : s.queueHome = true) (hd : s.destroyed = false) (hk : s.destroyedCalls = 0)
    (ha : s.events.count .destroyed = 0) (hs : s.rootStopped = true → s.releasePhase = .stopped)
    (hx : s.rootStopped = false →
      s.releasePhase = .new ∧ s.reconnectDue = false ∧ s.monitor.cancelled = true) :
    s.finishDestroy.Sound := by
  rw [finishDestroy_of_not_destroyed hd]
  have hev : ({ s with
      destroyed := true
      releasePhase := s.releasePhase.next .finished
      destroyedCalls := s.destroyedCalls + 1
      journal := s.journal ++ [.event .destroyed] } : State).events =
      s.events ++ [.destroyed] := by
    simp [events_eq, Entry.event?]
  refine
    { rooted := fun _ => hc
      calls := by rw [hk]; rfl
      announced := by rw [hev, List.count_append, ha]; rfl
      live := fun e he => ?_
      resting := fun _ hn => ?_
      gone := fun _ _ => ⟨rfl,hq,fun hr => ?_,fun hr => ?_⟩ }
  · cases hi.symm.trans he
  · cases hc.symm.trans hn
  · have hp : s.releasePhase = .stopped := hs hr
    change s.releasePhase.next .finished = .finished
    rw [hp]
    rfl
  · obtain ⟨hp,hrest⟩ := hx hr
    refine ⟨?_,hrest⟩
    change s.releasePhase.next .finished = .new
    rw [hp]
    rfl

theorem Resting.sound (h : s.Resting) : s.Sound where
  rooted hr := nomatch h.notStopped.symm.trans hr
  calls := by rw [h.calls, h.notDestroyed]; rfl
  announced := by rw [h.announced, h.notDestroyed]; rfl
  live e he := nomatch h.idle.symm.trans he
  resting _ _ := h
  gone _ hg := nomatch h.notClosing.symm.trans hg

/-- A session that stands in its episode stands as it should. -/
theorem Live.sound (hl : State.Live { s with episode := some e } e) (ho : e.isOver = false) :
    Sound { s with episode := some e } where
  rooted := hl.rooted
  calls := by rw [hl.calls, hl.notDestroyed]; rfl
  announced := by rw [hl.announced, hl.notDestroyed]; rfl
  live e' he := Option.some.inj he ▸ ⟨hl,ho⟩
  resting := nofun
  gone := nofun

theorem Between.resting_reconnect (h : s.Between) (hp : s.releasePhase = .new) :
    s.reconnect.Resting := by
  rw [reconnect_of_new hp]
  refine
    { h with
      announced := ?_
      due := ⟨fun _ => rfl,fun _ => rfl⟩
      release := fun hx => by cases hx
      paused := fun hx => by cases hx
      cutOff := fun hx => by cases hx }
  simpa [events_eq, Entry.event?] using h.announced

theorem Resting.resting_reconnect (h : s.Resting) : s.reconnect.Resting := by
  by_cases hp : s.releasePhase = .new
  · exact h.toBetween.resting_reconnect hp
  · rwa [reconnect_of_ne_new hp]

theorem Between.sound_execute (h : s.Between) (hd : s.reconnectDue = false)
    (hp : s.releasePhase = .finished) : s.execute.Sound := by
  cases hc : s.canExecute with
  | false =>
    -- only a shutdown can be in the way
    rw [execute_of_not_canExecute hc]
    have hk : s.isCancelled = true := by simpa [canExecute, h.notClosing, h.queueHome, hp] using hc
    have hr : s.Resting :=
      { h with
        due := by simp [hd, hp]
        release := by simp [hp]
        paused := by simp [hp]
        cutOff := fun _ => hk }
    exact hr.sound
  | true =>
    rw [execute_of_canExecute hc]
    have hlive : State.Live { s.reset with episode := some {}, queueHome := false } {} :=
      { valid := Episode.valid_default
        notDue := hd
        notDestroyed := h.notDestroyed
        calls := h.calls
        announced := h.announced
        rooted := fun hr => by cases h.notStopped.symm.trans hr
        closing := fun hx => by cases h.notClosing.symm.trans hx
        release := fun _ => by simp [reset, hp, Phase.next]
        queueHome := by simp
        send := fun _ => by
          rcases h.send with hs | hs <;> simp [reset, hs, Phase.next, Sender.phase]
        receive := fun _ => by
          rcases h.receive with hr | hr <;> simp [reset, hr, Phase.next, Receiver.phases]
        counters := fun _ => ⟨rfl,rfl⟩
        valve := fun _ => by simp [isTripped, reset]
        failed := fun hx => by cases hx }
    exact Live.sound (s := { s.reset with queueHome := false }) hlive rfl

/-! ## The end of an episode -/

theorem Live.queueHome_of_isOver (hl : s.Live e) (ho : e.isOver = true) : s.queueHome = true :=
  hl.queueHome.mpr (hl.valid.isOver_iff.mp ho).1

/-- An episode of a session that is to end is its last. -/
theorem Live.sound_of_ending (hl : s.Live e) (ho : e.isOver = true)
    (hc : (s.closing || s.isCancelled) = true) :
    s.released.finishDestroy.Sound := by
  have ha : s.released.events.count .destroyed = 0 := by
    rw [events_released, List.count_append, hl.announced]
    rfl
  refine sound_finishDestroy rfl hc (hl.queueHome_of_isOver ho) hl.notDestroyed hl.calls ha ?_ ?_
  · intro hr
    exact (hl.closing (hl.rooted hr)).1
  · intro hr
    have hr : s.rootStopped = false := hr
    have hx : s.closing = false :=
      Bool.eq_false_iff.mpr fun hx => by cases hr.symm.trans (hl.closing hx).2
    have hm : s.monitor.cancelled = true := by simpa [isCancelled, hx, hr] using hc
    exact ⟨hl.release hx,hl.notDue,hm⟩

theorem Live.between_released (hl : s.Live e) (ho : e.isOver = true)
    (hc : (s.closing || s.isCancelled) = false) (requested : Bool) :
    Between { s.released with sendRequested := requested } := by
  obtain ⟨hx,_⟩ : s.closing = false ∧ s.isCancelled = false := by simpa using hc
  have hends : e.sender = .ended ∧ e.receiver = .ended := hl.valid.isOver_iff.mp ho
  have hsend : s.sendPhase = .finished := by
    rw [hl.send hx, hends.1]
    rfl
  have hreceive : s.receivePhase = .new ∨ s.receivePhase = .finished := by
    have hr := hl.receive hx
    rw [hends.2] at hr
    simpa [Receiver.phases] using hr
  have hstop : s.rootStopped = false :=
    Bool.eq_false_iff.mpr fun hr => by cases hx.symm.trans (hl.rooted hr)
  have ha : s.released.events.count .destroyed = 0 := by
    rw [events_released, List.count_append, hl.announced]
    rfl
  exact ⟨rfl,hc,hstop,hl.notDestroyed,hl.calls,ha,hl.queueHome_of_isOver ho,.inr hsend,hreceive⟩

theorem Live.resting_released (hl : s.Live e) (ho : e.isOver = true)
    (hc : (s.closing || s.isCancelled) = false) (hf : e.connectFailed = true) :
    s.released.Resting := by
  have hends : e.sender = .ended := (hl.valid.isOver_iff.mp ho).1
  obtain ⟨hx,_⟩ : s.closing = false ∧ s.isCancelled = false := by simpa using hc
  obtain ⟨hnew,reason,hev⟩ := hl.failed hf
  obtain ⟨hsent,hreceived⟩ := hl.counters (.inr hf)
  have hp : s.released.Paused :=
    { send := (hl.send hx).trans (by rw [hends]; rfl)
      receive := hnew hx
      sent := hsent
      received := hreceived
      failed := by
        obtain ⟨l,hl⟩ := List.getLast?_eq_some_iff.mp hev
        exact ⟨reason,l,by rw [events_released, hl, List.append_assoc]; rfl⟩ }
  exact
    { hl.between_released ho hc s.sendRequested with
      due := by
        change s.reconnectDue = true ↔ s.releasePhase = .started
        simp [hl.notDue, hl.release hx]
      release := by
        change s.releasePhase ≠ .stopped
        simp [hl.release hx]
      paused := fun _ => hp
      cutOff := fun h => by cases (hl.release hx).symm.trans h }

/-- An episode that is over leaves the session where it should stand. -/
theorem Live.sound_onReleased (hl : s.Live e) (ho : e.isOver = true) :
    (s.onReleased e.connectFailed).Sound := by
  rcases Bool.eq_false_or_eq_true (s.closing || s.isCancelled) with hc | hc
  · rw [onReleased_of_closing hc]
    exact hl.sound_of_ending ho hc
  · have hx : s.closing = false := by simp_all
    have hagain (hr : e.connectFailed = false ∨ s.sendRequested = true) :
        (s.onReleased e.connectFailed).Sound := by
      obtain ⟨requested,hq⟩ := onReleased_of_again hc hr
      rw [hq]
      exact ((hl.between_released ho hc requested).resting_reconnect (hl.release hx)).sound
    cases hf : e.connectFailed with
    | false => exact hf ▸ hagain (.inl hf)
    | true =>
      cases hr : s.sendRequested with
      | true => exact hf ▸ hagain (.inr hr)
      | false =>
        rw [onReleased_of_paused hc hr]
        exact (hl.resting_released ho hc hf).sound

theorem Live.sound_settleEpisode (hl : s.Live e) : (s.settleEpisode e).Sound := by
  cases ho : e.isOver with
  | true =>
    rw [settleEpisode_of_over ho]
    exact hl.sound_onReleased ho
  | false =>
    rw [settleEpisode_of_not_over ho]
    have hlive : State.Live { s with episode := some e } e := { hl with }
    exact hlive.sound ho

/-! ## What every change keeps -/

/-- Messages, connections and the clock do not matter to where a session stands. -/
theorem Sound.passive (h : s.Sound) (network : Network) (clock : Nat) (suppressNext : Bool)
    (sendRequested : Bool) (queue : List Outbound) (waiting : List (Nat × Outbound))
    (listener : Option Nat) (journal : List Entry)
    (hj : journal.filterMap Entry.event? = s.events) :
    Sound { s with
      network, clock, suppressNext, sendRequested, queue, waiting, listener, journal } := by
  have hev : State.events { s with
      network, clock, suppressNext, sendRequested, queue, waiting, listener, journal } =
      s.events := (events_eq _).trans hj
  have hpaused (hp : s.Paused) : Paused { s with
      network, clock, suppressNext, sendRequested, queue, waiting, listener, journal } :=
    { hp with failed := hev ▸ hp.failed }
  refine
    { rooted := h.rooted
      calls := h.calls
      announced := hev ▸ h.announced
      live := fun e he => ?_
      resting := fun hi hc => ?_
      gone := fun hi hc => ?_ }
  · obtain ⟨hl,ho⟩ := h.live e he
    exact ⟨{ hl with announced := hev ▸ hl.announced, failed := fun hf => hev ▸ hl.failed hf },ho⟩
  · have hr := h.resting hi hc
    exact { hr with announced := hev ▸ hr.announced, paused := fun hp => hpaused (hr.paused hp) }
  · have hg := h.gone hi hc
    exact { hg with }

theorem Sound.idle_of_due (h : s.Sound) (hd : s.reconnectDue = true) : s.episode = none := by
  cases he : s.episode with
  | none => rfl
  | some e => cases (h.live e he).1.notDue.symm.trans hd

theorem Sound.revive (h : s.Sound) (hd : s.reconnectDue = true) :
    Sound (execute
      { s with reconnectDue := false, releasePhase := s.releasePhase.next .finished }) := by
  have he := h.idle_of_due hd
  rcases Bool.eq_false_or_eq_true s.closing with hc | hc
  · have hg := h.gone he hc
    have hroot : s.rootStopped = true := by
      cases hroot : s.rootStopped with
      | true => rfl
      | false => cases (hg.shutDown hroot).2.1.symm.trans hd
    have hp : s.releasePhase.next .finished = s.releasePhase := by
      rw [hg.stopped hroot]
      rfl
    rw [hp, execute_of_not_canExecute (by simp [canExecute, hc])]
    exact
      { rooted := h.rooted
        calls := h.calls
        announced := h.announced
        live := fun e hx => by cases he.symm.trans hx
        resting := fun _ hx => by cases hc.symm.trans hx
        gone := fun _ _ =>
          ⟨hg.destroyed,hg.queueHome,hg.stopped,fun hx => by cases hroot.symm.trans hx⟩ }
  · have hr := h.resting he hc
    have hp : s.releasePhase = .started := hr.due.mp hd
    refine Between.sound_execute { hr with } rfl ?_
    change s.releasePhase.next .finished = .finished
    rw [hp]
    rfl

theorem Sound.requestSend (h : s.Sound) (hc : s.closing = false) : s.requestSend.Sound := by
  have hs : Sound { s with sendRequested := true } :=
    h.passive s.network s.clock s.suppressNext true s.queue s.waiting s.listener s.journal
      (events_eq s).symm
  cases he : s.episode with
  | some e => rwa [requestSend_of_live he]
  | none =>
    rw [requestSend_of_idle he]
    exact (hs.resting he hc).resting_reconnect.sound

theorem next_stopped (p : Phase) : p.next .stopped = .stopped := by
  cases p <;> rfl

theorem Sound.close (h : s.Sound) : s.close.Sound := by
  rcases Bool.eq_false_or_eq_true s.closing with hc | hc
  · rwa [close_of_closing hc]
  · rcases Option.eq_none_or_eq_some s.episode with he | ⟨e,he⟩
    · have hr := h.resting he hc
      rw [close_of_idle hc he]
      exact sound_finishDestroy he rfl hr.queueHome hr.notDestroyed hr.calls hr.announced
        (fun _ => next_stopped s.releasePhase) fun hx => by cases hx
    · obtain ⟨hl,ho⟩ := h.live e he
      have hlive : s.stopped.Live e :=
        { hl with
          rooted := fun _ => rfl
          closing := fun _ => ⟨next_stopped s.releasePhase,rfl⟩
          release := fun hx => by cases hx
          send := fun hx => by cases hx
          receive := fun hx => by cases hx
          failed := fun hf => ⟨fun hx => (by cases hx),(hl.failed hf).2⟩ }
      have hs : s.stopped = { s.stopped with episode := some e } := by rw [← he]; rfl
      rw [close_of_live hc he, hs]
      exact Live.sound { hlive with } ho

theorem Sound.shutdown (h : s.Sound) : Sound { s with monitor := s.monitor.shutdown } where
  rooted := h.rooted
  calls := h.calls
  announced := h.announced
  live e he := ⟨{ (h.live e he).1 with },(h.live e he).2⟩
  resting hi hc :=
    { h.resting hi hc with
      paused := fun hp => { (h.resting hi hc).paused hp with }
      cutOff := fun _ => by simp [isCancelled, Monitor.shutdown] }
  gone hi hc :=
    ⟨(h.gone hi hc).destroyed,(h.gone hi hc).queueHome,(h.gone hi hc).stopped,fun hr =>
      ⟨((h.gone hi hc).shutDown hr).1,((h.gone hi hc).shutDown hr).2.1,rfl⟩⟩

theorem Step.sound {task : Task} (hc : Step s task s') (h : s.Sound) : s'.Sound := by
  cases hc with
  | turn _ he ht => exact (ht.live (h.live _ he).1).sound_settleEpisode
  | revive hd => exact h.revive hd
  | enqueue =>
    exact h.passive _ _ _ _ _ _ _ _ (by simp [(events_eq s).symm, Entry.event?])

theorem Change.sound (hc : Change s s') (h : s.Sound) : s'.Sound := by
  have hsame : s.journal.filterMap Entry.event? = s.events := (events_eq s).symm
  cases hc with
  | step hc => exact hc.sound h
  | request hc => exact h.requestSend hc
  | shutdown => exact h.shutdown
  | push => exact h.passive _ _ _ _ _ _ _ _ (by simp [hsame, Entry.event?])
  | wait | suppress | listen | network | tick => exact h.passive _ _ _ _ _ _ _ _ hsame

theorem sound_start (c : Settings) (m : Mode) (monitor : Monitor) (listener : Option Nat) :
    (start c m monitor listener).Sound :=
  Between.sound_execute ⟨rfl,rfl,rfl,rfl,rfl,rfl,rfl,.inl rfl,.inl rfl⟩ rfl rfl

theorem Sound.sane (h : s.Sound) : s.Sane :=
  fun e he => ⟨(h.live e he).1.valid,(h.live e he).2⟩

theorem sound_run (h : s.Sound) (acts : List Act) : (s.run acts).Sound :=
  run_invariant (fun _ _ _ hc hs => hc.sound hs) (fun _ _ hs => hs.close) h.sane h

theorem Sound.apply (h : s.Sound) (a : Act) : (s.apply a).Sound := sound_run h [a]

end State

end Majordomo.Client
