import Majordomo.Proofs.Client.Standing

/-! # Whose the halves of the connections are

A session gives up every half of a connection that its episode does not need any more. So
between two episodes it has none.
-/
namespace Majordomo.Client

def Sender.streams : Sender → List Nat
  | .awaiting manager .. | .joining manager => [manager]
  | .starting | .dialling | .forwarding .. | .ended => []

def Receiver.streams : Receiver → List Nat
  | .handed id | .reading id => [id]
  | .waiting | .ended => []

def Episode.streams (e : Episode) : List Nat := e.sender.streams ++ e.receiver.streams

/-- The halves that are held on `n` are those that the tasks of the episode have. -/
structure Episode.Owns (e : Episode) (n : Network) : Prop where
  sink : ∀ k, n.sinkHeld k = true → k ∈ e.sender.sinks
  stream : ∀ k, n.streamHeld k = true → k ∈ e.streams

/-- Tasks that have ended have no halves. -/
theorem Episode.Owns.none_held {e : Episode} {n : Network} (h : e.Owns n)
    (hs : e.sender = .ended) (hr : e.receiver = .ended) (k : Nat) :
    n.sinkHeld k = false ∧ n.streamHeld k = false := by
  constructor
  · refine Bool.eq_false_iff.mpr fun hk => ?_
    simpa [hs, Sender.sinks] using h.sink k hk
  · refine Bool.eq_false_iff.mpr fun hk => ?_
    simpa [hs, hr, Episode.streams, Sender.streams, Receiver.streams] using h.stream k hk

section Turn
variable {s t : State} {e e' : Episode} {k : Nat}

/-- A half to send that is held after a move was had by the sender and still is, or is new. -/
theorem Turn.sink (h : Turn s e t e') (hsink : s.network.sinkHeld k = true → k ∈ e.sender.sinks)
    (hk : t.network.sinkHeld k = true) : k ∈ e'.sender.sinks := by
  cases h with
  | abandon hs | refuse hs | hang hs | expire hs => simpa [hs, Sender.sinks] using hsink hk
  | excuse | accept => exact hsink hk
  | greet hs =>
    rw [Network.sinkHeld_open] at hk
    split at hk
    · rename_i hnew
      exact List.mem_singleton.mpr hnew
    · simpa [hs, Sender.sinks] using hsink hk
  | leave =>
    rw [Network.sinkHeld_foldl_drop] at hk
    simp_all
  | halt | lose =>
    rw [Network.sinkHeld_foldl_dropSink] at hk
    simp_all
  | reject hs _ hr | refuseOwn hs _ hr =>
    change Network.sinkHeld k (Network.drop _ _) = true at hk
    rw [Network.sinkHeld_drop, Network.sinkHeld_receive hr] at hk
    simp_all [Sender.sinks]
  | timeOut hs =>
    change Network.sinkHeld k (Network.drop _ _) = true at hk
    rw [Network.sinkHeld_drop] at hk
    simp_all [Sender.sinks]
  | hangOwn hs _ hr | establish hs _ _ hr =>
    rw [Network.sinkHeld_receive hr] at hk
    simpa [hs, Sender.sinks] using hsink hk
  | skip _ _ hr | count _ _ hr => exact hsink (Network.sinkHeld_receive hr k ▸ hk)
  | establishOwn hs _ _ hr =>
    rw [Network.sinkHeld_dropStream, Network.sinkHeld_open, Network.sinkHeld_receive hr] at hk
    split at hk
    · rename_i hnew
      simp [Sender.sinks, hnew]
    · have hm : k ∈ e.sender.sinks := hsink hk
      simp_all [Sender.sinks]
  | write _ _ _ hn => exact hsink (Network.sinkHeld_send hn k ▸ hk)
  | trip _ _ _ hn =>
    rw [Network.sinkHeld_foldl_dropSink, Network.sinkHeld_send hn] at hk
    simp_all
  | overlook | desist => exact hsink (Network.sinkHeld_dropStream s.network _ k ▸ hk)
  | finish _ _ hn =>
    rw [Network.sinkHeld_dropStream, Network.sinkHeld_receive hn] at hk
    exact hsink hk

/-- A half to receive that is held after a move was had by a task and still is, or is new. -/
theorem Turn.stream (h : Turn s e t e')
    (hstream : s.network.streamHeld k = true → k ∈ e.streams)
    (hk : t.network.streamHeld k = true) : k ∈ e'.streams := by
  simp only [Episode.streams, List.mem_append] at hstream ⊢
  cases h with
  | abandon hs | refuse hs | hang hs | expire hs =>
    have hm := hstream hk
    simp_all [Sender.streams, Episode.quit, Episode.fail]
  | excuse hr | accept hr =>
    have hm := hstream hk
    simp_all [Receiver.streams, Episode.hangUp]
  | greet hs =>
    rw [Network.streamHeld_open] at hk
    split at hk <;> simp_all [Sender.streams]
  | leave hs =>
    rw [Network.streamHeld_foldl_drop] at hk
    cases hsender : e.sender <;>
      simp_all [Sender.sinks, Sender.streams, Episode.quit, Sender.isConnecting]
  | halt hs | lose hs =>
    rw [Network.streamHeld_foldl_dropSink] at hk
    simp_all [Sender.streams, Episode.quit]
  | reject hs _ hr | refuseOwn hs _ hr =>
    change Network.streamHeld k (Network.drop _ _) = true at hk
    rw [Network.streamHeld_drop, Network.streamHeld_receive hr] at hk
    simp_all [Sender.streams, Episode.quit, Episode.fail]
  | timeOut hs =>
    change Network.streamHeld k (Network.drop _ _) = true at hk
    rw [Network.streamHeld_drop] at hk
    simp_all [Sender.streams, Episode.quit, Episode.fail]
  | hangOwn hs _ hr | establish hs _ _ hr =>
    rw [Network.streamHeld_receive hr] at hk
    simp_all [Sender.streams, Receiver.streams]
  | skip _ _ hr | count _ _ hr => exact hstream (Network.streamHeld_receive hr k ▸ hk)
  | establishOwn hs _ _ hr =>
    rw [Network.streamHeld_dropStream, Network.streamHeld_open,
      Network.streamHeld_receive hr] at hk
    split at hk <;> simp_all [Sender.streams, Receiver.streams]
  | write _ _ _ hn => exact hstream (Network.streamHeld_send hn k ▸ hk)
  | trip hs _ _ hn =>
    rw [Network.streamHeld_foldl_dropSink, Network.streamHeld_send hn] at hk
    simp_all [Sender.streams, Episode.quit]
  | overlook hr | desist hr =>
    rw [Network.streamHeld_dropStream] at hk
    simp_all [Receiver.streams, Episode.hangUp]
  | finish hr _ hn =>
    rw [Network.streamHeld_dropStream, Network.streamHeld_receive hn] at hk
    simp_all [Receiver.streams, Episode.hangUp]

theorem Turn.owns (h : Turn s e t e') (ho : e.Owns s.network) : e'.Owns t.network :=
  ⟨fun k => h.sink (ho.sink k),fun k => h.stream (ho.stream k)⟩

end Turn

namespace State
variable {s s' : State} {e : Episode}

structure Tidy (s : State) : Prop where
  live : ∀ e, s.episode = some e → e.Owns s.network
  idle : s.episode = none → ∀ k, s.network.sinkHeld k = false ∧ s.network.streamHeld k = false

theorem Tidy.of_same (h : s.Tidy) (he : s'.episode = s.episode)
    (hk : ∀ k, s'.network.sinkHeld k = s.network.sinkHeld k)
    (hr : ∀ k, s'.network.streamHeld k = s.network.streamHeld k) : s'.Tidy where
  live e hs :=
    { sink := fun k hx => (h.live e (he ▸ hs)).sink k (hk k ▸ hx)
      stream := fun k hx => (h.live e (he ▸ hs)).stream k (hr k ▸ hx) }
  idle hs k := by
    rw [hk, hr]
    exact h.idle (he ▸ hs) k

theorem tidy_settleEpisode (hv : e.Valid) (h : e.Owns s.network) : (s.settleEpisode e).Tidy := by
  have hn : (s.settleEpisode e).network = s.network :=
    (congrArg network (body_settleEpisode e s) :)
  cases ho : e.isOver with
  | true =>
    have hends : e.sender = .ended ∧ e.receiver = .ended := hv.isOver_iff.mp ho
    have hi : (s.settleEpisode e).episode = none := by
      rw [settleEpisode_of_over ho]
      exact episode_onReleased ..
    refine ⟨fun _ he => (by cases hi.symm.trans he),fun _ k => ?_⟩
    rw [hn]
    exact h.none_held hends.1 hends.2 k
  | false =>
    rw [settleEpisode_of_not_over ho]
    exact ⟨fun e' he => Option.some.inj he ▸ h,fun hi => by cases hi⟩

theorem tidy_execute (hi : s.episode = none) (h : s.Tidy) : s.execute.Tidy := by
  cases hc : s.canExecute with
  | true =>
    rw [execute_of_canExecute hc]
    have hnone := h.idle hi
    refine ⟨fun e _ => ⟨fun k hk => ?_,fun k hk => ?_⟩,fun hi => by cases hi⟩
    · cases (hnone k).1.symm.trans hk
    · cases (hnone k).2.symm.trans hk
  | false => rwa [execute_of_not_canExecute hc]

theorem Step.tidy {task : Task} (hc : Step s task s') (hs : s.Sound) (h : s.Tidy) : s'.Tidy := by
  cases hc with
  | turn _ he ht =>
    exact tidy_settleEpisode (ht.valid (hs.live _ he).1.valid) (ht.owns (h.live _ he))
  | revive hd => exact tidy_execute (hs.idle_of_due hd) { h with }
  | enqueue => exact { h with }

theorem Change.tidy (hc : Change s s') (hs : s.Sound) (h : s.Tidy) : s'.Tidy := by
  cases hc with
  | step hc => exact hc.tidy hs h
  | request =>
    have hn : s.requestSend.network = s.network := (congrArg State.network (body_requestSend s) :)
    exact h.of_same (episode_requestSend s) (fun _ => by rw [hn]) fun _ => by rw [hn]
  | network event =>
    exact h.of_same rfl (Network.sinkHeld_onEvent _ event) (Network.streamHeld_onEvent _ event)
  | push | wait | suppress | listen | tick | shutdown =>
    exact h.of_same rfl (fun _ => rfl) fun _ => rfl

theorem Tidy.close (h : s.Tidy) : s.close.Tidy := by
  have hn : s.close.network = s.network := network_close s
  exact h.of_same (episode_close s) (fun _ => by rw [hn]) fun _ => by rw [hn]

theorem tidy_start (c : Settings) (m : Mode) (monitor : Monitor) (listener : Option Nat) :
    (start c m monitor listener).Tidy :=
  tidy_execute rfl ⟨nofun,fun _ _ => ⟨rfl,rfl⟩⟩

/-- Between two episodes a session has no half of any connection. -/
theorem tidy_run (hs : s.Sound) (h : s.Tidy) (acts : List Act) : (s.run acts).Tidy := by
  have hboth : (s.run acts).Sound ∧ (s.run acts).Tidy :=
    run_invariant (P := fun s => s.Sound ∧ s.Tidy)
      (fun _ _ _ hc ⟨hs,h⟩ => ⟨hc.sound hs,hc.tidy hs h⟩) (fun _ _ ⟨hs,h⟩ => ⟨hs.close,h.close⟩)
      hs.sane ⟨hs,h⟩
  exact hboth.2

end State
end Majordomo.Client
