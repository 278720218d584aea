import Majordomo.Proofs.Client.Lifecycle
import Majordomo.Proofs.Client.Turn
import Mathlib.Logic.Relation

/-! # Runs of a client session

A run is any sequence of what the application, the far ends, the clock and the tasks do, in
any order. `Change` breaks it into single changes, so that whatever a change keeps, every
run keeps.
-/
namespace Majordomo.Client

inductive Act
  | move (t : State.Task)
  /-- The receiver is stopped before it looks at the connection that it was handed. -/
  | overlook
  | send (ticket : Nat) (o : Outbound)
  | sendIgnoringReply (ticket : Nat) (o : Outbound)
  | disconnect (ticket : Nat) (id : String)
  /-- A send that is given up where it would have to wait. -/
  | attempt (o : Outbound)
  | listen (listener : Nat)
  | network (event : Network.Event)
  | tick (ms : Nat)
  /-- The application closes the session or drops it. -/
  | close
  | shutdown
deriving DecidableEq

def Act.isInner : Act → Bool
  | .move _ | .overlook => true
  | _ => false

def Settings.sample : Settings :=
  { name := "client-1", server := "manager:9000", address := "client:9001"
    manager := "session-manager", requestType := "REQUEST_CONNECT", subscriptions := []
    timeout := 1000, threshold := 8, capacity := 4 }

namespace State
variable {s s' : State}

def overlookTurn (e : Episode) (s : State) : Option (State × Episode) :=
  match e.receiver with
  | .handed id =>
    if s.isStopped e then some ({ s with network := s.network.dropStream id }.endReceiver e)
    else none
  | _ => none

def overlook (s : State) : State := (s.within overlookTurn).getD s

def apply (s : State) : Act → State
  | .move t => (s.move t).getD s
  | .overlook => s.overlook
  | .send ticket o => (s.send ticket o).2
  | .sendIgnoringReply ticket o => (s.sendIgnoringReply ticket o).2
  | .disconnect ticket id => (s.send ticket (disconnection id)).2
  | .attempt o => (s.trySend o).2
  | .listen listener => { s with listener }
  | .network event => (s.onNetwork event).2
  | .tick ms => { s with clock := s.clock + ms }
  | .close => s.close
  | .shutdown => s.shutdown

def run (s : State) (acts : List Act) : State := acts.foldl apply s

def start (c : Settings) (m : Mode) (monitor : Monitor) (listener : Option Nat) : State :=
  build c { mode := m } monitor listener

theorem run_cons (s : State) (a : Act) (acts : List Act) :
    s.run (a :: acts) = (s.apply a).run acts := rfl

/-! ## Single changes -/

inductive Step (s : State) : Task → State → Prop
  | turn {t : Task} {e e' : Episode} {s' : State} (ha : t ≠ .admission)
      (he : s.episode = some e) (h : Turn s e s' e') : Step s t (s'.settleEpisode e')
  | revive (h : s.reconnectDue = true) :
    Step s .reconnect (execute
      { s with reconnectDue := false, releasePhase := s.releasePhase.next .finished })
  | enqueue {ticket : Nat} {o : Outbound} {waiting : List (Nat × Outbound)}
      (hw : s.waiting = (ticket,o) :: waiting) (hr : s.hasRoom = true) :
    Step s .admission
      { s with
        waiting
        queue := s.queue ++ [o]
        journal := s.journal ++ [.accepted o] ++ [.admitted ticket] }

/-- Whatever can happen to a session but that it is closed, one thing at a time. -/
inductive Change (s : State) : State → Prop
  | step {task : Task} {s' : State} (h : Step s task s') : Change s s'
  | request (hc : s.closing = false) : Change s s.requestSend
  | push (o : Outbound) (hc : s.closing = false) (hw : s.waiting = []) (hr : s.hasRoom = true) :
    Change s { s with queue := s.queue ++ [o], journal := s.journal ++ [.accepted o] }
  | wait (ticket : Nat) (o : Outbound) (hc : s.closing = false) :
    Change s { s with waiting := s.waiting ++ [(ticket,o)] }
  | suppress : Change s { s with suppressNext := true }
  | listen (listener : Nat) : Change s { s with listener }
  | network (event : Network.Event) : Change s { s with network := (s.network.onEvent event).2 }
  | tick (ms : Nat) : Change s { s with clock := s.clock + ms }
  | shutdown : Change s { s with monitor := s.monitor.shutdown }

/-- The tasks of the episode stand to each other as they should, and one of them lives. -/
def Sane (s : State) : Prop := ∀ e, s.episode = some e → e.Valid ∧ e.isOver = false

abbrev Changes : State → State → Prop := Relation.ReflTransGen Change

end State

section Turn
variable {s t : State} {e e' : Episode}

/-- Whatever a move opens, it has afterwards, and what it ends or gives up it has no more. -/
theorem Turn.inUse (h : Turn s e t e') (hv : e.Valid) :
    e'.inUse = e'.sender.inUse + e'.receiver.inUse := by
  have hu := hv.inUse
  cases h with
  | leave hs =>
    have hn : e.sender ≠ .ended := fun hx => by simp [hx, Sender.isConnecting] at hs
    simp only [Episode.quit, Sender.inUse, if_neg hn, if_true] at hu ⊢
    omega
  | _ =>
    simp_all [Episode.quit, Episode.fail, Episode.hangUp, Sender.inUse, Receiver.inUse,
      Sender.sinks]
    try omega

theorem Turn.stopped_iff (h : Turn s e t e') (hv : e.Valid) :
    e'.stopped = true ↔ e'.sender = .ended ∨ e'.receiver = .ended := by
  have hst := hv.stopped
  cases h <;> simp_all [Episode.quit, Episode.fail, Episode.hangUp]

theorem Turn.receiver_of_connecting (h : Turn s e t e') (hv : e.Valid)
    (hc : e'.sender.isConnecting = true) : e'.receiver = .waiting ∨ e'.receiver = .ended := by
  have hw := hv.connecting
  cases h <;> simp_all [Episode.quit, Episode.fail, Episode.hangUp, Sender.isConnecting]

/-- The receiver reads the connection over which the session runs. -/
theorem Turn.receiver_of_forwarding (h : Turn s e t e') (hv : e.Valid) {manager : Nat}
    {session : Option Nat} (hs : e'.sender = .forwarding manager session) :
    e'.receiver = .handed (session.getD manager) ∨
      e'.receiver = .reading (session.getD manager) ∨ e'.receiver = .ended := by
  have hw := hv.forwarding manager session
  cases h with
  | establish | establishOwn =>
    obtain ⟨rfl,rfl⟩ := Sender.forwarding.inj hs
    exact .inl rfl
  | _ => simp_all [Episode.quit, Episode.fail, Episode.hangUp]

theorem Turn.receiver_of_failed (h : Turn s e t e') (hv : e.Valid)
    (hf : e'.connectFailed = true) :
    e'.sender = .ended ∧ (e'.receiver = .waiting ∨ e'.receiver = .ended) := by
  have hw := hv.failed
  have hc := hv.connecting
  cases h <;> simp_all [Episode.quit, Episode.fail, Episode.hangUp, Sender.isConnecting]

theorem Turn.valid (h : Turn s e t e') (hv : e.Valid) : e'.Valid :=
  ⟨h.inUse hv,h.stopped_iff hv,h.receiver_of_connecting hv,fun _ _ => h.receiver_of_forwarding hv,
    h.receiver_of_failed hv⟩

end Turn

theorem Episode.valid_default : ({} : Episode).Valid :=
  ⟨rfl,by decide,fun _ => .inl rfl,nofun,nofun⟩

namespace State
variable {s s' : State}

theorem sane_of_idle (h : s.episode = none) : s.Sane := by
  intro e he
  simp [h] at he

theorem sane_of_episode_eq (h : s'.episode = s.episode) (hs : s.Sane) : s'.Sane := by
  intro e he
  exact hs e (h ▸ he)

theorem sane_settleEpisode {e : Episode} (hv : e.Valid) (s : State) :
    (s.settleEpisode e).Sane := by
  cases ho : e.isOver with
  | true =>
    rw [settleEpisode_of_over ho]
    exact sane_of_idle (episode_onReleased ..)
  | false =>
    rw [settleEpisode_of_not_over ho]
    intro e' he
    cases he
    exact ⟨hv,ho⟩

theorem sane_execute (hs : s.Sane) : s.execute.Sane := by
  cases hc : s.canExecute with
  | true =>
    rw [execute_of_canExecute hc]
    intro e he
    cases he
    exact ⟨Episode.valid_default,rfl⟩
  | false =>
    rw [execute_of_not_canExecute hc]
    exact hs

theorem Step.sane {task : Task} (h : Step s task s') (hs : s.Sane) : s'.Sane := by
  cases h with
  | turn _ he h => exact sane_settleEpisode (h.valid (hs _ he).1) _
  | revive h => exact sane_execute (sane_of_episode_eq rfl hs)
  | enqueue => exact sane_of_episode_eq rfl hs

theorem Change.sane (h : Change s s') (hs : s.Sane) : s'.Sane := by
  cases h with
  | step h => exact h.sane hs
  | request => exact sane_of_episode_eq (episode_requestSend s) hs
  | push | wait | suppress | listen | network | tick | shutdown =>
    exact sane_of_episode_eq rfl hs

/-! ## Every act is a chain of changes -/

theorem step_within {task : Task} {turn : Episode → State → Option (State × Episode)}
    (ha : task ≠ .admission) (hs : s.Sane)
    (hturn : ∀ {e t e'}, e.Valid → turn e s = some (t,e') → Turn s e t e')
    (h : s.within turn = some s') : Step s task s' := by
  obtain ⟨e,t,e',he,ht,rfl⟩ := within_eq_some h
  exact .turn ha he (hturn (hs e he).1 ht)

theorem step_move (hs : s.Sane) {task : Task} (h : s.move task = some s') :
    Step s task s' := by
  cases task with
  | sender => exact step_within nofun hs turn_senderTurn h
  | receiver => exact step_within nofun hs (fun _ => turn_receiverTurn) h
  | watchdog => exact step_within nofun hs (fun _ => turn_watchdogTurn) h
  | reconnect =>
    change s.reconnectMove = some s' at h
    unfold reconnectMove at h
    split at h
    · rename_i hd
      cases h
      exact .revive hd
    · cases h
  | admission =>
    change s.admissionMove = some s' at h
    unfold admissionMove at h
    split at h
    · rename_i hw
      split at h
      · rename_i hr
        cases h
        exact .enqueue hw hr
      · cases h
    · cases h

/-- An attempt to send is refused and changes nothing, or asks for a connection, and the
message is queued or not. -/
theorem trySend_cases (o : Outbound) (s : State) :
    (s.closing = true ∧ s.trySend o = (.refused .closed,s)) ∨
    (s.closing = false ∧ s.requestSend.waiting = [] ∧ s.requestSend.hasRoom = true ∧
      s.trySend o = (.accepted,s.requestSend.push o)) ∨
    (s.closing = false ∧ s.trySend o = (.waits,s.requestSend)) := by
  unfold trySend
  split
  · rename_i hc
    exact .inl ⟨hc,rfl⟩
  · rename_i hc
    have hc : s.closing = false := by simpa using hc
    dsimp only
    split
    · rename_i hq
      obtain ⟨hw,hr⟩ : s.requestSend.waiting = [] ∧ s.requestSend.hasRoom = true := by
        simpa using hq
      exact .inr (.inl ⟨hc,hw,hr,rfl⟩)
    · exact .inr (.inr ⟨hc,rfl⟩)

theorem closing_requestSend (s : State) : s.requestSend.closing = s.closing := by
  unfold requestSend
  dsimp only
  split
  · unfold reconnect schedule
    dsimp only
    split <;> rfl
  · rfl

theorem changes_trySend (o : Outbound) (s : State) : Changes s (s.trySend o).2 := by
  rcases s.trySend_cases o with ⟨_,h⟩ | ⟨hc,hw,hr,h⟩ | ⟨hc,h⟩
  · rw [h]
  · rw [h]
    have hc' : s.requestSend.closing = false := (closing_requestSend s).trans hc
    exact .tail (.single (.request hc)) (.push o hc' hw hr)
  · rw [h]
    exact .single (.request hc)

theorem changes_send (ticket : Nat) (o : Outbound) (s : State) :
    Changes s (s.send ticket o).2 := by
  rcases s.trySend_cases o with ⟨_,h⟩ | ⟨hc,hw,hr,h⟩ | ⟨hc,h⟩
  · simp only [send, h]
    exact .refl
  · have ht := s.changes_trySend o
    simp only [h] at ht
    simpa only [send, h] using ht
  · simp only [send, h]
    have hc' : s.requestSend.closing = false := (closing_requestSend s).trans hc
    exact .tail (.single (.request hc)) (.wait ticket o hc')

theorem turn_overlookTurn {e e' : Episode} {t : State} (h : s.overlookTurn e = some (t,e')) :
    Turn s e t e' := by
  unfold overlookTurn at h
  split at h
  · rename_i hr
    split at h
    · rename_i hx
      cases h
      exact .overlook hr hx
    · cases h
  · cases h

/-- That the receiver overlooks what it was handed is a move of it, too. -/
theorem step_overlook (hs : s.Sane) : s.overlook = s ∨ Step s .receiver s.overlook := by
  unfold overlook
  cases h : s.within overlookTurn with
  | none => exact .inl rfl
  | some s' => exact .inr (step_within nofun hs (fun _ => turn_overlookTurn) h)

theorem changes_apply (hs : s.Sane) {a : Act} (ha : a ≠ .close) : Changes s (s.apply a) := by
  cases a with
  | move t =>
    cases h : s.move t with
    | none => simpa [apply, h] using Relation.ReflTransGen.refl
    | some s' =>
      have hc : Changes s s' := .single (.step (step_move hs h))
      simpa [apply, h] using hc
  | overlook =>
    change Changes s s.overlook
    rcases step_overlook hs with h | h
    · rw [h]
    · exact .single (.step h)
  | send ticket o => exact changes_send ticket o s
  | sendIgnoringReply ticket o => exact .head .suppress (changes_send ticket o _)
  | disconnect ticket id => exact changes_send ticket (disconnection id) s
  | attempt o => exact changes_trySend o s
  | listen listener => exact .single (.listen listener)
  | network event => exact .single (.network event)
  | tick ms => exact .single (.tick ms)
  | close => contradiction
  | shutdown => exact .single .shutdown

theorem Changes.invariant {P : State → Prop}
    (hchange : ∀ s s', s.Sane → Change s s' → P s → P s') (h : Changes s s') (hs : s.Sane)
    (hp : P s) : s'.Sane ∧ P s' := by
  induction h with
  | refl => exact ⟨hs,hp⟩
  | tail _ hc ih => exact ⟨hc.sane ih.1,hchange _ _ ih.1 hc ih.2⟩

theorem sane_apply (hs : s.Sane) (a : Act) : (s.apply a).Sane := by
  by_cases ha : a = .close
  · subst ha
    exact sane_of_episode_eq (episode_close s) hs
  · exact (Changes.invariant (P := fun _ => True) (fun _ _ _ _ _ => trivial)
      (changes_apply hs ha) hs trivial).1

/-- What every change keeps, and closing too if the session is closed, every run keeps. -/
theorem run_invariant {P : State → Prop} {acts : List Act}
    (hchange : ∀ s s', s.Sane → Change s s' → P s → P s')
    (hclose : .close ∈ acts → ∀ s, P s → P s.close) (hs : s.Sane) (h : P s) :
    P (s.run acts) := by
  induction acts generalizing s with
  | nil => exact h
  | cons a acts ih =>
    have hp : P (s.apply a) := by
      by_cases ha : a = .close
      · subst ha
        exact hclose (List.mem_cons_self ..) s h
      · exact (Changes.invariant hchange (changes_apply hs ha) hs h).2
    exact ih (fun hm => hclose (List.mem_cons_of_mem _ hm)) (sane_apply hs a) hp

/-- Tasks that move one after the other make a run. -/
theorem run_of_moves {tasks : List Task} (h : tasks.foldlM State.move s = some s') :
    s' = s.run (tasks.map .move) := by
  induction tasks generalizing s with
  | nil => exact (Option.some.inj h).symm
  | cons task tasks ih =>
    rw [List.foldlM_cons] at h
    obtain ⟨t,ht,h⟩ := Option.bind_eq_some_iff.mp h
    have hv : s.apply (.move task) = t := by rw [apply, ht, Option.getD_some]
    rw [List.map_cons, run_cons, hv]
    exact ih h

/-- Letting a session settle is letting its tasks move. -/
theorem settle_moves (s : State) :
    ∃ tasks : List Task, tasks.foldlM State.move s = some s.settle := by
  have hmoves (n : Nat) : ∀ s : State,
      ∃ tasks : List Task, tasks.foldlM State.move s = some (moveUpTo n s) := by
    induction n with
    | zero => exact fun s => ⟨[],rfl⟩
    | succ n ih =>
      intro s
      unfold moveUpTo
      split
      · rename_i t hm
        obtain ⟨task,_,ht⟩ := List.exists_of_findSome?_eq_some hm
        obtain ⟨tasks,h⟩ := ih t
        exact ⟨task :: tasks,by rw [List.foldlM_cons, ht]; exact h⟩
      · exact ⟨[],rfl⟩
  exact hmoves s.work s

/-! ## Coming to rest -/

def Lessens (P : State → Prop) (measure : State → Nat) : Prop :=
  ∀ ⦃s t : State⦄ ⦃task : Task⦄, P s → s.move task = some t → P t ∧ measure t < measure s

section
variable {P : State → Prop} {measure : State → Nat}

theorem Lessens.length_le (h : Lessens P measure) {tasks : List Task} (hs : P s)
    (hm : tasks.foldlM State.move s = some s') : tasks.length ≤ measure s := by
  induction tasks generalizing s with
  | nil => exact Nat.zero_le _
  | cons task tasks ih =>
    rw [List.foldlM_cons] at hm
    obtain ⟨u,hu,hm⟩ := Option.bind_eq_some_iff.mp hm
    obtain ⟨hp,hlt⟩ := h hs hu
    have hle := ih hp hm
    rw [List.length_cons]
    omega

theorem Lessens.isQuiescent_moveUpTo (h : Lessens P measure) {n : Nat} (hs : P s)
    (hn : measure s ≤ n) : (moveUpTo n s).isQuiescent = true := by
  have hrest {u : State} (hu : u.moveAny = none) : u.isQuiescent = true := by
    simpa [moveAny, isQuiescent] using hu
  induction n generalizing s with
  | zero =>
    refine hrest ?_
    cases hm : s.moveAny with
    | none => exact hm
    | some u =>
      obtain ⟨task,_,hu⟩ := List.exists_of_findSome?_eq_some hm
      have hlt := (h hs hu).2
      omega
  | succ n ih =>
    unfold moveUpTo
    split
    · rename_i u hm
      obtain ⟨task,_,hu⟩ := List.exists_of_findSome?_eq_some hm
      obtain ⟨hp,hlt⟩ := h hs hu
      exact ih hp (by omega)
    · rename_i hm
      exact hrest hm

end

end State
end Majordomo.Client
