import Majordomo.Client.Session
import Majordomo.Proofs.Link

/-! # What a task of a client session can do in one move

The sender, the receiver and the watchdog move within an episode. `Turn` lists what such a
move can be: the session as the move leaves it, and the episode, which is over if nothing of it
is in use any more. Everything that is shown of runs rests on this list.
-/
namespace Majordomo.Client

namespace Episode

def isOver (e : Episode) : Bool := e.inUse = 0

def quit (e : Episode) : Episode :=
  { e with sender := .ended, inUse := e.inUse - (e.sender.sinks.length + 1), stopped := true }

def fail (e : Episode) : Episode := { e.quit with connectFailed := true }

def hangUp (e : Episode) : Episode :=
  { e with receiver := .ended, inUse := e.inUse - 1, stopped := true }

end Episode

def Sender.isConnecting : Sender → Bool
  | .starting | .dialling | .awaiting .. | .joining _ => true
  | .forwarding .. | .ended => false

def Sender.isAwaiting : Sender → Bool
  | .awaiting .. => true
  | .starting | .dialling | .joining _ | .forwarding .. | .ended => false

/-- What a sender uses: itself and its connections. -/
def Sender.inUse (r : Sender) : Nat := if r = .ended then 0 else r.sinks.length + 1

def Receiver.inUse (r : Receiver) : Nat := if r = .ended then 0 else 1

def refusal? : Received → Option Fault
  | .message frames =>
    match Acceptance.ofFrames frames with
    | .error f => some f
    | .ok _ => none
  | .failed f => some f
  | .ended => some .interrupted

def isLast : Received → Bool
  | .message frames =>
    match Wire.ClientReply.ofFrames frames with
    | .error _ => false
    | .ok r => r.payload = SessionMessage.stopPayload
  | .failed _ | .ended => true

/-- How the two tasks of an episode stand to each other. -/
structure Episode.Valid (e : Episode) : Prop where
  inUse : e.inUse = e.sender.inUse + e.receiver.inUse
  stopped : e.stopped = true ↔ e.sender = .ended ∨ e.receiver = .ended
  connecting : e.sender.isConnecting = true → e.receiver = .waiting ∨ e.receiver = .ended
  forwarding : ∀ manager session, e.sender = .forwarding manager session →
    e.receiver = .handed (session.getD manager) ∨ e.receiver = .reading (session.getD manager) ∨
      e.receiver = .ended
  failed : e.connectFailed = true →
    e.sender = .ended ∧ (e.receiver = .waiting ∨ e.receiver = .ended)

theorem Episode.Valid.isOver_iff {e : Episode} (h : e.Valid) :
    e.isOver = true ↔ e.sender = .ended ∧ e.receiver = .ended := by
  have hs : e.sender.inUse = 0 ↔ e.sender = .ended := by simp [Sender.inUse]
  have hr : e.receiver.inUse = 0 ↔ e.receiver = .ended := by simp [Receiver.inUse]
  rw [isOver, decide_eq_true_iff, h.inUse, Nat.add_eq_zero_iff, hs, hr]

/-- Until connecting has succeeded or failed, the receiver of an episode that may go on waits. -/
theorem Episode.Valid.waiting {e : Episode} (h : e.Valid) (hc : e.sender.isConnecting = true)
    (hx : e.stopped = false) : e.receiver = .waiting := by
  rcases h.connecting hc with hw | hw
  · exact hw
  · cases hx.symm.trans (h.stopped.mpr (.inr hw))

theorem Episode.Valid.isOver_eq_false {e : Episode} (h : e.Valid)
    (hn : e.sender ≠ .ended ∨ e.receiver ≠ .ended) : e.isOver = false := by
  rw [Bool.eq_false_iff, ne_eq, h.isOver_iff]
  rintro ⟨hs,hr⟩
  exact hn.elim (· hs) (· hr)

namespace State
variable {s s' : State} {e e' : Episode}

def deliveries (payload : String) (s : State) : List Entry :=
  (s.listener.map (Entry.delivered · payload)).toList

theorem deliver_eq (payload : String) (s : State) :
    s.deliver payload = { s with journal := s.journal ++ s.deliveries payload } := by
  unfold deliver
  split
  · rename_i k hk
    have hd : s.deliveries payload = [.delivered k payload] := by simp [deliveries, hk]
    rw [hd]
    rfl
  · rename_i hk
    have hd : s.deliveries payload = [] := by simp [deliveries, hk]
    rw [hd, List.append_nil]

theorem count_eq (payload : String) (s : State) :
    s.count payload =
      { s with
        received := s.received + 1
        suppressNext := false
        journal := s.journal ++ [.counted payload] ++
          if s.suppressNext then [] else s.deliveries payload } := by
  unfold count
  dsimp only [log]
  cases hs : s.suppressNext with
  | true => simp
  | false =>
    rw [deliver_eq]
    simp [deliveries]

def heed (f : Fault) (m : Monitor) : Monitor :=
  match f with
  | .handshakeTimeout .. => m
  | _ => m.report f

def giveUp (f : Fault) (s : State) : State :=
  { s with
    queueHome := true
    sendPhase := s.sendPhase.next .finished
    monitor := heed f s.monitor
    journal := s.journal ++ [.event (.connectFailed f.message)] }

theorem failConnect_eq (f : Fault) (e : Episode) (s : State) :
    s.failConnect f e = (s.giveUp f, e.fail) := by
  cases f <;> rfl

theorem settleEpisode_of_not_over (h : e.isOver = false) (s : State) :
    s.settleEpisode e = { s with episode := some e } := by
  have hn : ¬ e.inUse = 0 := by simpa [Episode.isOver] using h
  exact if_neg hn

theorem settleEpisode_of_over (h : e.isOver = true) (s : State) :
    s.settleEpisode e = s.onReleased e.connectFailed := by
  have hp : e.inUse = 0 := by simpa [Episode.isOver] using h
  exact if_pos hp

/-- An episode that goes on as it is. -/
theorem settleEpisode_self (he : s.episode = some e) (h : e.isOver = false) :
    s.settleEpisode e = s := by
  rw [settleEpisode_of_not_over h, ← he]

end State

open State in
/-- A move within the episode `e`: the session that it leaves and the episode as it is then. -/
inductive Turn (s : State) (e : Episode) : State → Episode → Prop
  /-- The sender is stopped before it has dialled. -/
  | abandon (hs : e.sender = .starting) (hx : s.isStopped e = true) :
    Turn s e
      { s with queueHome := true, sendPhase := (s.sendPhase.next .started).next .finished } e.quit
  | refuse (hs : e.sender = .starting) (hx : s.isStopped e = false)
      (hm : s.network.mode = .refuse) :
    Turn s e (giveUp (.refused s.settings.server)
      { s with
        sendPhase := s.sendPhase.next .started
        journal := s.journal ++ [.dialled s.settings.server] }) e.fail
  | hang (hs : e.sender = .starting) (hx : s.isStopped e = false)
      (hm : s.network.mode = .hang) :
    Turn s e
      { s with
        sendPhase := s.sendPhase.next .started
        journal := s.journal ++ [.dialled s.settings.server] }
      { e with sender := .dialling }
  | greet (hs : e.sender = .starting) (hx : s.isStopped e = false)
      (hm : s.network.mode = .accept) :
    Turn s e
      { s with
        sendPhase := s.sendPhase.next .started
        journal := s.journal ++ [.dialled s.settings.server]
        network := { s.network with links := s.network.links ++
          [{ address := s.settings.server, taken := [s.settings.greeting] }] } }
      { e with
        sender := .awaiting s.network.links.length (s.clock + s.settings.timeout) false
        inUse := e.inUse + 1 }
  /-- The sender is stopped while it waits for a connection or an answer. -/
  | leave (hs : e.sender.isConnecting = true) (hn : e.sender ≠ .starting)
      (hx : s.isStopped e = true) :
    Turn s e
      { s with
        queueHome := true
        sendPhase := s.sendPhase.next .finished
        network := e.sender.sinks.foldl (fun n id => n.drop id) s.network } e.quit
  | reject {manager deadline : Nat} {expired : Bool} {r : Received} {n : Network} {f : Fault}
      (hs : e.sender = .awaiting manager deadline expired) (hx : s.isStopped e = false)
      (hr : s.network.receive manager = some (r,n)) (hf : refusal? r = some f) :
    Turn s e (giveUp f { s with network := n.drop manager }) e.fail
  | timeOut {manager deadline : Nat} (hs : e.sender = .awaiting manager deadline true)
      (hx : s.isStopped e = false) (hr : s.network.receive manager = none) :
    Turn s e (giveUp (.handshakeTimeout s.settings.server s.settings.timeout)
      { s with network := s.network.drop manager }) e.fail
  /-- The session is accepted, but its own address cannot be reached. -/
  | refuseOwn {manager deadline : Nat} {expired : Bool} {frames : Message} {n : Network}
      {a : Acceptance} {address : String} (hs : e.sender = .awaiting manager deadline expired)
      (hx : s.isStopped e = false)
      (hr : s.network.receive manager = some (.message frames,n))
      (ha : Acceptance.ofFrames frames = .ok a)
      (hd : a.sessionAddress? s.settings.server = some address) (hm : n.mode = .refuse) :
    Turn s e (giveUp (.refused address)
      { s with network := n.drop manager, journal := s.journal ++ [.dialled address] }) e.fail
  | hangOwn {manager deadline : Nat} {expired : Bool} {frames : Message} {n : Network}
      {a : Acceptance} {address : String} (hs : e.sender = .awaiting manager deadline expired)
      (hx : s.isStopped e = false)
      (hr : s.network.receive manager = some (.message frames,n))
      (ha : Acceptance.ofFrames frames = .ok a)
      (hd : a.sessionAddress? s.settings.server = some address) (hm : n.mode = .hang) :
    Turn s e { s with network := n, journal := s.journal ++ [.dialled address] }
      { e with sender := .joining manager }
  /-- The connection to the session manager is that of the session. -/
  | establish {manager deadline : Nat} {expired : Bool} {frames : Message} {n : Network}
      {a : Acceptance} (hs : e.sender = .awaiting manager deadline expired)
      (hx : s.isStopped e = false) (hw : e.receiver = .waiting)
      (hr : s.network.receive manager = some (.message frames,n))
      (ha : Acceptance.ofFrames frames = .ok a)
      (hd : a.sessionAddress? s.settings.server = none) :
    Turn s e
      { s with
        network := n
        journal := s.journal ++ s.deliveries a.payload ++
          [.event (.connected s.settings.server)] }
      { e with sender := .forwarding manager none, receiver := .handed manager }
  /-- The session has a connection of its own. -/
  | establishOwn {manager deadline : Nat} {expired : Bool} {frames : Message} {n : Network}
      {a : Acceptance} {address : String} (hs : e.sender = .awaiting manager deadline expired)
      (hx : s.isStopped e = false) (hw : e.receiver = .waiting)
      (hr : s.network.receive manager = some (.message frames,n))
      (ha : Acceptance.ofFrames frames = .ok a)
      (hd : a.sessionAddress? s.settings.server = some address) (hm : n.mode = .accept) :
    Turn s e
      { s with
        network := Network.dropStream manager
          { n with links := n.links ++ [({ address } : Link)] }
        journal := s.journal ++ [.dialled address] ++ s.deliveries a.payload ++
          [.event (.connected address)] }
      { e with
        sender := .forwarding manager (some n.links.length)
        receiver := .handed n.links.length
        inUse := e.inUse + 1 }
  | halt {manager : Nat} {session : Option Nat} (hs : e.sender = .forwarding manager session)
      (hx : s.isStopped e = true) :
    Turn s e
      { s with
        queueHome := true
        sendPhase := s.sendPhase.next .finished
        network := e.sender.sinks.foldl (fun n id => n.dropSink id) s.network } e.quit
  | write {manager : Nat} {session : Option Nat} {o : Outbound} {queue : List Outbound}
      {n : Network} (hs : e.sender = .forwarding manager session)
      (hx : s.isStopped e = false) (hq : s.queue = o :: queue)
      (hn : s.network.send (s.route manager session o.target)
        (Wire.clientMessage (.ofText o.target) [.ofText o.payload]) = .ok n)
      (hg : s.sent + 1 - s.received ≤ s.settings.threshold) :
    Turn s e
      { s with
        queue
        network := n
        sent := s.sent + 1
        journal := s.journal ++ [.taken o] ++ [.written (s.route manager session o.target) o] } e
  /-- The sender writes a message and ends, since the replies lag too far behind. -/
  | trip {manager : Nat} {session : Option Nat} {o : Outbound} {queue : List Outbound}
      {n : Network} (hs : e.sender = .forwarding manager session)
      (hx : s.isStopped e = false) (hq : s.queue = o :: queue)
      (hn : s.network.send (s.route manager session o.target)
        (Wire.clientMessage (.ofText o.target) [.ofText o.payload]) = .ok n)
      (hg : s.settings.threshold < s.sent + 1 - s.received) :
    Turn s e
      { s with
        queue
        queueHome := true
        sendPhase := s.sendPhase.next .finished
        network := e.sender.sinks.foldl (fun n id => n.dropSink id) n
        sent := s.sent + 1
        journal := s.journal ++ [.taken o] ++ [.written (s.route manager session o.target) o] }
      e.quit
  | lose {manager : Nat} {session : Option Nat} {o : Outbound} {queue : List Outbound}
      {f : Fault} (hs : e.sender = .forwarding manager session)
      (hx : s.isStopped e = false) (hq : s.queue = o :: queue)
      (hn : s.network.send (s.route manager session o.target)
        (Wire.clientMessage (.ofText o.target) [.ofText o.payload]) = .error f) :
    Turn s e
      { s with
        queue
        queueHome := true
        sendPhase := s.sendPhase.next .finished
        network := e.sender.sinks.foldl (fun n id => n.dropSink id) s.network
        journal := s.journal ++ [.taken o] ++ [.lost o] } e.quit
  /-- The receiver is stopped before it was handed a connection. -/
  | excuse (hr : e.receiver = .waiting) (hx : s.isStopped e = true) : Turn s e s e.hangUp
  /-- The receiver sees that it is stopped before it sees what it was handed. -/
  | overlook {id : Nat} (hr : e.receiver = .handed id) (hx : s.isStopped e = true) :
    Turn s e { s with network := s.network.dropStream id } e.hangUp
  | accept {id : Nat} (hr : e.receiver = .handed id) :
    Turn s e { s with receivePhase := s.receivePhase.next .started }
      { e with receiver := .reading id }
  | desist {id : Nat} (hr : e.receiver = .reading id) (hx : s.isStopped e = true) :
    Turn s e
      { s with
        receivePhase := s.receivePhase.next .finished
        network := s.network.dropStream id } e.hangUp
  | finish {id : Nat} {r : Received} {n : Network} (hr : e.receiver = .reading id)
      (hx : s.isStopped e = false) (hn : s.network.receive id = some (r,n))
      (hl : isLast r = true) :
    Turn s e
      { s with
        receivePhase := s.receivePhase.next .finished
        network := n.dropStream id } e.hangUp
  /-- What is no reply is dropped. -/
  | skip {id : Nat} {frames : Message} {v : Violation} {n : Network}
      (hr : e.receiver = .reading id) (hx : s.isStopped e = false)
      (hn : s.network.receive id = some (.message frames,n))
      (hv : Wire.ClientReply.ofFrames frames = .error v) :
    Turn s e { s with network := n } e
  | count {id : Nat} {frames : Message} {r : Wire.ClientReply} {n : Network}
      (hr : e.receiver = .reading id) (hx : s.isStopped e = false)
      (hn : s.network.receive id = some (.message frames,n))
      (hf : Wire.ClientReply.ofFrames frames = .ok r)
      (hl : r.payload ≠ SessionMessage.stopPayload) :
    Turn s e
      { s with
        network := n
        received := s.received + 1
        suppressNext := false
        journal := s.journal ++ [.counted r.payload] ++
          if s.suppressNext then [] else s.deliveries r.payload } e
  | expire {manager deadline : Nat} (hs : e.sender = .awaiting manager deadline false)
      (hd : deadline ≤ s.clock) (hx : s.isStopped e = false) :
    Turn s e
      { s with monitor :=
          s.monitor.report (.handshakeTimeout s.settings.server s.settings.timeout) }
      { e with sender := .awaiting manager deadline true }

namespace State
variable {s t : State} {e e' : Episode}

theorem greet_open (e : Episode) (s : State) :
    greet s.network.links.length e
        { s with network := { s.network with links := s.network.links ++
          [{ address := s.settings.server }] } } =
      ({ s with network := { s.network with links := s.network.links ++
          [{ address := s.settings.server, taken := [s.settings.greeting] }] } },
        { e with
          sender := .awaiting s.network.links.length (s.clock + s.settings.timeout) false
          inUse := e.inUse + 1 }) := by
  unfold greet
  rw [Network.send_open]

theorem turn_startSender (hs : e.sender = .starting) (h : s.startSender e = (t,e')) :
    Turn s e t e' := by
  unfold startSender at h
  dsimp only at h
  split at h
  · rename_i hx
    cases h
    exact .abandon hs hx
  · rename_i hx
    have hx : s.isStopped e = false := by simpa [isStopped, isCancelled] using hx
    cases hm : s.network.mode with
    | accept =>
      simp only [dial, Network.dial_of_accept hm, log] at h
      cases (greet_open e { s with
        sendPhase := s.sendPhase.next .started
        journal := s.journal ++ [.dialled s.settings.server] }).symm.trans h
      exact .greet hs hx hm
    | refuse =>
      simp only [dial, Network.dial_of_refuse hm, log, failConnect_eq] at h
      cases h
      exact .refuse hs hx hm
    | hang =>
      simp only [dial, Network.dial_of_hang hm, log] at h
      cases h
      exact .hang hs hx hm

theorem turn_establish {manager deadline : Nat} {expired : Bool} {frames : Message}
    {n : Network} {a : Acceptance} (hv : e.Valid)
    (hs : e.sender = .awaiting manager deadline expired) (hx : s.isStopped e = false)
    (hr : s.network.receive manager = some (.message frames,n))
    (ha : Acceptance.ofFrames frames = .ok a)
    (h : { s with network := n }.answered manager frames e = (t,e')) :
    Turn s e t e' ∧ e'.sender.isAwaiting = false := by
  have hc : e.sender.isConnecting = true := by rw [hs]; rfl
  have hw : e.receiver = .waiting := hv.waiting hc (Bool.or_eq_false_iff.mp hx).1
  unfold answered at h
  rw [ha] at h
  dsimp only at h
  cases hd : a.sessionAddress? s.settings.server with
  | none =>
    simp only [hd, establish, hw, deliver_eq, emit, log] at h
    cases h
    exact ⟨.establish hs hx hw hr ha hd,rfl⟩
  | some address =>
    cases hm : n.mode with
    | accept =>
      simp only [hd, dial, Network.dial_of_accept hm, log, establish, hw, deliver_eq, emit] at h
      cases h
      exact ⟨.establishOwn hs hx hw hr ha hd hm,rfl⟩
    | refuse =>
      simp only [hd, dial, Network.dial_of_refuse hm, log, failConnect_eq] at h
      cases h
      exact ⟨.refuseOwn hs hx hr ha hd hm,rfl⟩
    | hang =>
      simp only [hd, dial, Network.dial_of_hang hm, log] at h
      cases h
      exact ⟨.hangOwn hs hx hr ha hd hm,rfl⟩

/-- With what it hears, a sender that waits for the session manager no longer waits. -/
theorem turn_awaitAnswer {manager deadline : Nat} {expired : Bool} (hv : e.Valid)
    (hs : e.sender = .awaiting manager deadline expired)
    (h : s.awaitAnswer manager expired e = some (t,e')) :
    Turn s e t e' ∧ e'.sender.isAwaiting = false := by
  unfold awaitAnswer at h
  split at h
  · rename_i hx
    have hc : e.sender.isConnecting = true := by rw [hs]; rfl
    have hk : [manager] = e.sender.sinks := by rw [hs]; rfl
    rw [hk] at h
    cases h
    exact ⟨.leave hc (by simp [hs]) hx,rfl⟩
  · rename_i hx
    have hx : s.isStopped e = false := by simpa using hx
    split at h
    · rename_i frames n hr
      have h := Option.some.inj h
      cases ha : Acceptance.ofFrames frames with
      | error f =>
        have hf : refusal? (.message frames) = some f := by simp [refusal?, ha]
        simp only [answered, ha, failConnect_eq] at h
        cases h
        exact ⟨.reject hs hx hr hf,rfl⟩
      | ok a => exact turn_establish hv hs hx hr ha h
    · rename_i f n hr
      rw [failConnect_eq] at h
      cases h
      exact ⟨.reject hs hx hr rfl,rfl⟩
    · rename_i n hr
      have hn : n = s.network := by
        rcases Network.receive_cases hr with ⟨_,a,_,_,_,_,he⟩ | ⟨_,hn⟩
        · cases a <;> cases he
        · exact hn
      subst hn
      rw [failConnect_eq] at h
      cases h
      exact ⟨.reject hs hx hr rfl,rfl⟩
    · rename_i hr
      split at h
      · rename_i he
        dsimp only at h
        rw [failConnect_eq] at h
        cases h
        exact ⟨.timeOut (he ▸ hs) hx hr,rfl⟩
      · cases h

theorem turn_forward {manager : Nat} {session : Option Nat}
    (hs : e.sender = .forwarding manager session)
    (h : s.forward manager session e = some (t,e')) : Turn s e t e' := by
  have hk : manager :: session.toList = e.sender.sinks := by rw [hs]; rfl
  unfold forward endForwarding at h
  split at h
  · rename_i hx
    rw [hk] at h
    cases h
    exact .halt hs hx
  · rename_i hx
    have hx : s.isStopped e = false := by simpa using hx
    split at h
    · cases h
    · rename_i o queue hq
      have h := Option.some.inj h
      unfold put endForwarding at h
      dsimp only [log] at h
      split at h
      · rename_i n hn
        split at h
        · rename_i ht
          rw [hk] at h
          cases h
          exact .trip hs hx hq hn (by simpa [isTripped] using ht)
        · rename_i ht
          cases h
          exact .write hs hx hq hn (by simpa [isTripped] using ht)
      · rename_i f hn
        rw [hk] at h
        cases h
        exact .lose hs hx hq hn

theorem turn_senderTurn (hv : e.Valid) (h : s.senderTurn e = some (t,e')) : Turn s e t e' := by
  unfold senderTurn at h
  split at h
  · rename_i hs
    exact turn_startSender hs (Option.some.inj h)
  · rename_i hs
    split at h
    · rename_i hx
      have hl := Turn.leave (s := s) (by rw [hs]; rfl) (by simp [hs]) hx
      simp only [hs] at hl
      cases h
      exact hl
    · cases h
  · rename_i hs
    exact (turn_awaitAnswer hv hs h).1
  · rename_i manager hs
    split at h
    · rename_i hx
      have hk : [manager] = e.sender.sinks := by rw [hs]; rfl
      rw [hk] at h
      cases h
      exact .leave (by rw [hs]; rfl) (by simp [hs]) hx
    · cases h
  · rename_i hs
    exact turn_forward hs h
  · cases h

theorem turn_read {id : Nat} (hr : e.receiver = .reading id) (h : s.read id e = some (t,e')) :
    Turn s e t e' := by
  unfold read at h
  split at h
  · rename_i hx
    cases h
    exact .desist hr hx
  · rename_i hx
    have hx : s.isStopped e = false := by simpa using hx
    split at h
    · rename_i frames n hn
      dsimp only at h
      split at h
      · rename_i v hf
        cases h
        exact .skip hr hx hn hf
      · rename_i r hf
        split at h
        · rename_i hl
          cases h
          exact .finish hr hx hn (by simp [isLast, hf, hl])
        · rename_i hl
          rw [count_eq] at h
          cases h
          exact .count hr hx hn hf hl
    · rename_i r n hn hm
      cases h
      refine .finish hr hx hm ?_
      cases r with
      | message frames => exact absurd rfl (hn frames)
      | failed f => rfl
      | ended => rfl
    · cases h

theorem turn_receiverTurn (h : s.receiverTurn e = some (t,e')) : Turn s e t e' := by
  unfold receiverTurn at h
  split at h
  · rename_i hr
    split at h
    · rename_i hx
      cases h
      exact .excuse hr hx
    · cases h
  · rename_i id hr
    cases h
    exact .accept hr
  · rename_i id hr
    exact turn_read hr h
  · cases h

theorem turn_watchdogTurn (h : s.watchdogTurn e = some (t,e')) : Turn s e t e' := by
  unfold watchdogTurn at h
  split at h
  · rename_i manager deadline hs
    split at h
    · rename_i hx
      obtain ⟨hd,hx⟩ : deadline ≤ s.clock ∧ s.isStopped e = false := by simpa using hx
      cases h
      exact .expire hs hd hx
    · cases h
  · cases h

section
variable {turn : Episode → State → Option (State × Episode)}

theorem within_of_idle (he : s.episode = none) : s.within turn = none := by
  simp [within, he]

theorem within_of_live (he : s.episode = some e) :
    s.within turn = (turn e s).map fun (t,e') => t.settleEpisode e' := by
  simp [within, he]

theorem within_eq_none (he : s.episode = some e) : s.within turn = none ↔ turn e s = none := by
  rw [within_of_live he, Option.map_eq_none_iff]

/-- A task that moves within an episode takes its turn there. -/
theorem within_eq_some {s' : State} (h : s.within turn = some s') :
    ∃ e t e', s.episode = some e ∧ turn e s = some (t,e') ∧ s' = t.settleEpisode e' := by
  unfold within at h
  split at h
  · cases h
  · rename_i e he
    obtain ⟨⟨t,e'⟩,ht,rfl⟩ := Option.map_eq_some_iff.mp h
    exact ⟨e,t,e',he,ht,rfl⟩

end

end State
end Majordomo.Client
