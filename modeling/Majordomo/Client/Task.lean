import Majordomo.Client.Handshake
import Majordomo.Client.Lifecycle

/-! # The moves of the tasks

A move of a task goes from one point where it may have to wait to the next; `none`
means that it waits. Any order of moves is a run of the session. What a task of an
episode does in a move is its turn: the session that it leaves, and the episode as it is
then, which is over if nothing of it is in use any more.

A write is made where the connection has room for it; one that has to wait for the far
end is in `Majordomo.Proofs.Client.Threads`, as is a thread that comes in between.
-/
namespace Majordomo.Client.State

def release (ids : List Nat) (s : State) : State :=
  { s with network := ids.foldl (fun n id => n.drop id) s.network }

/-! ## The sender -/

/-- The sender ends, gives the queue back and tells the receiver to stop; its connections have
been given up. -/
def endSender (e : Episode) (s : State) : State × Episode :=
  ({ s with queueHome := true, sendPhase := s.sendPhase.next .finished },
    { e with sender := .ended, inUse := e.inUse - (e.sender.sinks.length + 1), stopped := true })

/-- Connecting has failed. A timeout has been reported before. -/
def failConnect (f : Fault) (e : Episode) (s : State) : State × Episode :=
  let s := match f with
    | .handshakeTimeout .. => s
    | _ => s.report f
  (s.emit (.connectFailed f.message)).endSender { e with connectFailed := true }

def dial (address : String) (s : State) : Dialled × State :=
  let (result, network) := s.network.dial address
  (result, { s with network }.log (.dialled address))

/-- Sends the greeting on a fresh connection, which has room for it, and arms the watchdog. -/
def greet (id : Nat) (e : Episode) (s : State) : State × Episode :=
  let e := { e with
    sender := .awaiting id (s.clock + s.settings.timeout) false
    inUse := e.inUse + 1 }
  match s.network.send id s.settings.greeting with
  | .ok network => ({ s with network }, e)
  | .error f => (s.release [id]).failConnect f e

def startSender (e : Episode) (s : State) : State × Episode :=
  let s := { s with sendPhase := s.sendPhase.next .started }
  if s.isStopped e then s.endSender e
  else match s.dial s.settings.server with
    | (.opened id, s) => s.greet id e
    | (.refused f, s) => s.failConnect f e
    | (.hanging, s) => (s, { e with sender := .dialling })

/-- Accepted: delivers the answer and hands the receiving half of the last connection over. -/
def establish (manager : Nat) (session : Option Nat) (address : String) (a : Acceptance)
    (e : Episode) (s : State) : State × Episode :=
  let s := s.deliver a.payload
  let e := { e with sender := .forwarding manager session }
  match e.receiver with
  | .waiting =>
    (s.emit (.connected address), { e with receiver := .handed (session.getD manager) })
  | _ => (s.release (manager :: session.toList)).endSender e

/-- Takes the session manager's answer; the session may get a connection of its own. -/
def answered (manager : Nat) (frames : Message) (e : Episode) (s : State) : State × Episode :=
  match Acceptance.ofFrames frames with
  | .error f => (s.release [manager]).failConnect f e
  | .ok a =>
    match a.sessionAddress? s.settings.server with
    | none => s.establish manager none s.settings.server a e
    | some address =>
      match s.dial address with
      | (.opened id, s) =>
        { s with network := s.network.dropStream manager }.establish manager (some id) address a
          { e with inUse := e.inUse + 1 }
      | (.refused f, s) => (s.release [manager]).failConnect f e
      | (.hanging, s) => (s, { e with sender := .joining manager })

/-- Waits for the session manager's answer, the watchdog or a stop. -/
def awaitAnswer (manager : Nat) (expired : Bool) (e : Episode) (s : State) :
    Option (State × Episode) :=
  if s.isStopped e then some ((s.release [manager]).endSender e)
  else match s.network.receive manager with
    | some (.message frames, network) => some ({ s with network }.answered manager frames e)
    | some (.failed f, network) => some (({ s with network }.release [manager]).failConnect f e)
    | some (.ended, _) => some ((s.release [manager]).failConnect .interrupted e)
    | none =>
      if expired then
        let f := Fault.handshakeTimeout s.settings.server s.settings.timeout
        some ((s.release [manager]).failConnect f e)
      else none

/-- The connection that a message for `target` is written to. -/
def route (manager : Nat) (session : Option Nat) (target : String) (s : State) : Nat :=
  if target = s.settings.manager then manager else session.getD manager

def endForwarding (manager : Nat) (session : Option Nat) (e : Episode) (s : State) :
    State × Episode :=
  { s with network := (manager :: session.toList).foldl (fun n id => n.dropSink id) s.network
    }.endSender e

/-- Writes a message that was taken from the queue, and looks how far the replies lag behind
before it waits for one more. -/
def put (manager : Nat) (session : Option Nat) (o : Outbound) (e : Episode) (s : State) :
    State × Episode :=
  let id := s.route manager session o.target
  match s.network.send id (Wire.clientMessage (.ofText o.target) [.ofText o.payload]) with
  | .ok network =>
    let s := { s with network, sent := s.sent + 1 }.log (.written id o)
    if s.isTripped then s.endForwarding manager session e else (s, e)
  | .error _ => (s.log (.lost o)).endForwarding manager session e

/-- Sends the next message. Before the first one nothing is sent, and no reply lags behind. -/
def forward (manager : Nat) (session : Option Nat) (e : Episode) (s : State) :
    Option (State × Episode) :=
  if s.isStopped e then some (s.endForwarding manager session e)
  else match s.queue with
    | [] => none
    | o :: queue => some (({ s with queue }.log (.taken o)).put manager session o e)

def senderTurn (e : Episode) (s : State) : Option (State × Episode) :=
  match e.sender with
  | .starting => some (s.startSender e)
  | .dialling => if s.isStopped e then some (s.endSender e) else none
  | .awaiting manager _ expired => s.awaitAnswer manager expired e
  | .joining manager =>
    if s.isStopped e then some ((s.release [manager]).endSender e) else none
  | .forwarding manager session => s.forward manager session e
  | .ended => none

/-! ## The receiver -/

/-- The receiver ends and tells the sender to stop. -/
def endReceiver (e : Episode) (s : State) : State × Episode :=
  (s, { e with receiver := .ended, inUse := e.inUse - 1, stopped := true })

def endReading (id : Nat) (e : Episode) (s : State) : State × Episode :=
  { s with
    receivePhase := s.receivePhase.next .finished
    network := s.network.dropStream id }.endReceiver e

/-- Counts a reply; it is delivered unless the application asked to ignore it. -/
def count (payload : String) (s : State) : State :=
  let s := { s with received := s.received + 1 }.log (.counted payload)
  if s.suppressNext then { s with suppressNext := false } else s.deliver payload

/-- Takes the next message. One that is no reply is dropped; the stop payload ends the episode. -/
def read (id : Nat) (e : Episode) (s : State) : Option (State × Episode) :=
  if s.isStopped e then some (s.endReading id e)
  else match s.network.receive id with
    | some (.message frames, network) =>
      let s := { s with network }
      match Wire.ClientReply.ofFrames frames with
      | .error _ => some (s, e)
      | .ok r =>
        if r.payload = SessionMessage.stopPayload then some (s.endReading id e)
        else some (s.count r.payload, e)
    | some (_, network) => some ({ s with network }.endReading id e)
    | none => none

def receiverTurn (e : Episode) (s : State) : Option (State × Episode) :=
  match e.receiver with
  | .waiting => if s.isStopped e then some (s.endReceiver e) else none
  | .handed id =>
    some ({ s with receivePhase := s.receivePhase.next .started },
      { e with receiver := .reading id })
  | .reading id => s.read id e
  | .ended => none

/-! ## The watchdog -/

/-- The session manager has taken too long. -/
def expire (manager deadline : Nat) (e : Episode) (s : State) : State × Episode :=
  (s.report (.handshakeTimeout s.settings.server s.settings.timeout),
    { e with sender := .awaiting manager deadline true })

/-- The watchdog expires unless it is told to stop, which goes first here. -/
def watchdogTurn (e : Episode) (s : State) : Option (State × Episode) :=
  match e.sender with
  | .awaiting manager deadline false =>
    if deadline ≤ s.clock && !s.isStopped e then some (s.expire manager deadline e) else none
  | _ => none

/-! ## The tasks between them -/

/-- One of the tasks of the episode takes its turn. -/
def within (turn : Episode → State → Option (State × Episode)) (s : State) : Option State :=
  match s.episode with
  | none => none
  | some e => (turn e s).map fun (s, e) => s.settleEpisode e

def senderMove (s : State) : Option State := s.within senderTurn
def receiverMove (s : State) : Option State := s.within receiverTurn
def watchdogMove (s : State) : Option State := s.within watchdogTurn

def reconnectMove (s : State) : Option State :=
  if s.reconnectDue then
    some { s with reconnectDue := false, releasePhase := s.releasePhase.next .finished }.execute
  else none

def hasRoom (s : State) : Bool := s.queue.length < max 1 s.settings.capacity

def push (o : Outbound) (s : State) : State :=
  { s with queue := s.queue ++ [o] }.log (.accepted o)

/-- The send that has waited longest gets the free place in the queue. -/
def admissionMove (s : State) : Option State :=
  match s.waiting with
  | (ticket, o) :: waiting =>
    if s.hasRoom then some ({ s with waiting }.push o |>.log (.admitted ticket)) else none
  | [] => none

inductive Task
  | sender
  | receiver
  | watchdog
  | reconnect
  | admission
deriving DecidableEq, Inhabited

def move (s : State) : Task → Option State
  | .sender => s.senderMove
  | .receiver => s.receiverMove
  | .watchdog => s.watchdogMove
  | .reconnect => s.reconnectMove
  | .admission => s.admissionMove

end Majordomo.Client.State
