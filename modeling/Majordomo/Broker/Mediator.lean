import Majordomo.Broker.Dispatch
import Majordomo.Wire.Inbound

/-! # The mediator's operations

Each operation is a function on the state that adds the messages to send to the
outbox. A run is a list of operations from the start.
-/
namespace Majordomo.Broker

inductive Answer
  | known
  | unknown
  | unsupported
deriving DecidableEq, Inhabited

def Answer.code : Answer → String
  | known => "200"
  | unknown => "400"
  | unsupported => "501"

namespace Mediator

/-- The answer of the internal service `name` to a request that ends in `asked`. -/
def internalAnswer (name asked : String) (m : Mediator) : Answer :=
  if name = Wire.serviceQuery then
    if m.services.contains asked then .known else .unknown
  else .unsupported

/-- Answers for an internal service: the body comes back with the answer as its last frame. -/
def answerInternal (sender : Frame) (name : String) (body : Message) (m : Mediator) : Mediator :=
  let code := Frame.ofText (m.internalAnswer name body.lastText).code
  m.emit sender (Wire.clientMessage (.ofText name) (body.setLast code))

/-- The worker that a repeated request may wake: the longest idle one of the service,
else the sender itself if it is a worker of the service. -/
def retryCandidate? (name : String) (sender : Frame) (m : Mediator) : Option String :=
  match (m.services.get? name).bind (·.idle.head?) with
  | some key => some key
  | none =>
    match m.workers.get? sender.hex with
    | some worker => if worker.service = name then some sender.hex else none
    | none => none

/-- Renews the worker that a repeated request may wake, while a reply of the service is awaited. -/
def wakeForRetry (name : String) (sender : Frame) (now : Nat) (m : Mediator) : Mediator :=
  if (m.services.get? name).any (·.reply = .awaiting) then
    match m.retryCandidate? name sender with
    | some key => m.renew key now
    | none => m
  else m

/-- Takes a client's request: it waits behind the others of its service. -/
def request (sender service : Frame) (body : Message) (now : Nat) (m : Mediator) : Mediator :=
  let name := service.toText
  if Wire.isInternal name then m.answerInternal sender name body
  else
    let m := (m.require name).wakeForRetry name sender now
    (m.updateService name fun s =>
      { s with pending := s.pending ++ [(Envelope.ofBody body).wrap sender] }).dispatch name now

/-- Turns away a worker that is not registered: it is told to disconnect. -/
def turnAway (sender : Frame) (command : String) (m : Mediator) : Mediator × Option Fault :=
  ((m.emit sender Wire.disconnect).remove sender.hex,
    some (.violation (.unregistered command sender.hex)))

/-- Registers a worker for a service. A second READY drops the worker instead, and nobody
works for an internal service. -/
def ready (sender : Frame) (service : String) (now : Nat) (m : Mediator) : Mediator :=
  if m.workers.contains sender.hex then m.remove sender.hex
  else if Wire.isInternal service then m.emit sender Wire.disconnect
  else
    let worker : Worker := { identity := sender, service, expiry := now + m.lifetime }
    ({ m with workers := m.workers.set sender.hex worker }.require service).renew sender.hex now

def forward (service : String) (e : Envelope) (m : Mediator) : Mediator :=
  match e.address? with
  | some client => m.emit client (Wire.clientMessage (.ofText service) e.body)
  | none => m

def command (sender : Frame) (c : Wire.WorkerCommand) (now : Nat) (m : Mediator) :
    Mediator × Option Fault :=
  match c with
  | .ready service => (m.ready sender service now, none)
  | .reply e =>
    match m.workers.get? sender.hex with
    | none => m.turnAway sender "REPLY"
    | some worker =>
      ((((m.forward worker.service e).updateService worker.service fun s =>
        { s with reply := .received }).renew sender.hex now), none)
  | .heartbeat =>
    if m.workers.contains sender.hex then (m.renew sender.hex now, none)
    else m.turnAway sender "HEARTBEAT"
  | .disconnect => (m.remove sender.hex, none)
  | .shutdown e named =>
    match ((m.workers.get? sender.hex).map (·.service)).or named with
    | some service => (m.forward service e, none)
    | none => (m, none)
  | .unknown _ => (m, none)

def handle (sender : Frame) (frames : Message) (now : Nat) (m : Mediator) :
    Mediator × Option Fault :=
  match Wire.Inbound.ofFrames frames with
  | .error v => (m, some (.violation v))
  | .ok (.client service body) => (m.request sender service body now, none)
  | .ok (.worker c) => m.command sender c now

/-- Probes the idle workers once the probe is due. -/
def probe (now : Nat) (m : Mediator) : Mediator :=
  if now < m.probeAt then m
  else
    let probes := m.idle.filterMap fun key =>
      (m.workers.get? key).map fun worker => ⟨worker.identity, Wire.heartbeat⟩
    { m with outbox := m.outbox ++ probes, probeAt := now + m.interval }

/-- Tells every registered worker to disconnect and forgets it. -/
def disconnectAll (m : Mediator) : Mediator :=
  m.workers.entries.foldl
    (fun m (key, worker) => (m.remove key).emit worker.identity Wire.disconnect) m

def drain (m : Mediator) : List Outbound × Mediator := (m.outbox, { m with outbox := [] })

inductive Operation
  | handle (sender : Frame) (frames : Message) (now : Nat)
  | sweep (now : Nat)
  | probe (now : Nat)
  | disconnectAll
deriving DecidableEq, Inhabited

def apply (m : Mediator) : Operation → Mediator × Option Fault
  | .handle sender frames now => m.handle sender frames now
  | .sweep now => (m.sweep now, none)
  | .probe now => (m.probe now, none)
  | .disconnectAll => (m.disconnectAll, none)

def run (m : Mediator) (ops : List Operation) : Mediator := ops.foldl (fun m op => (m.apply op).1) m

end Mediator
end Majordomo.Broker
