import Majordomo.Broker.Mediator
import Majordomo.Router.Peer
import Majordomo.Worker.Session

/-! # A broker with its clients and workers

Every client and every connection of a worker is joined to one broker. What a peer says
waits until the broker takes it, and what the broker says waits until the worker takes it,
in the order in which it was said. Apart from that order anything may happen next.
-/
namespace Majordomo.Exchange
open Broker (Mediator Outbound)

inductive Party
  /-- A client, with what it has sent and the broker has not taken, oldest first. -/
  | client (sent : List Message)
  /-- A connection of a worker, by their numbers; of what the worker has written to it, the
  broker has taken that much. -/
  | worker (number link taken : Nat)
deriving DecidableEq

structure Connection where
  identity : Frame
  party : Party
deriving DecidableEq

def Connection.advance (c : Connection) : Connection :=
  match c.party with
  | .client sent => { c with party := .client sent.tail }
  | .worker i n taken => { c with party := .worker i n (taken + 1) }

inductive Event
  | asked (client : Frame) (frames : Message)
  | replied (client : Frame) (frames : Message)
deriving DecidableEq

structure World where
  broker : Mediator
  /-- The connections in the order in which they were opened. -/
  connections : List Connection := []
  workers : List Worker.State := []
  /-- What was said, oldest first. -/
  history : List Event := []

inductive Act
  | move
  | tick (ms : Nat)
  | notice (n : Worker.Notice)
  | askStop
  | shutdown
  | mode (m : Mode)
  | failure (link : Nat) (reason : String)
  | hangUp (link : Nat)
  | stopReading (link : Nat)

def Act.apply (s : Worker.State) : Act → Worker.State
  | .move => s.move.getD s
  | .tick ms => { s with clock := s.clock + ms }
  | .notice n => (s.notice n).2
  | .askStop => s.askStop
  | .shutdown => s.shutdown
  | .mode m => (s.onNetwork (.mode m)).2
  | .failure link reason => (s.onNetwork (.offer link (.failure reason))).2
  | .hangUp link => (s.onNetwork (.hangUp link)).2
  | .stopReading link => (s.onNetwork (.stopReading link)).2

namespace World

def start (interval lifetime now : Nat) : World := { broker := .start interval lifetime now }

def connect (party : Party) (w : World) : World :=
  { w with connections := w.connections ++ [⟨Peer.identity w.connections.length,party⟩] }

def connection? (identity : Frame) (w : World) : Option Connection :=
  w.connections.find? (·.identity = identity)

def isClient (w : World) (peer : Frame) : Bool :=
  match w.connection? peer with
  | some ⟨_,.client _⟩ => true
  | _ => false

def waiting? (c : Connection) (w : World) : Option Message :=
  match c.party with
  | .client sent => sent.head?
  | .worker i n taken => (w.workers[i]?.bind (·.network.link? n)).bind (·.taken[taken]?)

def onWorker (i : Nat) (f : Worker.State → Worker.State) (w : World) : World :=
  { w with workers := w.workers.modify i f }

def deliver (w : World) (o : Outbound) : World :=
  match w.connection? o.peer with
  | some ⟨_,.worker i n _⟩ =>
    w.onWorker i fun s => (s.onNetwork (.offer n (.message o.frames))).2
  | _ => w

/-- The operation makes the broker speak for itself, or for a worker that shuts down. -/
def isAside : Mediator.Operation → Bool
  | .handle _ frames _ =>
    match Wire.Inbound.ofFrames frames with
    | .ok (.client service _) => Wire.isInternal service.toText
    | .ok (.worker (.shutdown ..)) => true
    | _ => false
  | _ => false

def replies (op : Mediator.Operation) (outbound : List Outbound) (w : World) : List Event :=
  if isAside op then []
  else (outbound.filter (w.isClient ·.peer)).map fun o => .replied o.peer o.frames

def operate (op : Mediator.Operation) (w : World) : World :=
  let (outbound,broker) := (w.broker.apply op).1.drain
  { outbound.foldl deliver { w with broker } with
    history := w.history ++ w.replies op outbound }

def setConnection (k : Nat) (c : Connection) (w : World) : World :=
  { w with connections := w.connections.set k c }

def ask (k : Nat) (frames : Message) (w : World) : World :=
  match w.connections[k]? with
  | some ⟨identity,.client sent⟩ =>
    { w.setConnection k ⟨identity,.client (sent ++ [frames])⟩ with
      history := w.history ++ [.asked identity frames] }
  | _ => w

def act (i : Nat) (a : Act) (w : World) : World :=
  match w.workers[i]? with
  | none => w
  | some s =>
    let w := w.onWorker i (a.apply ·)
    if s.network.links.length < (a.apply s).network.links.length then
      w.connect (.worker i s.network.links.length 0)
    else w

def take (k now : Nat) (w : World) : World :=
  match w.connections[k]? with
  | none => w
  | some c =>
    match w.waiting? c with
    | none => w
    | some frames => (w.setConnection k c.advance).operate (.handle c.identity frames now)

inductive Step
  | join
  | employ (settings : Worker.Settings) (monitor : Monitor)
  /-- The client on the connection sends a message of the client role. -/
  | ask (k : Nat) (rest : Message)
  | act (i : Nat) (a : Act)
  | take (k now : Nat)
  | sweep (now : Nat)
  | probe (now : Nat)
  | disconnectAll

def step (w : World) : Step → World
  | .join => w.connect (.client [])
  | .employ settings monitor => { w with workers := w.workers ++ [.start settings {} monitor] }
  | .ask k rest => w.ask k (.empty :: .ofText Wire.clientRole :: rest)
  | .act i a => w.act i a
  | .take k now => w.take k now
  | .sweep now => w.operate (.sweep now)
  | .probe now => w.operate (.probe now)
  | .disconnectAll => w.operate .disconnectAll

def run (w : World) (steps : List Step) : World := steps.foldl step w

end World
end Majordomo.Exchange
