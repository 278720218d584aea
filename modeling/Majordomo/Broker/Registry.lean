import Majordomo.Table
import Majordomo.Wire.Command

/-! # The registries of the mediator

Services by name and workers by the hexadecimal text of their identity. A worker is
idle from the moment it is heard from until it is given a request; an idle worker
waits in the queue of its service and in the queue of all idle workers.
-/
namespace Majordomo.Broker

structure Outbound where
  peer : Frame
  frames : Message
deriving DecidableEq, Inhabited

/-- How the latest request of a service stands. -/
inductive Reply
  /-- No request has gone out yet. -/
  | idle
  | awaiting
  | received
deriving DecidableEq, Inhabited

/-- A service: requests that wait for a worker and workers that wait for a request,
oldest first. -/
structure Service where
  pending : List Envelope := []
  idle : List String := []
  reply : Reply := .idle
deriving DecidableEq, Inhabited

/-- A registered worker, bound to one service; it counts as dead from `expiry` on. -/
structure Worker where
  identity : Frame
  service : String
  expiry : Nat
deriving DecidableEq, Inhabited

/-- The broker's state. Times are in milliseconds; `outbox` holds what has not been
sent yet, oldest first. -/
structure Mediator where
  /-- The time between two probes of the idle workers. -/
  interval : Nat
  /-- How long a worker lives after it was last heard from. -/
  lifetime : Nat
  probeAt : Nat
  services : Table String Service := .empty
  workers : Table String Worker := .empty
  /-- All idle workers, the one renewed longest ago first. -/
  idle : List String := []
  outbox : List Outbound := []
deriving Inhabited

namespace Mediator

def start (interval lifetime now : Nat) : Mediator :=
  { interval, lifetime, probeAt := now + interval }

def emit (peer : Frame) (frames : Message) (m : Mediator) : Mediator :=
  { m with outbox := m.outbox ++ [⟨peer, frames⟩] }

def require (name : String) (m : Mediator) : Mediator :=
  if m.services.contains name then m else { m with services := m.services.set name {} }

/-- Changes the service, registering it first if it is unknown. -/
def updateService (name : String) (f : Service → Service) (m : Mediator) : Mediator :=
  { m with services := m.services.set name (f ((m.services.get? name).getD {})) }

/-- Takes the worker out of both queues of idle workers and out of the registry. -/
def remove (key : String) (m : Mediator) : Mediator :=
  match m.workers.get? key with
  | none => { m with idle := m.idle.filter (· ≠ key) }
  | some worker =>
    { m with
      idle := m.idle.filter (· ≠ key)
      workers := m.workers.erase key
      services := m.services.modify worker.service fun s =>
        { s with idle := s.idle.filter (· ≠ key) } }

structure Status where
  services : Nat
  pending : Nat
  idle : Nat
  workers : Nat
deriving DecidableEq, Inhabited

def status (m : Mediator) : Status where
  services := m.services.size
  pending := m.services.values.foldl (fun n s => n + s.pending.length) 0
  idle := m.idle.length
  workers := m.workers.size

structure ServiceStatus where
  pending : Nat
  idle : Nat
  awaiting : Bool
deriving DecidableEq, Inhabited

def serviceStatus? (name : String) (m : Mediator) : Option ServiceStatus :=
  (m.services.get? name).map fun s =>
    { pending := s.pending.length, idle := s.idle.length, awaiting := s.reply = .awaiting }

end Mediator
end Majordomo.Broker
