import Majordomo.Broker.Mediator
import Majordomo.Config.Settings
import Majordomo.Router.State

/-! # The broker at work

A broker takes the messages of its peers one by one. After each of them, and after
every interval without one, it sweeps, probes and sends what the mediator has put in
the outbox. Times are in milliseconds since the broker was started.
-/
namespace Majordomo.Broker

structure Server where
  router : Router
  mediator : Mediator
  monitor : Monitor
  /-- The counts that observers see; they are renewed after every round. -/
  status : Mediator.Status := ⟨0, 0, 0, 0⟩
  running : Bool := true
deriving Inhabited

namespace Server

/-- A broker that has just been started, unless no time can be so long as the life that the
settings grant to a worker. -/
def start (c : Config.Broker) (policy : Policy) : Option Server :=
  c.expiry?.map fun lifetime =>
    { router := .start c.peerCapacity.toNat
      mediator := .start c.interval lifetime 0
      monitor := { policy } }

def flush (s : Server) : Server :=
  let (outbound, mediator) := s.mediator.drain
  { s with mediator, router := outbound.foldl (fun r o => r.send o.peer o.frames) s.router }

def publish (s : Server) : Server := { s with status := s.mediator.status }

def take (sender : Frame) (frames : Message) (now : Nat) (s : Server) : Server :=
  match s.mediator.handle sender frames now with
  | (mediator, none) => { s with mediator }
  | (mediator, some f) => { s with mediator, monitor := s.monitor.report f }

/-- What is done after every message, and after an interval without one. -/
def upkeep (now : Nat) (s : Server) : Server :=
  { s with mediator := (s.mediator.sweep now).probe now }.flush.publish

def stop (s : Server) : Server :=
  let s := { s with mediator := s.mediator.disconnectAll }.flush.publish
  { s with router := s.router.closeAll.closeInbound, running := false }

/-- Takes the oldest message that waits, or stops if the application has been asked to. -/
def round (now : Nat) (s : Server) : Option Server :=
  if !s.running then none
  else if s.monitor.cancelled then some s.stop
  else match s.router.inbound with
    | [] => none
    | (sender, frames) :: inbound =>
      some ({ s with router := { s.router with inbound } }.take sender frames now |>.upkeep now)

def rounds (now : Nat) : Nat → Server → Server
  | 0, s => s
  | n + 1, s =>
    match s.round now with
    | some s => rounds now n s
    | none => s

def settle (now : Nat) (s : Server) : Server := rounds now (s.router.inbound.length + 1) s

def onRouter (f : Router → Router) (s : Server) : Server := { s with router := f s.router }

def shutdown (s : Server) : Server := { s with monitor := s.monitor.shutdown }

end Server
end Majordomo.Broker
