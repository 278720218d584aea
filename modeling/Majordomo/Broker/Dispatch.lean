import Majordomo.Broker.Registry

/-! # Dispatch

Requests and idle workers of a service are paired oldest with oldest. Before that
every idle worker whose time has run out is removed.
-/
namespace Majordomo.Broker.Mediator

def isExpired (now : Nat) (m : Mediator) (key : String) : Bool :=
  match m.workers.get? key with
  | some worker => worker.expiry ≤ now
  | none => true

def sweep (now : Nat) (m : Mediator) : Mediator :=
  (m.idle.filter (m.isExpired now)).foldl (fun m key => m.remove key) m

/-- Gives the oldest request of the service to its longest idle worker, if it has both. -/
def pairOldest (name : String) (m : Mediator) : Mediator :=
  match m.services.get? name with
  | some { pending := envelope :: pending, idle := key :: idle, reply := _ } =>
    let m := { m with
      services := m.services.set name { pending, idle, reply := .awaiting }
      idle := m.idle.filter (· ≠ key) }
    match m.workers.get? key with
    | some worker => m.emit worker.identity (Wire.request envelope)
    | none => m
  | _ => m

/-- Pairs until the service has no request or no idle worker left. -/
def pairAll (name : String) (m : Mediator) : Mediator :=
  Nat.repeat (pairOldest name) ((m.services.get? name).elim 0 (·.pending.length)) m

/-- Removes the dead workers, then pairs what the service has. -/
def dispatch (name : String) (now : Nat) (m : Mediator) : Mediator :=
  (m.sweep now).pairAll name

/-- Renews a registered worker, makes it the last of the idle ones and dispatches its service. -/
def renew (key : String) (now : Nat) (m : Mediator) : Mediator :=
  match m.workers.get? key with
  | none => m
  | some worker =>
    let m := { m with
      workers := m.workers.set key { worker with expiry := now + m.lifetime }
      idle := m.idle.filter (· ≠ key) ++ [key] }
    (m.updateService worker.service fun s =>
      { s with idle := s.idle.filter (· ≠ key) ++ [key] }).dispatch worker.service now

end Majordomo.Broker.Mediator
