import Majordomo.Worker.Task

/-! # A worker session

What the application and the environment do to a worker. Between two of these it
moves until it has to wait.
-/
namespace Majordomo.Worker.State

/-- A bound on the moves until the worker waits: a message of the broker takes two and a notice
one, and a connection ends and another begins in a few more. -/
def work (s : State) : Nat :=
  2 * s.network.arrivalCount + s.notices.length + 20

def moveUpTo : Nat → State → State
  | 0, s => s
  | n + 1, s =>
    match s.move with
    | some s' => moveUpTo n s'
    | none => s

def settle (s : State) : State := moveUpTo s.work s

def nextDeadline? (s : State) : Option Nat :=
  match s.stage with
  | .serving _ v => some v.waitUntil
  | .handling _ _ _ _ done => some done
  | .pausing wake => some wake
  | _ => none

/-- Advances the clock to `target` and settles wherever the worker waits for a time on the way,
at most `n` times. -/
def advanceTo (target : Nat) : Nat → State → State
  | 0, s => { s with clock := target }
  | n + 1, s =>
    match s.nextDeadline? with
    | some deadline =>
      if deadline ≤ target then advanceTo target n { s with clock := max s.clock deadline }.settle
      else { s with clock := target }
    | none => { s with clock := target }

def advance (ms : Nat) (s : State) : State := advanceTo (s.clock + ms) (ms + 1) s

/-! ## The application's calls -/

def start (settings : Settings) (network : Network) (monitor : Monitor) : State :=
  { settings, network, monitor }

inductive Noticed
  | accepted
  | refused (f : Fault)
  | full
deriving DecidableEq, Inhabited

def notice (n : Notice) (s : State) : Noticed × State :=
  if s.isStopped then (.refused .closed, s)
  else if s.notices.length < slots then (.accepted, { s with notices := s.notices ++ [n] })
  else (.full, s)

def askStop (s : State) : State := { s with stopAsked := true }

def onNetwork (event : Network.Event) (s : State) : Network.Outcome × State :=
  let (outcome, network) := s.network.onEvent event
  (outcome, { s with network })

def shutdown (s : State) : State := { s with monitor := s.monitor.shutdown }

end Majordomo.Worker.State
