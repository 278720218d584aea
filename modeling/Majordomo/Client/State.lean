import Majordomo.Client.Phase
import Majordomo.Link
import Majordomo.Monitor

/-! # The state of a client session

A session lives in episodes. An episode opens a connection, greets the session
manager, then sends what is queued and hands on what comes in. It is carried by two
tasks: the sender, which also opens the connections, and the receiver, to which the
sender hands the receiving half once the session manager has accepted.
-/
namespace Majordomo.Client

/-- A message that the application wants sent to the service `target`. -/
structure Outbound where
  target : String
  payload : String
deriving DecidableEq, Inhabited

structure Settings where
  /-- The name under which the session manager knows the session. -/
  name : String
  server : String
  /-- The address that the client gives as its own. -/
  address : String
  manager : String
  requestType : String
  subscriptions : List String
  /-- How long the session manager may take to answer, in milliseconds. -/
  timeout : Nat
  /-- By how much the messages sent may outnumber the replies. -/
  threshold : Nat
  capacity : Nat
deriving DecidableEq, Inhabited

inductive Event
  | connected (address : String)
  | connectFailed (reason : String)
  | disconnected
  | reconnecting
  | destroyed
deriving DecidableEq, Inhabited

inductive Entry
  | event (e : Event)
  | dialled (address : String)
  | accepted (o : Outbound)
  /-- A send that had waited for room has returned. -/
  | admitted (ticket : Nat)
  | taken (o : Outbound)
  | written (id : Nat) (o : Outbound)
  /-- Writing a message failed, and the message is lost. -/
  | lost (o : Outbound)
  | counted (payload : String)
  | delivered (listener : Nat) (payload : String)
deriving DecidableEq, Inhabited

inductive Sender
  | starting
  /-- An attempt to reach the session manager hangs. -/
  | dialling
  /-- The greeting is sent; the watchdog expires at `deadline`, or has expired. -/
  | awaiting (manager : Nat) (deadline : Nat) (expired : Bool)
  /-- Accepted, but the attempt to reach the session's own address hangs. -/
  | joining (manager : Nat)
  /-- Sends to the session manager and, if it has a connection of its own, to the session. -/
  | forwarding (manager : Nat) (session : Option Nat)
  | ended
deriving DecidableEq, Inhabited

/-- The connections of which the sender has the half to send. -/
def Sender.sinks : Sender → List Nat
  | .awaiting manager .. | .joining manager => [manager]
  | .forwarding manager session => manager :: session.toList
  | .starting | .dialling | .ended => []

inductive Receiver
  /-- Waits for the sender to hand it a connection. -/
  | waiting
  | handed (id : Nat)
  | reading (id : Nat)
  | ended
deriving DecidableEq, Inhabited

structure Episode where
  sender : Sender := .starting
  receiver : Receiver := .waiting
  /-- How many of the two tasks and of the connections of the sender are in use. -/
  inUse : Nat := 2
  /-- One of the two tasks has told the other to stop. -/
  stopped : Bool := false
  connectFailed : Bool := false
deriving DecidableEq, Inhabited

structure State where
  settings : Settings
  network : Network := {}
  /-- Milliseconds since the session was built. -/
  clock : Nat := 0
  monitor : Monitor := {}
  sendPhase : Phase := .new
  receivePhase : Phase := .new
  releasePhase : Phase := .finished
  sent : Nat := 0
  received : Nat := 0
  /-- The next reply is counted and not delivered. -/
  suppressNext : Bool := false
  /-- The application has sent since the episode started. -/
  sendRequested : Bool := false
  queue : List Outbound := []
  /-- The end of the queue from which messages are taken is here, no sender has it. -/
  queueHome : Bool := true
  /-- Sends that wait for room in the queue, each with the ticket it returns under. -/
  waiting : List (Nat × Outbound) := []
  episode : Option Episode := none
  reconnectDue : Bool := false
  /-- The application has closed the session, or has been shut down. -/
  closing : Bool := false
  rootStopped : Bool := false
  destroyed : Bool := false
  /-- How often the application was told that the session is destroyed. -/
  destroyedCalls : Nat := 0
  listener : Option Nat := none
  journal : List Entry := []
deriving Inhabited

namespace State

def log (e : Entry) (s : State) : State := { s with journal := s.journal ++ [e] }
def emit (e : Event) (s : State) : State := s.log (.event e)
def report (f : Fault) (s : State) : State := { s with monitor := s.monitor.report f }

def deliver (payload : String) (s : State) : State :=
  match s.listener with
  | some k => s.log (.delivered k payload)
  | none => s

/-- Nothing new may begin. -/
def isCancelled (s : State) : Bool := s.rootStopped || s.monitor.cancelled

/-- The tasks of the episode have to stop. -/
def isStopped (e : Episode) (s : State) : Bool := e.stopped || s.isCancelled

/-- Whether the messages sent outnumber the replies by too much. -/
def isTripped (s : State) : Bool := s.settings.threshold < s.sent - s.received

def events (s : State) : List Event :=
  s.journal.filterMap fun
    | .event e => some e
    | _ => none

end State
end Majordomo.Client
