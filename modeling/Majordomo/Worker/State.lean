import Majordomo.Link
import Majordomo.Monitor
import Majordomo.Wire.Delivery

/-! # The state of a worker session

A worker keeps one service registered with the broker. On a connection it announces
itself, answers requests one at a time and says now and then that it is alive. When
a connection ends it waits a while and opens another.
-/
namespace Majordomo.Worker

/-- What the application makes of a request, and how long it takes. -/
structure Work where
  /-- In milliseconds. -/
  delay : Nat := 0
  result : Except Fault Message
deriving Inhabited

/-- Answers requests: which call it is, the client and the body of its request. -/
abbrev Handler := Nat → Frame → Message → Work

structure Settings where
  service : String
  address : String
  /-- Milliseconds between two signs of life; zero counts as one. -/
  interval : Nat
  /-- How many intervals of silence the broker is granted. -/
  liveness : Nat
  /-- How long to wait before another connection is opened, in milliseconds. -/
  delay : Nat
  handler : Handler
deriving Inhabited

def Settings.period (c : Settings) : Nat := max 1 c.interval

/-- What the application wants a client to be told when the service shuts down. -/
structure Notice where
  client : Frame
  body : Message
deriving DecidableEq, Inhabited

/-- How many notices may wait. -/
def slots : Nat := 16

inductive Output
  | ready
  | heartbeat
  | reply (e : Envelope)
  | shutdown (n : Notice)
  | disconnect
deriving DecidableEq, Inhabited

def Output.frames (service : String) : Output → Message
  | ready => Wire.ready service
  | heartbeat => Wire.heartbeat
  | reply e => Wire.reply e
  | shutdown n => Wire.shutdown ((Envelope.ofBody n.body).wrap n.client) (some service)
  | disconnect => Wire.disconnect

inductive Exit
  | stopped
  | dismissed
  /-- The broker has been silent for too long. -/
  | silence
  | fault (f : Fault)
deriving DecidableEq, Inhabited

inductive Entry
  | dialled
  | opened (id : Nat)
  | wrote (id : Nat) (o : Output)
  | heard (id : Nat) (frames : Message)
  | called (client : Frame) (body : Message)
  | reported (f : Fault)
  | left (id : Nat) (why : Exit)
deriving DecidableEq, Inhabited

/-- How a worker watches time while it serves a connection. -/
structure Vigil where
  /-- How many more intervals of silence the broker is granted. -/
  liveness : Nat
  waitUntil : Nat
  /-- The earliest time of the next sign of life. -/
  heartbeatAt : Nat
deriving DecidableEq, Inhabited

inductive Stage
  | dialling
  /-- An attempt to connect hangs. -/
  | hanging
  | serving (id : Nat) (v : Vigil)
  /-- The handler will have an answer for the envelope at a time. -/
  | handling (id : Nat) (v : Vigil) (e : Envelope) (result : Except Fault Message) (done : Nat)
  | pausing (wake : Nat)
  | stopped
deriving Inhabited

structure State where
  settings : Settings
  network : Network := {}
  /-- Milliseconds since the worker was started. -/
  clock : Nat := 0
  monitor : Monitor := {}
  stage : Stage := .dialling
  notices : List Notice := []
  stopAsked : Bool := false
  calls : Nat := 0
  /-- What has happened and when, oldest first. -/
  journal : List (Nat × Entry) := []
deriving Inhabited

namespace State

def log (e : Entry) (s : State) : State := { s with journal := s.journal ++ [(s.clock, e)] }

def isStopping (s : State) : Bool := s.stopAsked || s.monitor.cancelled

def isStopped (s : State) : Bool :=
  match s.stage with
  | .stopped => true
  | _ => false

def report (f : Fault) (s : State) : State :=
  { s with monitor := s.monitor.report f }.log (.reported f)

def write (id : Nat) (o : Output) (s : State) : Except Fault State :=
  (s.network.send id (o.frames s.settings.service)).map fun network =>
    { s with network }.log (.wrote id o)

end State
end Majordomo.Worker
