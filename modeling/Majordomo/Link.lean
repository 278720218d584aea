import Majordomo.Fault

/-! # Connections and the far ends they lead to

A connection has a half to send and a half to receive; its owner gives them up one
by one. The far end is the environment's: it sends, hangs up, breaks the receiving
or stops reading, and it decides whether new connections are accepted at all.
-/
namespace Majordomo

inductive Arrival
  | message (frames : Message)
  /-- One receive fails. -/
  | failure (reason : String)
deriving DecidableEq, Inhabited

structure Link where
  address : String
  /-- What the receiving half has not taken yet, oldest first. -/
  arrivals : List Arrival := []
  hungUp : Bool := false
  /-- The far end still takes what is sent. -/
  reading : Bool := true
  /-- The owner still has the half to send. -/
  sinkHeld : Bool := true
  /-- The owner still has the half to receive. -/
  streamHeld : Bool := true
  /-- What the far end has taken, oldest first. -/
  taken : List Message := []
deriving Inhabited

namespace Link

/-- The far end sends. It cannot once either side has given the receiving up. -/
def offer (a : Arrival) (l : Link) : Option Link :=
  if l.streamHeld && !l.hungUp then some { l with arrivals := l.arrivals ++ [a] } else none

/-- Sends on a connection that has room. It fails once the far end has stopped reading. -/
def write (m : Message) (l : Link) : Except Fault Link :=
  if l.reading then .ok { l with taken := l.taken ++ [m] } else .error .interrupted

end Link

inductive Received
  | message (frames : Message)
  | failed (f : Fault)
  /-- The far end has hung up and everything it sent was taken. -/
  | ended
deriving DecidableEq, Inhabited

inductive Mode
  | accept
  | refuse
  /-- The attempt never ends. -/
  | hang
deriving DecidableEq, Inhabited

/-- The connections in the order in which they were opened. -/
structure Network where
  mode : Mode := .accept
  links : List Link := []
deriving Inhabited

inductive Dialled
  | opened (id : Nat)
  | refused (f : Fault)
  | hanging
deriving DecidableEq, Inhabited

namespace Network

def link? (id : Nat) (n : Network) : Option Link := n.links[id]?

/-- How many arrivals have not been taken yet. -/
def arrivalCount (n : Network) : Nat := n.links.foldl (fun k l => k + l.arrivals.length) 0

def update (id : Nat) (f : Link → Link) (n : Network) : Network :=
  { n with links := n.links.modify id f }

def dial (address : String) (n : Network) : Dialled × Network :=
  match n.mode with
  | .accept => (.opened n.links.length, { n with links := n.links ++ [{ address }] })
  | .refuse => (.refused (.refused address), n)
  | .hang => (.hanging, n)

/-- Receives on the connection; `none` if that has to wait. -/
def receive (id : Nat) (n : Network) : Option (Received × Network) :=
  match n.link? id with
  | none => none
  | some l =>
    match l.arrivals with
    | .message m :: rest => some (.message m, n.update id ({ · with arrivals := rest }))
    | .failure reason :: rest =>
      some (.failed (.transport reason), n.update id ({ · with arrivals := rest }))
    | [] => if l.hungUp then some (.ended, n) else none

def send (id : Nat) (m : Message) (n : Network) : Except Fault Network :=
  match n.link? id with
  | none => .error .interrupted
  | some l => (l.write m).map fun l => n.update id fun _ => l

def dropSink (id : Nat) (n : Network) : Network := n.update id ({ · with sinkHeld := false })

def dropStream (id : Nat) (n : Network) : Network := n.update id ({ · with streamHeld := false })

def drop (id : Nat) (n : Network) : Network := (n.dropSink id).dropStream id

inductive Event
  | mode (m : Mode)
  | offer (id : Nat) (a : Arrival)
  | hangUp (id : Nat)
  | stopReading (id : Nat)
deriving DecidableEq, Inhabited

inductive Outcome
  | done
  /-- The receiving was given up before, so nothing can be sent. -/
  | gone
  /-- There is no such connection yet. -/
  | unknown
deriving DecidableEq, Inhabited

def onEvent (n : Network) : Event → Outcome × Network
  | .mode m => (.done, { n with mode := m })
  | .offer id a =>
    match n.link? id with
    | none => (.unknown, n)
    | some l =>
      match l.offer a with
      | some l => (.done, n.update id fun _ => l)
      | none => (.gone, n)
  | .hangUp id =>
    if id < n.links.length then (.done, n.update id ({ · with hungUp := true })) else (.unknown, n)
  | .stopReading id =>
    if id < n.links.length then (.done, n.update id ({ · with reading := false }))
    else (.unknown, n)

end Network
end Majordomo
