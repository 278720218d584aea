import Majordomo.Router.Peer

/-! # The router

The router gives every peer an identity of its own, tags what peers send with it and
hands it to the broker, and hands the broker's messages to the peers. It never waits
for a peer.
-/
namespace Majordomo

structure Router where
  /-- How many messages may wait for one peer. -/
  capacity : Nat
  /-- Every peer that was ever opened, by number. -/
  peers : List Peer := []
  /-- The broker still takes messages. -/
  isOpen : Bool := true
  /-- What the broker has not taken yet, each with its sender, oldest first. -/
  inbound : List (Frame × Message) := []
deriving DecidableEq, Inhabited

namespace Router

/-- A router without peers; for each of them one message may wait at least. -/
def start (capacity : Nat) : Router := { capacity := max 1 capacity }

def peer? (n : Nat) (r : Router) : Option Peer := r.peers[n]?

def update (n : Nat) (f : Peer → Peer) (r : Router) : Router :=
  { r with peers := r.peers.modify n f }

def peerCount (r : Router) : Nat := (r.peers.filter (·.registered)).length

def connect (r : Router) : Nat × Router := (r.peers.length, { r with peers := r.peers ++ [{}] })

/-- Hands a complete message to the broker. If the broker takes none the peer is finished. -/
def hand (n : Nat) (m : Message) (rest : List UInt8) (r : Router) : Router :=
  if r.isOpen then
    { r.update n ({ · with buffer := rest }) with
      inbound := r.inbound ++ [(Peer.identity n, m)] }
  else r.update n Peer.finish

/-- Takes the complete messages of a peer's buffer, at most `k`. -/
def collect (n : Nat) : Nat → Router → Router
  | 0, r => r
  | k + 1, r =>
    match r.peer? n with
    | none => r
    | some p =>
      if p.reading then
        match Framing.next p.buffer with
        | .incomplete => r
        | .broken => r.update n Peer.finish
        | .message m rest => collect n k (r.hand n m rest)
      else r

/-- Takes bytes that a peer sends; `none` if nothing reads them any more. -/
def receive (n : Nat) (bytes : List UInt8) (r : Router) : Option Router :=
  match r.peer? n with
  | none => none
  | some p =>
    if p.reading then
      let r := r.update n fun p => { p with buffer := p.buffer ++ bytes }
      some (r.collect n (p.buffer.length + bytes.length))
    else none

def finish (n : Nat) (r : Router) : Router :=
  r.update n fun p => if p.reading then p.finish else p

def leave (n : Nat) (r : Router) : Router := r.update n Peer.leave

def read (n : Nat) (r : Router) : List Message × Router :=
  (((r.peer? n).map (·.outbox)).getD [], r.update n ({ · with outbox := [] }))

/-- Sends a message to the peer with an identity; without one it is lost. -/
def send (identity : Frame) (m : Message) (r : Router) : Router :=
  { r with
    peers := r.peers.mapIdx fun n p =>
      if p.registered && Peer.identity n = identity then p.offer r.capacity m else p }

def closeAll (r : Router) : Router :=
  { r with peers := r.peers.map ({ · with registered := false }) }

def closeInbound (r : Router) : Router := { r with isOpen := false, inbound := [] }

def drain (r : Router) : List (Frame × Message) × Router := (r.inbound, { r with inbound := [] })

end Router
end Majordomo
