import Majordomo.Router.Framing

/-! # Peers of a router

A peer is an open pair of streams. Through the first it sends, through the second it
is sent to. Each of the two may end before the other.
-/
namespace Majordomo

structure Peer where
  /-- What the peer has sent of a message that is not complete yet. -/
  buffer : List UInt8 := []
  /-- The router still reads what the peer sends. -/
  reading : Bool := true
  /-- The router knows the peer by its identity. -/
  registered : Bool := true
  /-- What the peer has not read yet, oldest first. -/
  outbox : List Message := []
  /-- The peer may still read. -/
  listening : Bool := true
deriving DecidableEq, Inhabited

namespace Peer

/-- The identity of the peer that was opened as number `n`, from 0. -/
def identity (n : Nat) : Frame := ⟨Bytes.bigEndian 8 (n + 1)⟩

/-- The router reads no more, and forgets the peer. -/
def finish (p : Peer) : Peer := { p with reading := false, registered := false, buffer := [] }

def leave (p : Peer) : Peer := { p with listening := false, outbox := [] }

def isEnded (p : Peer) : Bool := !p.listening || !p.registered

/-- Offers the peer a message, of which `capacity` may wait. One that has left is forgotten, and
one that has too many waiting misses the message. -/
def offer (capacity : Nat) (m : Message) (p : Peer) : Peer :=
  if !p.listening then { p with registered := false }
  else if p.outbox.length < capacity then { p with outbox := p.outbox ++ [m] }
  else p

end Peer
end Majordomo
