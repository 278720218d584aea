import Majordomo.Frame

/-! # Routing envelopes

A stack of return addresses around a body. On the wire the addresses come first,
the outermost before the others, each followed by an empty frame.
-/
namespace Majordomo

/-- A body and the addresses it returns through, outermost first. -/
structure Envelope where
  route : List Frame
  body : Message
deriving DecidableEq, Inhabited

namespace Envelope

/-- The envelope without addresses. -/
def ofBody (body : Message) : Envelope := ⟨[], body⟩

def wrap (address : Frame) (e : Envelope) : Envelope := { e with route := address :: e.route }

/-- Takes the outermost address off; without one the envelope stays. -/
def unwrap (e : Envelope) : Option Frame × Envelope :=
  (e.route.head?, { e with route := e.route.tail })

def address? (e : Envelope) : Option Frame := e.route.head?

def depth (e : Envelope) : Nat := e.route.length

/-- The same route around another body: how a request is answered. -/
def withBody (body : Message) (e : Envelope) : Envelope := { e with body }

def toFrames (e : Envelope) : Message :=
  e.route.flatMap (fun address => [address, .empty]) ++ e.body

/-- Reads `depth` addresses, each followed by an empty frame; the rest is the body. -/
def ofFrames? : Nat → Message → Option Envelope
  | 0, frames => some (ofBody frames)
  | depth + 1, address :: delimiter :: rest =>
    if delimiter.isEmpty then (ofFrames? depth rest).map (wrap address) else none
  | _ + 1, _ => none

end Envelope
end Majordomo
