import Majordomo.Proofs.Mediator.Runs
import Majordomo.Proofs.Text.Hex
import Majordomo.Proofs.Wire.Agreement
import Majordomo.Worker.Session

/-! # Shutdown notices

A worker that shuts down may have a client told. Its notice names a service at the end, and the
broker takes that name off from behind before it reads the rest, so the body may hold anything.
-/
namespace Majordomo.Broker.Mediator
variable {m : Mediator}

/-- The service in whose name the broker passes a notice on: the one that its sender is bound to,
else the one that it names. -/
def spokenFor (peer : Frame) (named : String) (m : Mediator) : String :=
  ((m.workers.get? peer.hex).map (·.service)).getD named

theorem spokenFor_of_get? {peer : Frame} {w : Worker} (h : m.workers.get? peer.hex = some w)
    (named : String) : m.spokenFor peer named = w.service := by
  simp only [spokenFor, h, Option.map_some, Option.getD_some]

theorem spokenFor_of_not_contains {peer : Frame} (h : m.workers.contains peer.hex = false)
    (named : String) : m.spokenFor peer named = named := by
  have hw : m.workers.get? peer.hex = none := by simpa [Table.contains] using h
  simp only [spokenFor, hw, Option.map_none, Option.getD_none]

/-- A notice that names a service is passed on, whoever sends it. -/
theorem handle_shutdown {e : Envelope} (he : e.depth = 1) (peer : Frame) (named : String)
    (now : Nat) (m : Mediator) :
    m.handle peer (Wire.shutdown e (some named)) now =
      (m.forward (m.spokenFor peer named) e,none) := by
  simp only [handle, Wire.Inbound.ofFrames_shutdown_some he, command, spokenFor]
  cases m.workers.get? peer.hex with
  | none => rfl
  | some w => rfl

/-- What a worker writes to have a client told goes to that client with its body, whatever the
body is, and nothing else changes: the services with their queues and flags, the workers with
their bindings and expiries, the idle workers and the time of the next probe stay. It comes in
the name of the service that its sender is bound to, and of the worker's own if the sender is not
registered. -/
theorem notices_reach_clients (interval lifetime now : Nat) (ops : List Operation) (peer : Frame)
    (n : Worker.Notice) (service : String) (time : Nat) :
    let m := (start interval lifetime now).run ops
    ∃ reply name,
      m.handle peer ((Worker.Output.shutdown n).frames service) time =
        ({ m with outbox := m.outbox ++ [⟨n.client,reply⟩] },none) ∧
      Wire.ClientReply.ofFrames reply = .ok ⟨name,n.body⟩ ∧
      (∀ w, m.workers.get? peer.hex = some w → w.identity = peer ∧ name = w.service) ∧
      (m.workers.contains peer.hex = false → name = service) := by
  intro m
  have h : m.Consistent := (consistent_start interval lifetime now).run ops
  refine ⟨Wire.clientMessage (.ofText (m.spokenFor peer service)) n.body,
    m.spokenFor peer service,?_,?_,?_,?_⟩
  · exact handle_shutdown (Envelope.depth_wrap n.client (.ofBody n.body)) peer service time m
  · exact Wire.ClientReply.ofFrames_clientMessage _ n.body
  · intro w hw
    exact ⟨Frame.hex_inj (h.keyed _ w hw).symm,spokenFor_of_get? hw service⟩
  · intro hw
    exact spokenFor_of_not_contains hw service

end Majordomo.Broker.Mediator
