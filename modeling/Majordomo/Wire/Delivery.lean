import Majordomo.Wire.Command
import Majordomo.Fault

/-! # Messages that the broker sends out -/
namespace Majordomo.Wire

inductive BrokerCommand
  | request (envelope : Envelope)
  | heartbeat
  | disconnect
deriving DecidableEq, Inhabited

/-- What a client hears from the broker: the service that answers, and its answer. -/
structure ClientReply where
  service : String
  body : Message
deriving DecidableEq, Inhabited

/-- The part of a reply that the application sees: its last frame. -/
def ClientReply.payload (r : ClientReply) : String := r.body.lastText

/-- Reads the frames before the content: an empty frame and the role `role`, else `wrong`. -/
def afterRole (role : String) (wrong : Violation) : Message → Except Violation Message
  | [] => .error .missingDelimiter
  | [_] => .error .missingRole
  | delimiter :: header :: rest =>
    if delimiter.isEmpty ∧ header = .ofText role then .ok rest else .error wrong

def BrokerCommand.ofFrames (frames : Message) : Except Violation BrokerCommand :=
  match afterRole workerRole .notForWorker frames with
  | .error v => .error v
  | .ok [] => .error .missingCommand
  | .ok (command :: rest) =>
    match Command.ofFrame? command with
    | some .request =>
      match Envelope.ofFrames? 1 rest with
      | some e => .ok (.request e)
      | none => .error .requestWithoutEnvelope
    | some .heartbeat => .ok .heartbeat
    | some .disconnect => .ok .disconnect
    | _ => .error (.unexpectedCommand command)

def ClientReply.ofFrames (frames : Message) : Except Violation ClientReply :=
  match afterRole clientRole .notForClient frames with
  | .error v => .error v
  | .ok [] => .error .missingService
  | .ok (service :: body) => .ok ⟨service.toText, body⟩

end Majordomo.Wire
