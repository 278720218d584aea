import Majordomo.Wire.Command
import Majordomo.Fault

/-! # Messages that reach the broker -/
namespace Majordomo.Wire

inductive WorkerCommand
  | ready (service : String)
  | reply (envelope : Envelope)
  | heartbeat
  | disconnect
  /-- A shutdown notice, with the service it names after the marker. -/
  | shutdown (envelope : Envelope) (service : Option String)
  /-- A frame that is no command of a worker. -/
  | unknown (command : Frame)
deriving DecidableEq, Inhabited

/-- A message by the role of its sender. -/
inductive Inbound
  | client (service : Frame) (body : Message)
  | worker (command : WorkerCommand)
deriving DecidableEq, Inhabited

/-- Takes a last frame that begins with the service marker off the frames. -/
def splitMarker (frames : Message) : Message × Option String :=
  match frames.getLast? with
  | some last =>
    if last.startsWith serviceMarker then
      (frames.dropLast, some (String.ofList (last.toText.toList.drop serviceMarker.length)))
    else (frames, none)
  | none => (frames, none)

def WorkerCommand.ofFrames (command : Frame) (rest : Message) : Except Violation WorkerCommand :=
  match Command.ofFrame? command with
  | some .ready =>
    match rest with
    | service :: _ => .ok (.ready service.toText)
    | [] => .error .readyWithoutService
  | some .reply =>
    match Envelope.ofFrames? 1 rest with
    | some e => .ok (.reply e)
    | none => .error .replyWithoutEnvelope
  | some .heartbeat => .ok .heartbeat
  | some .disconnect => .ok .disconnect
  | some .shutdown =>
    match Envelope.ofFrames? 1 (splitMarker rest).1 with
    | some e => .ok (.shutdown e (splitMarker rest).2)
    | none => .error .shutdownWithoutEnvelope
  | some .request | none => .ok (.unknown command)

def Inbound.ofFrames : Message → Except Violation Inbound
  | [] => .error .missingDelimiter
  | delimiter :: frames =>
    if !delimiter.isEmpty then .error .delimiterNotEmpty
    else match frames with
      | [] => .error .missingRole
      | role :: rest =>
        if role = .ofText clientRole then
          match rest with
          | service :: frame :: body => .ok (.client service (frame :: body))
          | _ => .error .shortClientMessage
        else if role = .ofText workerRole then
          match rest with
          | [] => .error .missingWorkerCommand
          | command :: rest => (WorkerCommand.ofFrames command rest).map .worker
        else .error (.unknownRole role)

end Majordomo.Wire
