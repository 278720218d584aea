import Majordomo.Frame

/-! # Faults

What can go wrong, by cause, and the wording of each cause. A recoverable fault is
dealt with where it arises, by dropping a message or a connection; the others are
for the error policy to judge.
-/
namespace Majordomo

/-- Why a message or its sender breaks the wire protocol. -/
inductive Violation
  | missingDelimiter
  | delimiterNotEmpty
  | missingRole
  | unknownRole (role : Frame)
  | shortClientMessage
  | missingWorkerCommand
  | readyWithoutService
  | replyWithoutEnvelope
  | shutdownWithoutEnvelope
  | notForWorker
  | missingCommand
  | requestWithoutEnvelope
  | unexpectedCommand (command : Frame)
  | notForClient
  | missingService
  | unregistered (command : String) (worker : String)
  | requestWithoutClient
  | unreadableHandshake
  | other (reason : String)
deriving DecidableEq, Inhabited

def serializationText : String := "Serialization error: "

def Violation.message : Violation → String
  | missingDelimiter => "missing delimiter"
  | delimiterNotEmpty => "first frame is not an empty delimiter"
  | missingRole => "missing role header"
  | unknownRole role => "unknown role header " ++ role.shown
  | shortClientMessage => "client message needs service and body"
  | missingWorkerCommand => "missing worker command"
  | readyWithoutService => "READY without service name"
  | replyWithoutEnvelope => "REPLY without envelope"
  | shutdownWithoutEnvelope => "SHUTDOWN without envelope"
  | notForWorker => "not a worker message"
  | missingCommand => "missing command"
  | requestWithoutEnvelope => "REQUEST without envelope"
  | unexpectedCommand command => "unexpected command " ++ command.shown
  | notForClient => "not a client message"
  | missingService => "missing service"
  | unregistered command worker => command ++ " from unregistered worker " ++ worker
  | requestWithoutClient => "REQUEST without client address"
  | unreadableHandshake => "handshake reply: " ++ serializationText
  | other reason => reason

inductive Fault
  | transport (reason : String)
  | interrupted
  | violation (cause : Violation)
  /-- The session manager at `address` kept silent for `timeout` milliseconds. -/
  | handshakeTimeout (address : String) (timeout : Nat)
  | rejected (reason : String)
  | configuration (reason : String)
  | closed
  | io (reason : String)
  /-- A text is not the JSON that was asked for. -/
  | serialization
deriving DecidableEq, Inhabited

namespace Fault

def message : Fault → String
  | transport reason => "Transport error: " ++ reason
  | interrupted => "Transport interrupted"
  | violation cause => "Protocol violation: " ++ cause.message
  | handshakeTimeout address timeout =>
    "No response from server " ++ address ++ " within " ++ toString timeout ++ " ms"
  | rejected reason => "Connect rejected by session manager: " ++ reason
  | configuration reason => "Config error: " ++ reason
  | closed => "Controller closed"
  | io reason => "IO error: " ++ reason
  | serialization => serializationText

/-- Whether the fault is dealt with where it arises. -/
def isRecoverable : Fault → Bool
  | transport _ | interrupted | violation _ | handshakeTimeout .. | rejected _ | closed => true
  | configuration _ | io _ | serialization => false

def refused (address : String) : Fault := .transport ("connection refused: " ++ address)

def statusNames : List String :=
  ["Ok", "Cancelled", "Unknown", "InvalidArgument", "DeadlineExceeded", "NotFound",
    "AlreadyExists", "PermissionDenied", "ResourceExhausted", "FailedPrecondition", "Aborted",
    "OutOfRange", "Unimplemented", "Internal", "Unavailable", "DataLoss", "Unauthenticated"]

/-- A call that ended with a status; a code outside the table counts as unknown. -/
def ofStatus (code : Nat) (text : String) : Fault :=
  .transport ("status: " ++ statusNames.getD code "Unknown" ++ ", message: " ++
    Text.Quoted.text text ++ ", details: [], metadata: MetadataMap \x7b headers: \x7b\x7d \x7d")

end Fault
end Majordomo
