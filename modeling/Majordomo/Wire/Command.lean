import Majordomo.Envelope

/-! # The words of the wire protocol and the messages built from them

Every message starts with an empty frame and a role. A client message goes on with
a service name and a body; a worker message with a one-byte command:

    client  [""][MDPC01][service][body...]
    worker  [""][MDPW01][READY][service]
            [""][MDPW01][REQUEST or REPLY][client][""][body...]
            [""][MDPW01][HEARTBEAT or DISCONNECT]
            [""][MDPW01][SHUTDOWN][client][""][body...][SERVICE_NAME:x]
-/
namespace Majordomo.Wire

def clientRole : String := "MDPC01"
def workerRole : String := "MDPW01"

/-- The broker itself answers for services whose name begins so. -/
def internalPrefix : String := "mmi."
/-- The internal service that knows whether a service is registered. -/
def serviceQuery : String := "mmi.service"
/-- The last frame of a shutdown notice names its service after this marker. -/
def serviceMarker : String := "SERVICE_NAME:"

/-- Whether the broker itself answers for the service. -/
def isInternal (name : String) : Bool := internalPrefix.toList.isPrefixOf name.toList

inductive Command
  | ready
  | request
  | reply
  | heartbeat
  | disconnect
  | shutdown
deriving DecidableEq, Inhabited

namespace Command

def code : Command → UInt8
  | ready => 1
  | request => 2
  | reply => 3
  | heartbeat => 4
  | disconnect => 5
  | shutdown => 6

def frame (c : Command) : Frame := ⟨[c.code]⟩

def ofFrame? (f : Frame) : Option Command :=
  match f.bytes with
  | [1] => some ready
  | [2] => some request
  | [3] => some reply
  | [4] => some heartbeat
  | [5] => some disconnect
  | [6] => some shutdown
  | _ => none

end Command

/-- A message between a client and the broker, in both directions. -/
def clientMessage (service : Frame) (body : Message) : Message :=
  .empty :: .ofText clientRole :: service :: body

/-- A message between a worker and the broker, in both directions. -/
def workerMessage (command : Command) (rest : Message) : Message :=
  .empty :: .ofText workerRole :: command.frame :: rest

def ready (service : String) : Message := workerMessage .ready [.ofText service]
def heartbeat : Message := workerMessage .heartbeat []
def disconnect : Message := workerMessage .disconnect []
def request (e : Envelope) : Message := workerMessage .request e.toFrames
def reply (e : Envelope) : Message := workerMessage .reply e.toFrames

/-- A notice that a worker shuts down, with the name of its service if it gives one. -/
def shutdown (e : Envelope) (service : Option String) : Message :=
  workerMessage .shutdown
    (e.toFrames ++ (service.map fun s => Frame.ofText (serviceMarker ++ s)).toList)

end Majordomo.Wire
