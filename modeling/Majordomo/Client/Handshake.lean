import Majordomo.Client.State
import Majordomo.SessionMessage
import Majordomo.Wire.Delivery

/-! # Greeting the session manager -/
namespace Majordomo.Client

/-- The message with which a session asks to be connected. -/
def Settings.greeting (c : Settings) : Message :=
  let request : SessionMessage :=
    { requestType := c.requestType, sessionId := c.name, url := c.address,
      payload := Json.quoteAll c.subscriptions }
  Wire.clientMessage (.ofText c.manager) [.ofText request.toJson]

/-- An acceptance: the payload, and what it says. -/
structure Acceptance where
  payload : String
  reply : SessionMessage
deriving DecidableEq, Inhabited

/-- Reads the session manager's answer; whatever is not an acceptance is a fault. -/
def Acceptance.ofFrames (frames : Message) : Except Fault Acceptance :=
  match Wire.ClientReply.ofFrames frames with
  | .error v => .error (.violation v)
  | .ok r =>
    if r.payload = SessionMessage.stopPayload then .error (.rejected SessionMessage.stopPayload)
    else match SessionMessage.ofJson r.payload with
      | .error _ => .error (.violation .unreadableHandshake)
      | .ok reply =>
        if reply.isRejection then .error (.rejected reply.requestType)
        else .ok { payload := r.payload, reply }

/-- The address of the session's own connection, if it is to have one. -/
def Acceptance.sessionAddress? (server : String) (a : Acceptance) : Option String :=
  if a.reply.requestType = SessionMessage.sessionInitiated ∧ a.reply.payload ≠ "" ∧
      a.reply.payload ≠ server then some a.reply.payload
  else none

end Majordomo.Client
