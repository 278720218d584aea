import Majordomo.Json.Skip
import Majordomo.Json.Quote
import Majordomo.Fault

/-! # Session messages

What a client and the session manager say to each other, as JSON. `toJson` writes
the members in a fixed order; `ofJson` reads an object with the members in any
order and others among them, or an array of the members in the order of writing.
-/
namespace Majordomo

/-- A message between a client and the session manager. -/
structure SessionMessage where
  requestType : String
  sessionId : String
  url : String := ""
  payload : String := ""
  messageId : Option String := none
deriving DecidableEq, Inhabited

namespace SessionMessage

def requestConnect : String := "REQUEST_CONNECT"
def requestDisconnect : String := "REQUEST_DISCONNECT"
def sessionInitiated : String := "SESSION_INITIATED"
/-- The payload that tells a client to stop receiving. -/
def stopPayload : String := "STOP_FLAG"

/-- The replies with which the session manager refuses a client. -/
def rejections : List String :=
  ["RESPONSE_ALREADY_CONNECTED", "RESPONSE_NOT_VALID_OPERATION", "RESPONSE_UNKNOWN_SESSION"]

def isRejection (m : SessionMessage) : Bool := rejections.contains m.requestType

/-! ## Writing -/

def memberText (name value : String) : List Char :=
  Json.quote name.toList ++ ':' :: Json.quote value.toList

/-- The message as a JSON object; an absent message id is left out. -/
def toJson (m : SessionMessage) : String :=
  let members := [memberText "requestType" m.requestType, memberText "sessionId" m.sessionId,
    memberText "url" m.url, memberText "payload" m.payload] ++
    (m.messageId.map (memberText "messageId")).toList
  String.ofList ('\x7b' :: [','].intercalate members ++ ['\x7d'])

/-! ## Reading -/

structure Members where
  requestType : Option String := none
  sessionId : Option String := none
  url : Option String := none
  payload : Option String := none
  messageId : Option (Option String) := none

/-- The message, if the members that every message has were read. -/
def Members.message? (m : Members) : Option SessionMessage := do
  return { requestType := ← m.requestType, sessionId := ← m.sessionId, url := m.url.getD "",
           payload := m.payload.getD "", messageId := m.messageId.getD none }

open Json (Token)

def text? : List Token → Option (String × List Token)
  | .string pieces :: rest => (Json.textOf? pieces).map fun s => (String.ofList s, rest)
  | _ => none

def textOrNull? : List Token → Option (Option String × List Token)
  | .null :: rest => some (none, rest)
  | ts => (text? ts).map fun (s, rest) => (some s, rest)

/-- Reads the value of a member with `read`, unless the member has one already. -/
def once? {α : Type} (old : Option α) (read : List Token → Option (α × List Token))
    (put : α → Members) (ts : List Token) : Option (Members × List Token) :=
  if old.isSome then none else (read ts).map fun (a, rest) => (put a, rest)

/-- Reads the value of the member `name`; a member of another name is passed over. -/
def member? (name : String) (m : Members) (ts : List Token) : Option (Members × List Token) :=
  if name = "requestType" then
    once? m.requestType text? (fun s => { m with requestType := some s }) ts
  else if name = "sessionId" then
    once? m.sessionId text? (fun s => { m with sessionId := some s }) ts
  else if name = "url" then once? m.url text? (fun s => { m with url := some s }) ts
  else if name = "payload" then once? m.payload text? (fun s => { m with payload := some s }) ts
  else if name = "messageId" then
    once? m.messageId textOrNull? (fun s => { m with messageId := some s }) ts
  else (Json.skipValue ts).map (m, ·)

theorem text?_length {ts rest : List Token} {s : String} (h : text? ts = some (s, rest)) :
    rest.length < ts.length := by
  unfold text? at h
  split at h
  · simp only [Option.map_eq_some_iff, Prod.mk.injEq] at h
    obtain ⟨_, _, _, rfl⟩ := h
    simp
  · simp at h

theorem textOrNull?_length {ts rest : List Token} {s : Option String}
    (h : textOrNull? ts = some (s, rest)) : rest.length < ts.length := by
  unfold textOrNull? at h
  split at h
  · simp_all
  · simp only [Option.map_eq_some_iff, Prod.mk.injEq, Prod.exists] at h
    obtain ⟨_, _, hr, _, rfl⟩ := h
    exact text?_length hr

theorem once?_length {α : Type} {old : Option α} {read : List Token → Option (α × List Token)}
    {put : α → Members} {m : Members} {ts rest : List Token}
    (hread : ∀ {a : α} {rest : List Token}, read ts = some (a, rest) → rest.length < ts.length)
    (h : once? old read put ts = some (m, rest)) : rest.length < ts.length := by
  unfold once? at h
  split at h
  · simp at h
  · simp only [Option.map_eq_some_iff, Prod.mk.injEq, Prod.exists] at h
    obtain ⟨_, _, hr, _, rfl⟩ := h
    exact hread hr

theorem member?_length {name : String} {m m' : Members} {ts rest : List Token}
    (h : member? name m ts = some (m', rest)) : rest.length < ts.length := by
  unfold member? at h
  repeat' split at h
  · exact once?_length text?_length h
  · exact once?_length text?_length h
  · exact once?_length text?_length h
  · exact once?_length text?_length h
  · exact once?_length textOrNull?_length h
  · simp only [Option.map_eq_some_iff, Prod.mk.injEq] at h
    obtain ⟨_, hr, _, rfl⟩ := h
    exact Json.skipValue_length hr

/-- Reads the members of an object from the first name on, and the end of the object. -/
def members? (m : Members) (ts : List Token) : Option (Members × List Token) :=
  match ts with
  | .string pieces :: .colon :: rest =>
    match Json.textOf? pieces with
    | none => none
    | some name =>
      match _h : member? (String.ofList name) m rest with
      | some (m, .comma :: rest) => members? m rest
      | some (m, .closeObject :: rest) => some (m, rest)
      | _ => none
  | _ => none
termination_by ts.length
decreasing_by
  have := member?_length _h
  simp only [List.length_cons] at this ⊢
  omega

/-- Reads the member after a comma, unless the array ends here. -/
def item? {α : Type} (read : List Token → Option (α × List Token)) :
    List Token → Option (Option α × List Token)
  | .closeArray :: rest => some (none, .closeArray :: rest)
  | .comma :: rest => (read rest).map fun (a, rest) => (some a, rest)
  | _ => none

def items? (ts : List Token) : Option (Members × List Token) := do
  let (requestType, ts) ← text? ts
  let (sessionId, ts) ← item? text? ts
  let (url, ts) ← item? text? ts
  let (payload, ts) ← item? text? ts
  let (messageId, ts) ← item? textOrNull? ts
  match ts with
  | .closeArray :: rest =>
    return ({ requestType := some requestType, sessionId, url, payload, messageId }, rest)
  | _ => none

def ofTokens? (ts : List Token) : Option SessionMessage :=
  match ts with
  | .openObject :: .closeObject :: [] => Members.message? {}
  | .openObject :: rest =>
    match members? {} rest with
    | some (m, []) => m.message?
    | _ => none
  | .openArray :: rest =>
    match items? rest with
    | some (m, []) => m.message?
    | _ => none
  | _ => none

def ofJson (s : String) : Except Fault SessionMessage :=
  match (Json.tokens? s.toList).bind ofTokens? with
  | some m => .ok m
  | none => .error .serialization

end SessionMessage
end Majordomo
