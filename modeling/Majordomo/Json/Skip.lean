import Majordomo.Json.Token

/-! # Passing over a JSON value

The value is checked against the grammar of JSON and otherwise ignored. The
brackets that are open are kept on a stack, so values may nest to any depth.
-/
namespace Majordomo.Json

inductive Bracket
  | object
  | array
deriving DecidableEq, Inhabited

inductive Expected
  | value
  /-- A value, or the end of the array just opened. -/
  | firstItem
  /-- A name, or the end of the object just opened. -/
  | firstName
  | name
  | colon
  /-- A comma, or the end of the innermost array or object. -/
  | more
deriving DecidableEq, Inhabited

/-- Where the reader stands after a token. -/
inductive Progress
  | refused
  /-- The value that was asked for is complete. -/
  | complete
  | inside (expected : Expected) (stack : List Bracket)
deriving DecidableEq, Inhabited

/-- After the end of a value inside the brackets of `stack`. -/
def valueEnded (stack : List Bracket) : Progress :=
  if stack.isEmpty then .complete else .inside .more stack

def beginValue (stack : List Bracket) : Token → Progress
  | .openObject => .inside .firstName (.object :: stack)
  | .openArray => .inside .firstItem (.array :: stack)
  | .string _ | .null | .scalar => valueEnded stack
  | _ => .refused

def advance (stack : List Bracket) : Expected → Token → Progress
  | .value, t => beginValue stack t
  | .firstItem, .closeArray => valueEnded stack.tail
  | .firstItem, t => beginValue stack t
  | .firstName, .closeObject => valueEnded stack.tail
  | .firstName, .string _ | .name, .string _ => .inside .colon stack
  | .colon, .colon => .inside .value stack
  | .more, t =>
    match t, stack with
    | .comma, .array :: _ => .inside .value stack
    | .comma, .object :: _ => .inside .name stack
    | .closeArray, .array :: outer => valueEnded outer
    | .closeObject, .object :: outer => valueEnded outer
    | _, _ => .refused
  | _, _ => .refused

/-- Passes over tokens until the value is complete, and gives those that follow it. -/
def skip (expected : Expected) (stack : List Bracket) : List Token → Option (List Token)
  | [] => none
  | t :: ts =>
    match advance stack expected t with
    | .refused => none
    | .complete => some ts
    | .inside expected stack => skip expected stack ts

def skipValue (ts : List Token) : Option (List Token) := skip .value [] ts

theorem skip_length {expected : Expected} {stack : List Bracket} {ts rest : List Token}
    (h : skip expected stack ts = some rest) : rest.length < ts.length := by
  induction ts generalizing expected stack with
  | nil => simp [skip] at h
  | cons t ts ih =>
    unfold skip at h
    split at h
    · simp at h
    · simp_all
    · exact Nat.lt_succ_of_lt (ih h)

theorem skipValue_length {ts rest : List Token} (h : skipValue ts = some rest) :
    rest.length < ts.length := skip_length h

end Majordomo.Json
