import Majordomo.Toml.Moment
import Majordomo.Toml.Table
import Majordomo.Toml.Text

/-! # Statements of a document

A document is a sequence of lines, each with a header, a member, or nothing but
blanks and a comment.
-/
namespace Majordomo.Toml

/-! ## Keys -/

def isBare (c : Char) : Bool := c.isAlphanum || c = '_' || c = '-'

def keyPart? : List Char → Option (String × List Char)
  | '"' :: rest => (basic? rest).map fun (cs, rest) => (String.ofList cs, rest)
  | '\'' :: rest => (literal? rest).map fun (cs, rest) => (String.ofList cs, rest)
  | s =>
    let name := s.takeWhile isBare
    if name.isEmpty then none else some (String.ofList name, s.dropWhile isBare)

def keyOf? : Nat → List Char → Option (List String × List Char)
  | 0, _ => none
  | n + 1, s =>
    match keyPart? (skipBlanks s) with
    | none => none
    | some (part, rest) =>
      match skipBlanks rest with
      | '.' :: rest => (keyOf? n rest).map fun (parts, rest) => (part :: parts, rest)
      | rest => some ([part], rest)

/-- Neither keys nor values may be nested so deep. -/
def depthLimit : Nat := 80

def key? (s : List Char) : Option (List String × List Char) := keyOf? (depthLimit - 1) s

/-! ## Values -/

/-- Reads the items of an array after its bracket, at most `n`, each with `item`. -/
def items? (item : List Char → Option (Value × List Char)) :
    Nat → List Char → Option (List Value × List Char)
  | 0, _ => none
  | n + 1, s =>
    match skipLines false s with
    | ']' :: rest => some ([], rest)
    | s =>
      match item s with
      | none => none
      | some (v, rest) =>
        match skipLines false rest with
        | ']' :: rest => some ([v], rest)
        | ',' :: rest => (items? item n rest).map fun (vs, rest) => (v :: vs, rest)
        | _ => none

/-- Reads a member up to the end of its value, which is read with `value`. -/
def member? (value : List Char → Option (Value × List Char)) (s : List Char) :
    Option (List String × Value × List Char) :=
  match key? s with
  | some (key, '=' :: rest) =>
    (value (skipBlanks rest)).map fun (v, rest) => (key, v, rest)
  | _ => none

def insertMember (key : List String) (v : Value) (origin : Origin) (ms : Members) :
    Option Members :=
  match key.getLast? with
  | some last => (ms.put key.dropLast last v origin).map (·.2)
  | none => none

/-- Reads the members of a table that is written as a value, at most `n`, and its brace. -/
def members? (value : List Char → Option (Value × List Char)) :
    Nat → Members → List Char → Option (Members × List Char)
  | 0, _, _ => none
  | n + 1, ms, s =>
    match member? value s with
    | none => none
    | some (key, v, rest) =>
      match insertMember key v .inline ms, skipBlanks rest with
      | some ms, '\x7d' :: rest => some (ms, rest)
      | some ms, ',' :: rest => members? value n ms rest
      | _, _ => none

/-- Reads a table that is written as a value, after its brace. -/
def inlineTable? (value : List Char → Option (Value × List Char)) (s : List Char) :
    Option (Members × List Char) :=
  match skipBlanks s with
  | '\x7d' :: rest => some ([], rest)
  | s => members? value s.length [] s

def simple? (s : List Char) : Option (Value × List Char) :=
  match s with
  | '"' :: _ | '\'' :: _ => (text? s).map fun (cs, rest) => (.text (String.ofList cs), rest)
  | 't' :: 'r' :: 'u' :: 'e' :: rest => some (.boolean true, rest)
  | 'f' :: 'a' :: 'l' :: 's' :: 'e' :: rest => some (.boolean false, rest)
  | _ =>
    if Moment.isDate s then (Moment.dateTime? s).map (.moment, ·)
    else if Moment.isTime s then (Moment.time? s).map (.moment, ·)
    else number? s

/-- Reads a value with at most `depth` others around its innermost part. -/
def valueOf? : Nat → List Char → Option (Value × List Char)
  | depth + 1, '[' :: rest =>
    (items? (valueOf? depth) (rest.length + 1) rest).map fun (vs, rest) => (.array vs, rest)
  | depth + 1, '\x7b' :: rest =>
    (inlineTable? (valueOf? depth) rest).map fun (ms, rest) => (.table .inline ms, rest)
  | _, s => simple? s

def value? (s : List Char) : Option (Value × List Char) := valueOf? (depthLimit - 1) s

/-! ## Statements -/

inductive Statement
  /-- The members that follow belong to the table at a path. -/
  | header (path : List String)
  /-- The members that follow belong to another of the tables at a path. -/
  | append (path : List String)
  | member (key : List String) (v : Value)
deriving Inhabited

def statement? (s : List Char) : Option (Statement × List Char) :=
  match s with
  | '[' :: '[' :: rest =>
    match key? rest with
    | some (path, ']' :: ']' :: rest) => (lineEnd? rest).map (.append path, ·)
    | _ => none
  | '[' :: rest =>
    match key? rest with
    | some (path, ']' :: rest) => (lineEnd? rest).map (.header path, ·)
    | _ => none
  | _ =>
    match member? value? s with
    | some (key, v, rest) => (lineEnd? rest).map (.member key v, ·)
    | none => none

def statements? : Nat → List Char → Option (List Statement)
  | 0, _ => none
  | n + 1, s =>
    match skipLines false s with
    | [] => some []
    | s =>
      match statement? s with
      | some (st, rest) => (statements? n rest).map (st :: ·)
      | none => none

end Majordomo.Toml
