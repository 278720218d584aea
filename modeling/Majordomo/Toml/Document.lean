import Majordomo.Toml.Statement

/-! # Documents -/
namespace Majordomo.Toml

/-- A document while it is read: its members so far, and the table that the next ones go to. -/
structure Document where
  members : Members := []
  path : List String := []
deriving Inhabited

namespace Document

/-- Changes the table that holds the last part of a header's path. -/
def updateParent (path : List String) (f : String → Members → Option Members) (d : Document) :
    Option Document :=
  match path.getLast? with
  | none => none
  | some key =>
    (d.members.update .header (fun o ms => (f key ms).map (o, ·)) path.dropLast .header).map
      fun (_, members) => { members, path }

/-- Takes a statement; `none` if it contradicts those before it. -/
def add (d : Document) : Statement → Option Document
  | .header path => d.updateParent path Members.open?
  | .append path => d.updateParent path Members.append?
  | .member key v =>
    (d.members.update .header
      (fun o ms => (insertMember key v o ms).map (o, ·)) d.path .header).map
      fun (_, members) => { d with members }

/-- The document of a text. A mark of the byte order before it is ignored. -/
def ofText? (s : String) : Option Members := do
  let cs := match s.toList with
    | '\uFEFF' :: rest => rest
    | cs => cs
  let statements ← statements? (cs.length + 1) cs
  let d ← statements.foldlM add {}
  return d.members

end Document
end Majordomo.Toml
