import Majordomo.Toml.Value

/-! # How tables are filled

A table is mentioned by headers and by the keys of members. A header may enter
every table that is not written as a value, and give a table that only longer
headers have mentioned a header of its own. The key of a member may enter the tables
that have no header of their own, and put the member into one that such keys have
made. No member is written twice.
-/
namespace Majordomo.Toml

inductive Mention
  | header
  | key
deriving DecidableEq, Inhabited

namespace Mention

/-- How a table comes to be that is first mentioned on the way to another. -/
def origin : Mention → Origin
  | header => .implied
  | key => .dotted

/-- Whether the way to another table may lead through a table. -/
def enters : Mention → Origin → Bool
  | header, o => o ≠ .inline
  | key, o => o = .implied || o = .dotted

end Mention

namespace Members

def get? (key : String) (ms : Members) : Option Value := ms.lookup key

/-- Gives a member another value; a new one comes last. -/
def set (key : String) (v : Value) : Members → Members
  | [] => [(key, v)]
  | (k, old) :: ms => if k = key then (k, v) :: ms else (k, old) :: set key v ms

/-- Changes the table at the end of `path` with `f`. The way leads through the last of several
tables with one name. -/
def update (mention : Mention) (f : Origin → Members → Option (Origin × Members)) :
    List String → Origin → Members → Option (Origin × Members)
  | [], origin, ms => f origin ms
  | key :: path, origin, ms =>
    match ms.get? key with
    | none =>
      (update mention f path mention.origin []).map fun (o, inner) =>
        (origin, ms.set key (.table o inner))
    | some (.table o inner) =>
      if mention.enters o then
        (update mention f path o inner).map fun (o, inner) =>
          (origin, ms.set key (.table o inner))
      else none
    | some (.tables items) =>
      match items.getLast? with
      | some (.table o inner) =>
        (update mention f path o inner).map fun (o, inner) =>
          (origin, ms.set key (.tables (items.dropLast ++ [.table o inner])))
      | _ => none
    | some _ => none

def insert (key : String) (v : Value) (ms : Members) : Option Members :=
  if (ms.get? key).isSome then none else some (ms.set key v)

def put (path : List String) (key : String) (v : Value) (origin : Origin) (ms : Members) :
    Option (Origin × Members) :=
  update .key (fun o inner =>
    if path.isEmpty || o = .dotted then (inner.insert key v).map (o, ·) else none) path origin ms

/-- Gives the table `key` a header of its own. -/
def open? (key : String) (ms : Members) : Option Members :=
  match ms.get? key with
  | none => some (ms.set key (.table .header []))
  | some (.table .implied inner) => some (ms.set key (.table .header inner))
  | some _ => none

def append? (key : String) (ms : Members) : Option Members :=
  match ms.get? key with
  | none => some (ms.set key (.tables [.table .header []]))
  | some (.tables items) => some (ms.set key (.tables (items ++ [.table .header []])))
  | some _ => none

end Members
end Majordomo.Toml
