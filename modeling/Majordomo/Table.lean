/-! # Finite tables

A table holds at most one entry a key, in the order in which the keys were put in.
`get?` is the view: every operation is pinned down by what `get?` reads afterwards.
-/
namespace Majordomo

structure Table (κ α : Type) where
  entries : List (κ × α)

namespace Table
variable {κ α : Type} [DecidableEq κ]

def empty : Table κ α := ⟨[]⟩

instance : Inhabited (Table κ α) := ⟨empty⟩

def size (t : Table κ α) : Nat := t.entries.length
def keys (t : Table κ α) : List κ := t.entries.map (·.1)
def values (t : Table κ α) : List α := t.entries.map (·.2)

def get? (k : κ) (t : Table κ α) : Option α := find t.entries
where
  find : List (κ × α) → Option α
    | [] => none
    | (l, a) :: rest => if l = k then some a else find rest

def contains (k : κ) (t : Table κ α) : Bool := (t.get? k).isSome

/-- Replaces the entry under `k`, or adds one behind the others. -/
def set (k : κ) (a : α) (t : Table κ α) : Table κ α := ⟨put t.entries⟩
where
  put : List (κ × α) → List (κ × α)
    | [] => [(k, a)]
    | (l, b) :: rest => if l = k then (k, a) :: rest else (l, b) :: put rest

def modify (k : κ) (f : α → α) (t : Table κ α) : Table κ α :=
  ⟨t.entries.map fun (l, a) => (l, if l = k then f a else a)⟩

def erase (k : κ) (t : Table κ α) : Table κ α := ⟨t.entries.filter fun (l, _) => l ≠ k⟩

@[simp] theorem get?_empty (k : κ) : (empty : Table κ α).get? k = none := rfl

@[simp] theorem get?_set (k l : κ) (a : α) (t : Table κ α) :
    (t.set k a).get? l = if k = l then some a else t.get? l := by
  obtain ⟨es⟩ := t
  simp only [get?, set]
  induction es with
  | nil => simp [set.put, get?.find]
  | cons e es ih => grind [set.put, get?.find]

@[simp] theorem get?_modify (k l : κ) (f : α → α) (t : Table κ α) :
    (t.modify k f).get? l = if l = k then (t.get? l).map f else t.get? l := by
  obtain ⟨es⟩ := t
  simp only [get?, modify]
  induction es with
  | nil => simp [get?.find]
  | cons e es ih => grind [get?.find]

@[simp] theorem get?_erase (k l : κ) (t : Table κ α) :
    (t.erase k).get? l = if k = l then none else t.get? l := by
  obtain ⟨es⟩ := t
  simp only [get?, erase]
  induction es with
  | nil => simp [get?.find]
  | cons e es ih => grind [get?.find]

end Table
end Majordomo
