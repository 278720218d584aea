import Majordomo.Table
import Mathlib.Data.List.Nodup
import Mathlib.Data.List.Count

/-! # Keys of finite tables

A table whose keys differ holds exactly the entries that a look-up reads. Every
operation keeps the keys apart.
-/
namespace Majordomo.Table
variable {κ α : Type} [DecidableEq κ]

def Unique (t : Table κ α) : Prop := t.keys.Nodup

theorem contains_iff (k : κ) (t : Table κ α) :
    t.contains k = true ↔ ∃ a, t.get? k = some a := by
  simp only [contains, Option.isSome_iff_exists]

@[simp] theorem contains_empty (k : κ) : (empty : Table κ α).contains k = false := rfl

theorem contains_set (k l : κ) (a : α) (t : Table κ α) :
    (t.set k a).contains l = (decide (k = l) || t.contains l) := by
  by_cases h : k = l <;> simp [contains, h]

theorem mem_keys {k : κ} {t : Table κ α} : k ∈ t.keys ↔ t.contains k = true := by
  obtain ⟨es⟩ := t
  simp only [keys, contains, get?]
  induction es with
  | nil => simp [get?.find]
  | cons e es ih =>
    by_cases h : e.1 = k
    · simp [get?.find, h]
    · have hk : ¬ k = e.1 := fun he => h he.symm
      simp only [List.map_cons, List.mem_cons, get?.find, h, hk, if_false, ih, false_or]

omit [DecidableEq κ] in
theorem unique_empty : (empty : Table κ α).Unique := List.nodup_nil

theorem keys_set (k : κ) (a : α) (t : Table κ α) :
    (t.set k a).keys = if t.contains k then t.keys else t.keys ++ [k] := by
  obtain ⟨es⟩ := t
  simp only [keys, contains, get?, set]
  induction es with
  | nil => simp [get?.find, set.put]
  | cons e es ih =>
    by_cases h : e.1 = k
    · simp [get?.find, set.put, h]
    · simp only [set.put, h, if_false, List.map_cons, ih, get?.find]
      split
      · rename_i hk
        simp [hk]
      · rename_i hk
        simp [hk]

theorem keys_modify (k : κ) (f : α → α) (t : Table κ α) : (t.modify k f).keys = t.keys := by
  simp [keys, modify, Function.comp_def]

theorem keys_erase (k : κ) (t : Table κ α) : (t.erase k).keys = t.keys.filter (· ≠ k) := by
  simp [keys, erase, List.filter_map, Function.comp_def]

theorem Unique.set {t : Table κ α} (h : t.Unique) (k : κ) (a : α) : (t.set k a).Unique := by
  rw [Unique, keys_set]
  split
  · exact h
  · rename_i hk
    exact List.nodup_append.mpr ⟨h,by simp,by
      intro l hl m hm
      rw [List.mem_singleton.mp hm]
      rintro rfl
      exact hk (mem_keys.mp hl)⟩

theorem Unique.modify {t : Table κ α} (h : t.Unique) (k : κ) (f : α → α) :
    (t.modify k f).Unique := by
  rwa [Unique, keys_modify]

theorem Unique.erase {t : Table κ α} (h : t.Unique) (k : κ) : (t.erase k).Unique := by
  rw [Unique, keys_erase]
  exact h.filter _

/-- With distinct keys the entries are what a look-up reads. -/
theorem Unique.mem_entries {t : Table κ α} (h : t.Unique) {k : κ} {a : α} :
    (k,a) ∈ t.entries ↔ t.get? k = some a := by
  obtain ⟨es⟩ := t
  simp only [Unique, keys, get?] at h ⊢
  induction es with
  | nil => simp [get?.find]
  | cons e es ih =>
    obtain ⟨l,b⟩ := e
    obtain ⟨hl,hes⟩ := List.nodup_cons.mp h
    by_cases hk : l = k
    · subst hk
      have hn : (l,a) ∉ es := fun hm => hl (List.mem_map.mpr ⟨_,hm,rfl⟩)
      simp [get?.find, hn, eq_comm]
    · have hne : ¬ k = l := fun e => hk e.symm
      simp [get?.find, hk, hne, ih hes]

/-! ## Entries of certain keys and changes of all values -/

def keep (kept : κ → Bool) (t : Table κ α) : Table κ α := ⟨t.entries.filter fun e => kept e.1⟩

def mapValues (f : α → α) (t : Table κ α) : Table κ α := ⟨t.entries.map fun e => (e.1,f e.2)⟩

theorem erase_eq_keep (k : κ) (t : Table κ α) : t.erase k = t.keep (· ≠ k) := rfl

theorem get?_keep (kept : κ → Bool) (k : κ) (t : Table κ α) :
    (t.keep kept).get? k = if kept k then t.get? k else none := by
  obtain ⟨es⟩ := t
  simp only [get?, keep]
  induction es with
  | nil => simp [get?.find]
  | cons e es ih =>
    by_cases hk : e.1 = k
    · cases hp : kept k <;> simp_all [get?.find]
    · cases hp : kept e.1 <;> simp_all [get?.find]

omit [DecidableEq κ] in
theorem keep_keep (kept kept' : κ → Bool) (t : Table κ α) :
    (t.keep kept).keep kept' = t.keep fun k => kept' k && kept k :=
  congrArg Table.mk List.filter_filter

theorem keep_eq_self {kept : κ → Bool} {t : Table κ α}
    (h : ∀ k, t.contains k = true → kept k = true) : t.keep kept = t :=
  congrArg Table.mk (List.filter_eq_self.mpr fun _ he =>
    h _ (mem_keys.mp (List.mem_map_of_mem he)))

theorem get?_mapValues (f : α → α) (k : κ) (t : Table κ α) :
    (t.mapValues f).get? k = (t.get? k).map f := by
  obtain ⟨es⟩ := t
  simp only [get?, mapValues]
  induction es with
  | nil => rfl
  | cons e es ih => by_cases hk : e.1 = k <;> simp [get?.find, hk, ih]

omit [DecidableEq κ] in
theorem mapValues_mapValues (f g : α → α) (t : Table κ α) :
    (t.mapValues f).mapValues g = t.mapValues fun a => g (f a) :=
  congrArg Table.mk List.map_map

theorem Unique.mapValues_eq_self {t : Table κ α} (h : t.Unique) {f : α → α}
    (hf : ∀ k a, t.get? k = some a → f a = a) : t.mapValues f = t := by
  refine congrArg Table.mk ((List.map_congr_left fun e he => ?_).trans (List.map_id _))
  exact congrArg (e.1,·) (hf e.1 e.2 (h.mem_entries.mp he))

/-- A change of one value may be done to all if it leaves the others as they are. -/
theorem Unique.modify_eq_mapValues {t : Table κ α} (h : t.Unique) {k : κ} {f : α → α}
    (hf : ∀ l a, t.get? l = some a → l ≠ k → f a = a) : t.modify k f = t.mapValues f := by
  refine congrArg Table.mk (List.map_congr_left fun e he => ?_)
  dsimp only
  split
  · rfl
  · rename_i hk
    rw [hf e.1 e.2 (h.mem_entries.mp he) hk]

end Majordomo.Table
