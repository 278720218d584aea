import Majordomo.Proofs.Table
import Majordomo.Proofs.Mediator.Plan

/-! # What an action changes

A service that is not registered counts as one with empty queues. In this view an
action is pinned down by what it leaves in the queues, the registry and the outbox.
-/
namespace Majordomo.Broker.Mediator
variable (m : Mediator)

def service (name : String) : Service := (m.services.get? name).getD {}

def isBound (name key : String) : Bool := (m.workers.get? key).any (·.service = name)

theorem isBound_iff {m : Mediator} {name key : String} :
    m.isBound name key = true ↔ ∃ w, m.workers.get? key = some w ∧ w.service = name := by
  cases h : m.workers.get? key <;> simp [isBound, h]

theorem service_of_get? {m : Mediator} {name : String} {s : Service}
    (h : m.services.get? name = some s) : m.service name = s := by
  simp [service, h]

/-! ## Changes of one service -/

@[simp] theorem service_require (n name : String) :
    (m.require n).service name = m.service name := by
  unfold require
  split
  · rfl
  · rename_i h
    by_cases hn : n = name
    · subst hn
      have : m.services.get? n = none := by simpa [Table.contains] using h
      simp [service, this]
    · simp [service, hn]

@[simp] theorem workers_require (n : String) : (m.require n).workers = m.workers := by
  unfold require
  split <;> rfl

@[simp] theorem idle_require (n : String) : (m.require n).idle = m.idle := by
  unfold require
  split <;> rfl

@[simp] theorem outbox_require (n : String) : (m.require n).outbox = m.outbox := by
  unfold require
  split <;> rfl

theorem contains_require (n name : String) :
    (m.require n).services.contains name = (decide (n = name) || m.services.contains name) := by
  unfold require
  split
  · rename_i h
    by_cases hn : n = name
    · subst hn
      simp [h]
    · simp [hn]
  · exact Table.contains_set ..

@[simp] theorem service_updateService (n name : String) (f : Service → Service) :
    (m.updateService n f).service name = if n = name then f (m.service n) else m.service name := by
  by_cases h : n = name <;> simp [updateService, service, h]

@[simp] theorem workers_updateService (n : String) (f : Service → Service) :
    (m.updateService n f).workers = m.workers := rfl
@[simp] theorem idle_updateService (n : String) (f : Service → Service) :
    (m.updateService n f).idle = m.idle := rfl
@[simp] theorem outbox_updateService (n : String) (f : Service → Service) :
    (m.updateService n f).outbox = m.outbox := rfl
theorem contains_updateService (n name : String) (f : Service → Service) :
    (m.updateService n f).services.contains name =
      (decide (n = name) || m.services.contains name) :=
  Table.contains_set ..

/-! ## Changes of the registry -/

theorem isBound_congr {m m' : Mediator} (h : m'.workers = m.workers) :
    m'.isBound = m.isBound := by
  funext name key
  simp only [isBound, h]

@[simp] theorem isBound_require (n : String) : (m.require n).isBound = m.isBound :=
  isBound_congr (m.workers_require n)

@[simp] theorem isBound_updateService (n : String) (f : Service → Service) :
    (m.updateService n f).isBound = m.isBound := rfl

variable {m}

theorem awaken_of_get? {key : String} {w : Worker} (now : Nat) (h : m.workers.get? key = some w) :
    m.awaken key now =
      { m with
        workers := m.workers.set key { w with expiry := now + m.lifetime }
        idle := m.idle.filter (· ≠ key) ++ [key] }.updateService w.service fun s =>
          { s with idle := s.idle.filter (· ≠ key) ++ [key] } := by
  simp only [awaken, h]

theorem awaken_of_get?_eq_none {key : String} (now : Nat) (h : m.workers.get? key = none) :
    m.awaken key now = m := by
  simp only [awaken, h]

@[simp] theorem isBound_awaken (key : String) (now : Nat) :
    (m.awaken key now).isBound = m.isBound := by
  funext name k
  cases h : m.workers.get? key with
  | none => rw [awaken_of_get?_eq_none now h]
  | some w =>
    rw [awaken_of_get? now h]
    by_cases hk : key = k
    · subst hk
      simp [isBound, h]
    · simp [isBound, hk]

@[simp] theorem outbox_awaken (key : String) (now : Nat) :
    (m.awaken key now).outbox = m.outbox := by
  unfold awaken
  split <;> rfl

theorem remove_of_get? {key : String} {w : Worker} (h : m.workers.get? key = some w) :
    m.remove key =
      { m with
        idle := m.idle.filter (· ≠ key)
        workers := m.workers.erase key
        services := m.services.modify w.service fun s =>
          { s with idle := s.idle.filter (· ≠ key) } } := by
  simp only [remove, h]

theorem remove_of_get?_eq_none {key : String} (h : m.workers.get? key = none) :
    m.remove key = { m with idle := m.idle.filter (· ≠ key) } := by
  simp only [remove, h]

@[simp] theorem idle_remove (key : String) :
    (m.remove key).idle = m.idle.filter (· ≠ key) := by
  unfold remove
  split <;> rfl

@[simp] theorem outbox_remove (key : String) : (m.remove key).outbox = m.outbox := by
  unfold remove
  split <;> rfl

@[simp] theorem get?_workers_remove (key k : String) :
    (m.remove key).workers.get? k = if key = k then none else m.workers.get? k := by
  cases h : m.workers.get? key with
  | none =>
    rw [remove_of_get?_eq_none h]
    by_cases hk : key = k
    · subst hk
      simpa using h
    · simp [hk]
  | some w => simp [remove_of_get? h]

theorem isBound_remove (key name k : String) :
    (m.remove key).isBound name k = (decide (k ≠ key) && m.isBound name k) := by
  by_cases hk : key = k
  · subst hk
    simp [isBound]
  · have hne : k ≠ key := fun e => hk e.symm
    simp [isBound, hk, hne]

theorem service_remove_of_get? {key : String} {w : Worker} (h : m.workers.get? key = some w)
    (name : String) :
    (m.remove key).service name =
      if name = w.service then
        { m.service name with idle := (m.service name).idle.filter (· ≠ key) }
      else m.service name := by
  rw [remove_of_get? h]
  by_cases hn : name = w.service
  · subst hn
    cases hs : m.services.get? w.service <;> simp [service, hs]
  · simp [service, hn]

/-! ## Pairing -/

def given (name key : String) (e : Envelope) (w : Worker) (m : Mediator) : Mediator :=
  { m with
    services := m.services.set name
      { pending := (m.service name).pending.tail
        idle := (m.service name).idle.tail
        reply := .awaiting }
    idle := m.idle.filter (· ≠ key) }.emit w.identity (Wire.request e)

theorem service_given (name key : String) (e : Envelope) (w : Worker) (m : Mediator)
    (l : String) :
    (m.given name key e w).service l =
      if name = l then ⟨(m.service name).pending.tail,(m.service name).idle.tail,.awaiting⟩
      else m.service l :=
  service_updateService m name l fun s => ⟨s.pending.tail,s.idle.tail,.awaiting⟩

theorem pairOldest_eq_given {name key : String} {e : Envelope} {w : Worker}
    {es : List Envelope} {keys : List String}
    (hp : (m.service name).pending = e :: es) (hi : (m.service name).idle = key :: keys)
    (hw : m.workers.get? key = some w) : m.pairOldest name = m.given name key e w := by
  cases hs : m.services.get? name with
  | none => simp [service, hs] at hp
  | some s =>
    obtain ⟨pending,idle,reply⟩ := s
    rw [service_of_get? hs] at hp hi
    subst hp hi
    simp only [pairOldest, hs, hw, given, service_of_get? hs, List.tail_cons]

theorem workers_pairOldest (name : String) (m : Mediator) :
    (m.pairOldest name).workers = m.workers := by
  unfold pairOldest
  split
  · dsimp only
    split <;> rfl
  · rfl

theorem pairOldest_of_pending_eq_nil {name : String} (h : (m.service name).pending = []) :
    m.pairOldest name = m := by
  cases hs : m.services.get? name with
  | none => simp only [pairOldest, hs]
  | some s =>
    obtain ⟨pending,idle,reply⟩ := s
    rw [service_of_get? hs] at h
    subst h
    simp only [pairOldest, hs]

theorem pairOldest_of_idle_eq_nil {name : String} (h : (m.service name).idle = []) :
    m.pairOldest name = m := by
  cases hs : m.services.get? name with
  | none => simp only [pairOldest, hs]
  | some s =>
    obtain ⟨pending,idle,reply⟩ := s
    rw [service_of_get? hs] at h
    subst h
    cases pending <;> simp only [pairOldest, hs]

end Majordomo.Broker.Mediator
