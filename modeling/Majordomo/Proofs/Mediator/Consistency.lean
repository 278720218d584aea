import Majordomo.Proofs.Mediator.View
import Majordomo.Proofs.Text.Hex
import Majordomo.Proofs.Wire.Reading
import Mathlib.Data.List.Perm.Subperm
import Mathlib.Algebra.BigOperators.Group.List.Basic

/-! # The registries agree

A worker stands in the registry, in the queue of all idle workers and in the queue of
its service. `Consistent` says how the three agree; every action of a plan keeps it.
-/
namespace Majordomo.Broker.Mediator

/-- The registries agree with each other. -/
structure Consistent (m : Mediator) : Prop where
  services_unique : m.services.Unique
  workers_unique : m.workers.Unique
  external : ∀ name, m.services.contains name = true → Wire.isInternal name = false
  keyed : ∀ key w, m.workers.get? key = some w → key = w.identity.hex
  served : ∀ key w, m.workers.get? key = some w → m.services.contains w.service = true
  idle_nodup : m.idle.Nodup
  registered : ∀ key ∈ m.idle, m.workers.contains key = true
  /-- The idle workers of a service are those of all idle ones that are bound to it. -/
  queues : ∀ name, (m.service name).idle = m.idle.filter (m.isBound name)
  /-- A request that waits knows the client it came from, and no other address. -/
  addressed : ∀ name, ∀ e ∈ (m.service name).pending, e.depth = 1

def Action.Lawful (m : Mediator) : Action → Prop
  | .emit _ frames => Wire.requestOf? frames = none
  | .require name => Wire.isInternal name = false
  | .queue name e => m.services.contains name = true ∧ e.depth = 1
  | .enrol identity service _ =>
    m.workers.contains identity.hex = false ∧ m.services.contains service = true
  | .settle name => m.services.contains name = true
  | .wake .. | .remove _ | .pair _ | .schedule _ => True

theorem consistent_start (interval lifetime now : Nat) :
    (start interval lifetime now).Consistent where
  services_unique := Table.unique_empty
  workers_unique := Table.unique_empty
  external := by simp [start]
  keyed := by simp [start]
  served := by simp [start]
  idle_nodup := List.nodup_nil
  registered := by simp [start]
  queues := by simp [start, service]
  addressed := by simp [start, service]

namespace Consistent
variable {m : Mediator}

theorem congr {m' : Mediator} (h : m.Consistent) (hs : m'.services = m.services)
    (hw : m'.workers = m.workers) (hi : m'.idle = m.idle) : m'.Consistent := by
  obtain ⟨_,_,_,services,workers,idle,_⟩ := m'
  subst hs hw hi
  exact ⟨h.1,h.2,h.3,h.4,h.5,h.6,h.7,h.8,h.9⟩

theorem get?_of_mem_idle (h : m.Consistent) {key : String} (hk : key ∈ m.idle) :
    ∃ w, m.workers.get? key = some w :=
  Table.contains_iff _ _ |>.mp (h.registered key hk)

/-- Whoever is registered under the text of an identity has that identity. -/
theorem identity_eq (h : m.Consistent) {peer : Frame} {w : Worker}
    (hw : m.workers.get? peer.hex = some w) : w.identity = peer :=
  Frame.hex_inj (h.keyed _ w hw).symm

/-- No two workers have one identity. -/
theorem nodup_identities (h : m.Consistent) : (m.workers.values.map (·.identity)).Nodup := by
  have hkeys : (m.workers.values.map (·.identity)).map Frame.hex = m.workers.keys := by
    rw [Table.values, List.map_map, List.map_map]
    exact List.map_congr_left fun e he =>
      (h.keyed e.1 e.2 (h.workers_unique.mem_entries.mp he)).symm
  exact List.Nodup.of_map Frame.hex (hkeys ▸ h.workers_unique)

theorem require (h : m.Consistent) {name : String} (hn : Wire.isInternal name = false) :
    (m.require name).Consistent where
  services_unique := by
    unfold Mediator.require
    split
    · exact h.services_unique
    · exact h.services_unique.set _ _
  workers_unique := by simpa using h.workers_unique
  external := by
    intro l hl
    rw [contains_require] at hl
    rcases Bool.or_eq_true_iff.mp hl with he | hl
    · exact of_decide_eq_true he ▸ hn
    · exact h.external l hl
  keyed := by simpa using h.keyed
  served := by
    intro key w hw
    rw [workers_require] at hw
    simp [contains_require, h.served key w hw]
  idle_nodup := by simpa using h.idle_nodup
  registered := by simpa using h.registered
  queues := by
    intro l
    simpa using h.queues l
  addressed := by simpa using h.addressed

/-- A change of a registered service that leaves its idle workers alone. -/
theorem updateService (h : m.Consistent) {name : String} {f : Service → Service}
    (hn : m.services.contains name = true) (hi : ∀ s, (f s).idle = s.idle)
    (hp : ∀ e ∈ (f (m.service name)).pending, e.depth = 1) :
    (m.updateService name f).Consistent where
  services_unique := h.services_unique.set _ _
  workers_unique := h.workers_unique
  external := by
    intro l hl
    rw [contains_updateService] at hl
    rcases Bool.or_eq_true_iff.mp hl with he | hl
    · exact h.external l (of_decide_eq_true he ▸ hn)
    · exact h.external l hl
  keyed := h.keyed
  served := by
    intro key w hw
    simp [contains_updateService, h.served key w hw]
  idle_nodup := h.idle_nodup
  registered := h.registered
  queues := by
    intro l
    have hq := h.queues l
    by_cases hl : name = l
    · subst hl
      simpa [hi] using hq
    · simpa [hl] using hq
  addressed := by
    intro l
    by_cases hl : name = l
    · subst hl
      simpa using hp
    · simpa [hl] using h.addressed l

theorem enrol (h : m.Consistent) {identity : Frame} {service : String} (expiry : Nat)
    (hf : m.workers.contains identity.hex = false) (hs : m.services.contains service = true) :
    Consistent { m with workers := m.workers.set identity.hex { identity, service, expiry } } where
  services_unique := h.services_unique
  workers_unique := h.workers_unique.set _ _
  external := h.external
  keyed := by
    intro key w hw
    simp only [Table.get?_set] at hw
    split at hw
    · rename_i hk
      cases hw
      exact hk.symm
    · exact h.keyed key w hw
  served := by
    intro key w hw
    simp only [Table.get?_set] at hw
    split at hw
    · cases hw
      exact hs
    · exact h.served key w hw
  idle_nodup := h.idle_nodup
  registered := by
    intro key hk
    simp [Table.contains_set, h.registered key hk]
  queues := by
    intro l
    change (m.service l).idle = _
    rw [h.queues l]
    apply List.filter_congr
    intro key hk
    have hne : identity.hex ≠ key := by
      rintro rfl
      simp [h.registered _ hk] at hf
    simp [isBound, hne]
  addressed := h.addressed

/-- The idle workers of a service after one was taken out everywhere. -/
theorem filter_queue (h : m.Consistent) (name key : String) :
    (m.service name).idle.filter (· ≠ key) = (m.idle.filter (· ≠ key)).filter (m.isBound name) := by
  rw [h.queues name, List.filter_filter, List.filter_filter]
  exact List.filter_congr fun k _ => Bool.and_comm ..

/-- Taking out a worker leaves the queues of the services it is not bound to. -/
theorem filter_queue_of_not_bound (h : m.Consistent) {name key : String}
    (hb : m.isBound name key = false) :
    (m.service name).idle = (m.idle.filter (· ≠ key)).filter (m.isBound name) := by
  rw [← h.filter_queue, h.queues name]
  apply Eq.symm
  apply List.filter_eq_self.mpr
  intro k hk
  have hb' := (List.mem_filter.mp hk).2
  apply decide_eq_true
  rintro rfl
  simp [hb] at hb'

theorem renewed (h : m.Consistent) {key : String} {w : Worker} (hw : m.workers.get? key = some w)
    (expiry : Nat) : Consistent { m with workers := m.workers.set key { w with expiry } } := by
  have hg : ∀ k v, (m.workers.set key { w with expiry }).get? k = some v →
      ∃ u, m.workers.get? k = some u ∧ u.identity = v.identity ∧ u.service = v.service := by
    intro k v hv
    simp only [Table.get?_set] at hv
    split at hv
    · rename_i hk
      cases hv
      exact ⟨w,hk ▸ hw,rfl,rfl⟩
    · exact ⟨v,hv,rfl,rfl⟩
  have hb : Mediator.isBound { m with workers := m.workers.set key { w with expiry } } =
      m.isBound := by
    funext name k
    by_cases hk : key = k
    · subst hk
      simp [isBound, hw]
    · simp [isBound, hk]
  exact {
    services_unique := h.services_unique
    workers_unique := h.workers_unique.set _ _
    external := h.external
    keyed := by
      intro k v hv
      obtain ⟨u,hu,hi,_⟩ := hg k v hv
      exact hi ▸ h.keyed k u hu
    served := by
      intro k v hv
      obtain ⟨u,hu,_,hs⟩ := hg k v hv
      exact hs ▸ h.served k u hu
    idle_nodup := h.idle_nodup
    registered := by
      intro k hk
      simp [Table.contains_set, h.registered k hk]
    queues := by
      rw [hb]
      exact h.queues
    addressed := h.addressed }

/-- A registered worker becomes the last of the idle ones in both queues. -/
theorem queued (h : m.Consistent) {key : String} {w : Worker} (hw : m.workers.get? key = some w) :
    Consistent ({ m with idle := m.idle.filter (· ≠ key) ++ [key] }.updateService w.service fun s =>
      { s with idle := s.idle.filter (· ≠ key) ++ [key] }) where
  services_unique := h.services_unique.set _ _
  workers_unique := h.workers_unique
  external := by
    intro l hl
    rw [contains_updateService] at hl
    rcases Bool.or_eq_true_iff.mp hl with he | hl
    · exact h.external l (of_decide_eq_true he ▸ h.served key w hw)
    · exact h.external l hl
  keyed := h.keyed
  served := by
    intro k v hv
    rw [contains_updateService]
    exact Bool.or_eq_true_iff.mpr (.inr (h.served k v hv))
  idle_nodup := List.nodup_append.mpr ⟨h.idle_nodup.filter _,by simp,by simp⟩
  registered := by
    intro k hk
    simp only [idle_updateService, List.mem_append, List.mem_filter, List.mem_singleton] at hk
    rcases hk with ⟨hk,_⟩ | rfl
    · exact h.registered k hk
    · exact Table.contains_iff _ _ |>.mpr ⟨w,hw⟩
  queues := by
    intro l
    rw [service_updateService, idle_updateService, isBound_updateService, List.filter_append]
    change _ = (m.idle.filter (· ≠ key)).filter (m.isBound l) ++ [key].filter (m.isBound l)
    by_cases hl : w.service = l
    · subst hl
      have hb : m.isBound w.service key = true := isBound_iff.mpr ⟨w,hw,rfl⟩
      rw [if_pos rfl, List.filter_cons_of_pos hb, ← h.filter_queue]
      rfl
    · have hb : m.isBound l key = false := by simp [isBound, hw, hl]
      rw [if_neg hl, List.filter_cons_of_neg (by simp [hb]), List.filter_nil, List.append_nil,
        ← h.filter_queue_of_not_bound hb]
      rfl
  addressed := by
    intro l
    rw [service_updateService]
    split
    · exact h.addressed w.service
    · exact h.addressed l

theorem awaken (h : m.Consistent) (key : String) (now : Nat) : (m.awaken key now).Consistent := by
  cases hw : m.workers.get? key with
  | none => rwa [awaken_of_get?_eq_none now hw]
  | some w =>
    rw [awaken_of_get? now hw]
    exact (h.renewed hw _).queued (w := { w with expiry := now + m.lifetime }) (by simp)

theorem remove (h : m.Consistent) (key : String) : (m.remove key).Consistent := by
  cases hw : m.workers.get? key with
  | none =>
    have hk : key ∉ m.idle := by
      intro hk
      obtain ⟨w,hw'⟩ := h.get?_of_mem_idle hk
      simp [hw] at hw'
    have hi : (m.remove key).idle = m.idle := by
      rw [idle_remove]
      exact List.filter_eq_self.mpr fun k hk' => decide_eq_true fun e => hk (e ▸ hk')
    refine h.congr ?_ ?_ hi <;> rw [remove_of_get?_eq_none hw]
  | some w =>
    have hg : ∀ k v, (m.remove key).workers.get? k = some v → m.workers.get? k = some v := by
      intro k v hv
      rw [get?_workers_remove] at hv
      split at hv
      · cases hv
      · exact hv
    have hc : ∀ l, (m.remove key).services.contains l = m.services.contains l := by
      intro l
      rw [remove_of_get? hw]
      simp only [Table.contains, Table.get?_modify]
      split <;> simp
    exact {
      services_unique := by
        rw [remove_of_get? hw]
        exact h.services_unique.modify _ _
      workers_unique := by
        rw [remove_of_get? hw]
        exact h.workers_unique.erase _
      external := fun l hl => h.external l (hc l ▸ hl)
      keyed := fun k v hv => h.keyed k v (hg k v hv)
      served := fun k v hv => (hc _).trans (h.served k v (hg k v hv))
      idle_nodup := by
        rw [idle_remove]
        exact h.idle_nodup.filter _
      registered := by
        intro k hk
        rw [idle_remove] at hk
        obtain ⟨hk,hne⟩ := List.mem_filter.mp hk
        obtain ⟨v,hv⟩ := h.get?_of_mem_idle hk
        have hne : key ≠ k := fun e => of_decide_eq_true hne e.symm
        exact Table.contains_iff _ _ |>.mpr ⟨v,by simpa [hne] using hv⟩
      queues := by
        intro l
        have hf : (m.idle.filter (· ≠ key)).filter ((m.remove key).isBound l) =
            (m.idle.filter (· ≠ key)).filter (m.isBound l) := by
          apply List.filter_congr
          intro k hk
          rw [isBound_remove, (List.mem_filter.mp hk).2, Bool.true_and]
        rw [idle_remove, hf, service_remove_of_get? hw]
        split
        · exact h.filter_queue l key
        · rename_i hl
          apply h.filter_queue_of_not_bound
          simp [isBound, hw, Ne.symm hl]
      addressed := by
        intro l
        rw [service_remove_of_get? hw]
        split
        · exact h.addressed l
        · exact h.addressed l }

theorem pairOldest_cases (h : m.Consistent) (name : String) :
    (m.pairOldest name = m ∧ ((m.service name).pending = [] ∨ (m.service name).idle = [])) ∨
    ∃ e es key keys w, (m.service name).pending = e :: es ∧ (m.service name).idle = key :: keys ∧
      m.workers.get? key = some w ∧ w.service = name ∧ key ∈ m.idle ∧
      m.pairOldest name = m.given name key e w := by
  cases hp : (m.service name).pending with
  | nil => exact .inl ⟨pairOldest_of_pending_eq_nil hp,.inl rfl⟩
  | cons e es =>
    cases hi : (m.service name).idle with
    | nil => exact .inl ⟨pairOldest_of_idle_eq_nil hi,.inr rfl⟩
    | cons key keys =>
      have hk : key ∈ m.idle.filter (m.isBound name) := by
        rw [← h.queues, hi]
        exact List.mem_cons_self ..
      obtain ⟨hk,hb⟩ := List.mem_filter.mp hk
      obtain ⟨w,hw,hs⟩ := isBound_iff.mp hb
      exact .inr ⟨e,es,key,keys,w,rfl,rfl,hw,hs,hk,pairOldest_eq_given hp hi hw⟩

/-- Taking the longest idle worker of a service out of both queues. -/
theorem given (h : m.Consistent) {name key : String} {e : Envelope} {es : List Envelope}
    {keys : List String} {w : Worker} (hp : (m.service name).pending = e :: es)
    (hi : (m.service name).idle = key :: keys) (hw : m.workers.get? key = some w)
    (hs : w.service = name) : (m.given name key e w).Consistent := by
  have hc : m.services.contains name = true := hs ▸ h.served key w hw
  have hv : ∀ l, (m.given name key e w).service l =
      if name = l then ⟨es,keys,.awaiting⟩ else m.service l := by
    intro l
    rw [service_given, hp, hi]
    rfl
  have hd : (key :: keys).Nodup := by
    rw [← hi, h.queues]
    exact h.idle_nodup.filter _
  exact {
    services_unique := h.services_unique.set _ _
    workers_unique := h.workers_unique
    external := by
      intro l hl
      have hl : (decide (name = l) || m.services.contains l) = true :=
        (Table.contains_set ..).symm.trans hl
      rcases Bool.or_eq_true_iff.mp hl with he | hl
      · exact h.external l (of_decide_eq_true he ▸ hc)
      · exact h.external l hl
    keyed := h.keyed
    served := fun k v hk =>
      (Table.contains_set ..).trans (Bool.or_eq_true_iff.mpr (.inr (h.served k v hk)))
    idle_nodup := h.idle_nodup.filter _
    registered := fun k hk => h.registered k (List.mem_filter.mp hk).1
    queues := by
      intro l
      change _ = (m.idle.filter (· ≠ key)).filter (m.isBound l)
      rw [hv]
      split
      · rename_i hl
        rw [← h.filter_queue, ← hl, hi, List.filter_cons_of_neg (by simp)]
        apply Eq.symm
        apply List.filter_eq_self.mpr
        intro k hk
        apply decide_eq_true
        rintro rfl
        exact (List.nodup_cons.mp hd).1 hk
      · rename_i hl
        apply h.filter_queue_of_not_bound
        simp [isBound, hw, hs, hl]
    addressed := by
      intro l f hf
      rw [hv] at hf
      split at hf
      · exact h.addressed name f (hp ▸ List.mem_cons_of_mem e hf)
      · exact h.addressed l f hf }

/-- An action that is lawful where it is taken keeps the registries in agreement. -/
theorem act (h : m.Consistent) {a : Action} (ha : a.Lawful m) : (m.act a).Consistent := by
  cases a with
  | emit peer frames => exact h.congr rfl rfl rfl
  | require name => exact h.require ha
  | queue name e =>
    refine h.updateService (f := fun s => { s with pending := s.pending ++ [e] })
      ha.1 (fun _ => rfl) ?_
    intro f hf
    rcases List.mem_append.mp hf with hf | hf
    · exact h.addressed name f hf
    · exact List.mem_singleton.mp hf ▸ ha.2
  | enrol identity service expiry => exact h.enrol expiry ha.1 ha.2
  | wake key now => exact h.awaken key now
  | remove key => exact h.remove key
  | pair name =>
    change (m.pairOldest name).Consistent
    rcases h.pairOldest_cases name with ⟨hm,_⟩ | ⟨e,es,key,keys,w,hp,hi,hw,hs,_,hm⟩
    · rwa [hm]
    · rw [hm]
      exact h.given hp hi hw hs
  | settle name =>
    exact h.updateService (f := fun s => { s with reply := .received })
      ha (fun _ => rfl) (h.addressed name)
  | schedule time => exact h.congr rfl rfl rfl

end Consistent

def LawfulPlan (m : Mediator) : List Action → Prop
  | [] => True
  | a :: plan => a.Lawful m ∧ (m.act a).LawfulPlan plan

@[simp] theorem lawfulPlan_append {m : Mediator} {plan rest : List Action} :
    m.LawfulPlan (plan ++ rest) ↔ m.LawfulPlan plan ∧ (m.follow plan).LawfulPlan rest := by
  induction plan generalizing m with
  | nil => simp [LawfulPlan]
  | cons a plan ih => simp [LawfulPlan, ih, and_assoc]

theorem Consistent.follow {m : Mediator} (h : m.Consistent) {plan : List Action}
    (hp : m.LawfulPlan plan) : (m.follow plan).Consistent := by
  induction plan generalizing m with
  | nil => exact h
  | cons a plan ih => exact ih (h.act hp.1) hp.2

end Majordomo.Broker.Mediator
