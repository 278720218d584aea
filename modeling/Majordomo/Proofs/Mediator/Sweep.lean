import Majordomo.Proofs.Mediator.Conservation

/-! # What a sweep leaves

A sweep removes the idle workers whose time has run out and nothing else. A dispatch begins
with one, so whoever is given a request is alive at that moment.
-/
namespace Majordomo.Broker

def Service.retain (kept : String → Bool) (s : Service) : Service :=
  { s with idle := s.idle.filter kept }

namespace Service
variable (kept : String → Bool) (s : Service)

@[simp] theorem idle_retain : (s.retain kept).idle = s.idle.filter kept := rfl
@[simp] theorem pending_retain : (s.retain kept).pending = s.pending := rfl
@[simp] theorem reply_retain : (s.retain kept).reply = s.reply := rfl

theorem retain_congr {kept kept' : String → Bool} {s : Service}
    (h : ∀ key ∈ s.idle, kept key = kept' key) : s.retain kept = s.retain kept' :=
  congrArg (fun l => { s with idle := l }) (List.filter_congr h)

theorem retain_eq_self {kept : String → Bool} {s : Service}
    (h : ∀ key ∈ s.idle, kept key = true) : s.retain kept = s :=
  congrArg (fun l => { s with idle := l }) (List.filter_eq_self.mpr h)

theorem retain_retain (kept kept' : String → Bool) (s : Service) :
    (s.retain kept).retain kept' = s.retain fun key => kept' key && kept key :=
  congrArg (fun l => { s with idle := l }) List.filter_filter

end Service

namespace Mediator
variable {m : Mediator}

def isLive (now : Nat) (m : Mediator) (key : String) : Bool := !m.isExpired now key

theorem isLive_iff {now : Nat} {key : String} :
    m.isLive now key = true ↔ ∃ w, m.workers.get? key = some w ∧ now < w.expiry := by
  cases h : m.workers.get? key <;> simp [isLive, isExpired, h]

theorem isLive_congr {m' : Mediator} {key : String} (now : Nat)
    (h : m'.workers.get? key = m.workers.get? key) : m'.isLive now key = m.isLive now key := by
  simp only [isLive, isExpired, h]

/-! ## Removing several workers -/

theorem idle_follow_remove (keys : List String) (m : Mediator) :
    (m.follow (keys.map .remove)).idle = m.idle.filter (· ∉ keys) := by
  induction keys generalizing m with
  | nil => simp
  | cons key keys ih =>
    rw [List.map_cons, follow_cons, ih, act_remove, idle_remove, List.filter_filter]
    apply List.filter_congr
    intro k _
    by_cases hk : k = key <;> simp [hk]

theorem outbox_follow_remove (keys : List String) (m : Mediator) :
    (m.follow (keys.map .remove)).outbox = m.outbox := by
  induction keys generalizing m with
  | nil => rfl
  | cons key keys ih => rw [List.map_cons, follow_cons, ih, act_remove, outbox_remove]

theorem get?_workers_follow_remove (keys : List String) (m : Mediator) (k : String) :
    (m.follow (keys.map .remove)).workers.get? k =
      if k ∈ keys then none else m.workers.get? k := by
  induction keys generalizing m with
  | nil => simp
  | cons key keys ih =>
    rw [List.map_cons, follow_cons, ih, act_remove, get?_workers_remove]
    by_cases hk : k = key
    · simp [hk]
    · have hne : key ≠ k := fun e => hk e.symm
      simp [hk, hne]

namespace Consistent

/-- Taking a worker out takes it out of the queue of its service, whichever that is. -/
theorem service_remove (h : m.Consistent) (key name : String) :
    (m.remove key).service name = (m.service name).retain (· ≠ key) := by
  have hself (hb : m.isBound name key = false) :
      (m.service name).retain (· ≠ key) = m.service name := by
    refine Service.retain_eq_self fun k hk => decide_eq_true ?_
    rintro rfl
    rw [h.queues] at hk
    exact absurd (List.mem_filter.mp hk).2 (by simp [hb])
  cases hw : m.workers.get? key with
  | none =>
    rw [remove_of_get?_eq_none hw, hself (by simp [isBound, hw])]
    rfl
  | some w =>
    rw [service_remove_of_get? hw]
    split
    · rfl
    · rename_i hn
      rw [hself (by simp [isBound, hw, Ne.symm hn])]

theorem service_follow_remove (h : m.Consistent) (keys : List String) (name : String) :
    (m.follow (keys.map .remove)).service name = (m.service name).retain (· ∉ keys) := by
  induction keys generalizing m with
  | nil => exact (Service.retain_eq_self (by simp)).symm
  | cons key keys ih =>
    rw [List.map_cons, follow_cons, act_remove, ih (h.remove key), h.service_remove,
      Service.retain_retain]
    refine Service.retain_congr fun k _ => ?_
    by_cases hk : k = key <;> simp [hk]

end Consistent

/-! ## Sweeping -/

variable (now : Nat)

theorem idle_sweep (m : Mediator) : (m.sweep now).idle = m.idle.filter (m.isLive now) := by
  rw [← follow_sweepPlan, sweepPlan, idle_follow_remove]
  apply List.filter_congr
  intro key hk
  simp [isLive, hk]

@[simp] theorem outbox_sweep (m : Mediator) : (m.sweep now).outbox = m.outbox := by
  rw [← follow_sweepPlan, sweepPlan, outbox_follow_remove]

theorem get?_workers_sweep (m : Mediator) (key : String) :
    (m.sweep now).workers.get? key =
      if key ∈ m.idle ∧ m.isLive now key = false then none else m.workers.get? key := by
  rw [← follow_sweepPlan, sweepPlan, get?_workers_follow_remove]
  simp [isLive]

/-- Who is not idle is not swept away. -/
theorem get?_workers_sweep_of_not_mem {key : String} (h : key ∉ m.idle) :
    (m.sweep now).workers.get? key = m.workers.get? key := by
  rw [get?_workers_sweep, if_neg fun hk => h hk.1]

theorem get?_workers_sweep_of_isLive {now : Nat} {key : String} (h : m.isLive now key = true) :
    (m.sweep now).workers.get? key = m.workers.get? key := by
  rw [get?_workers_sweep, if_neg (by simp [h])]

@[simp] theorem isLive_sweep (m : Mediator) (key : String) :
    (m.sweep now).isLive now key = m.isLive now key := by
  cases h : m.isLive now key with
  | true => rw [isLive_congr now (get?_workers_sweep_of_isLive h), h]
  | false =>
    by_cases hk : key ∈ m.idle
    · have hg : (m.sweep now).workers.get? key = none := by
        rw [get?_workers_sweep, if_pos ⟨hk,h⟩]
      simp [isLive, isExpired, hg]
    · rw [isLive_congr now (get?_workers_sweep_of_not_mem now hk), h]

theorem Consistent.service_sweep (h : m.Consistent) (name : String) :
    (m.sweep now).service name = (m.service name).retain (m.isLive now) := by
  rw [← follow_sweepPlan, sweepPlan, h.service_follow_remove]
  refine Service.retain_congr fun key hk => ?_
  have hm : key ∈ m.idle := by
    rw [h.queues] at hk
    exact (List.mem_filter.mp hk).1
  simp [isLive, hm]

theorem Consistent.sweep (h : m.Consistent) : (m.sweep now).Consistent := by
  rw [← follow_sweepPlan]
  exact h.follow (lawfulPlan_of_dispatching (sweepPlan_dispatching now m))

/-! ## The pairs of a dispatch -/

def Fresh (now : Nat) (m : Mediator) : Prop := ∀ key ∈ m.idle, m.isLive now key = true

theorem fresh_sweep (m : Mediator) : (m.sweep now).Fresh now := by
  intro key hk
  rw [idle_sweep] at hk
  rw [isLive_sweep]
  exact (List.mem_filter.mp hk).2

theorem idle_pairOldest_subset (name : String) (m : Mediator) :
    (m.pairOldest name).idle ⊆ m.idle := by
  unfold pairOldest
  split
  · dsimp only
    split <;> exact List.filter_subset_self _
  · exact List.Subset.refl _

variable {now}

theorem Fresh.pairOldest (h : m.Fresh now) (name : String) : (m.pairOldest name).Fresh now := by
  intro key hk
  rw [isLive_congr now (congrArg (·.get? key) (workers_pairOldest name m))]
  exact h key (idle_pairOldest_subset name m hk)

/-- Where a dispatch pairs, every idle worker is alive. -/
theorem fresh_of_mem_moments_replicate (h : m.Fresh now) {name : String} {n : Nat}
    {x : Mediator × Action} (hx : x ∈ m.moments (List.replicate n (.pair name))) :
    x.1.Fresh now := by
  induction n generalizing m with
  | zero => cases hx
  | succ n ih =>
    rw [List.replicate_succ, moments_cons] at hx
    rcases List.mem_cons.mp hx with rfl | hx
    · exact h
    · exact ih (h.pairOldest name) hx

end Mediator
end Majordomo.Broker
