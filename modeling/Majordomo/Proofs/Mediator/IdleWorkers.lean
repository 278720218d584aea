import Majordomo.Proofs.Mediator.Runs
import Mathlib

/-! # Idle workers

After every run the queues of the services are the queue of all idle workers, split by
the service that each of them is bound to; so every idle worker is counted once.
-/
namespace Majordomo.Broker.Mediator

theorem sum_ite_eq_count {β : Type} [DecidableEq β] (names : List β) (name : β) :
    (names.map fun n => if n = name then 1 else 0).sum = names.count name := by
  induction names with
  | nil => rfl
  | cons n names ih =>
    rw [List.map_cons, List.sum_cons, ih, List.count_cons, Nat.add_comm]
    simp only [beq_iff_eq]

/-- Splitting a list by a key that every member has counts each member once. -/
theorem sum_length_filter {α β : Type} [DecidableEq β] {names : List β} (hn : names.Nodup)
    (p : β → α → Bool) (l : List α)
    (h : ∀ a ∈ l, ∃ name ∈ names, ∀ n, p n a = decide (n = name)) :
    (names.map fun n => (l.filter (p n)).length).sum = l.length := by
  induction l with
  | nil => simp
  | cons a l ih =>
    obtain ⟨name,hm,hp⟩ := h a (List.mem_cons_self ..)
    have hl := ih fun b hb => h b (List.mem_cons_of_mem a hb)
    have hs : ∀ n, ((a :: l).filter (p n)).length =
        (if n = name then 1 else 0) + (l.filter (p n)).length := by
      intro n
      by_cases hn : n = name <;> simp [hp, hn, Nat.add_comm]
    have hc : (names.map fun n => if n = name then 1 else 0).sum = 1 := by
      rw [sum_ite_eq_count, List.count_eq_one_of_mem hn hm]
    calc (names.map fun n => ((a :: l).filter (p n)).length).sum
        = (names.map fun n => (if n = name then 1 else 0) + (l.filter (p n)).length).sum := by
          simp only [hs]
      _ = (names.map fun n => if n = name then 1 else 0).sum +
          (names.map fun n => (l.filter (p n)).length).sum := List.sum_map_add
      _ = (a :: l).length := by rw [hc, hl, List.length_cons, Nat.add_comm]

namespace Consistent
variable {m : Mediator}

/-- The counts of the services add up to the count of all idle workers. -/
theorem sum_idle (h : m.Consistent) :
    (m.services.values.map (·.idle.length)).sum = m.idle.length := by
  have he : m.services.values.map (·.idle.length) =
      m.services.keys.map fun name => (m.idle.filter (m.isBound name)).length := by
    simp only [Table.values, Table.keys, List.map_map]
    apply List.map_congr_left
    intro e he
    have hs := service_of_get? (h.services_unique.mem_entries.mp he)
    change e.2.idle.length = _
    rw [← hs, h.queues]
    rfl
  rw [he]
  apply sum_length_filter h.services_unique
  intro key hk
  obtain ⟨w,hw⟩ := h.get?_of_mem_idle hk
  refine ⟨w.service,Table.mem_keys.mpr (h.served key w hw),?_⟩
  intro name
  simp [isBound, hw, eq_comm]

theorem length_idle_le (h : m.Consistent) : m.idle.length ≤ m.workers.size := by
  have hs : m.idle ⊆ m.workers.keys := fun key hk => Table.mem_keys.mpr (h.registered key hk)
  have hl := (List.subperm_of_subset h.idle_nodup hs).length_le
  simpa [Table.keys, Table.size] using hl

theorem idle_disjoint (h : m.Consistent) {key name name' : String}
    (hk : key ∈ (m.service name).idle) (hk' : key ∈ (m.service name').idle) : name = name' := by
  rw [h.queues] at hk hk'
  obtain ⟨w,hw,rfl⟩ := isBound_iff.mp (List.mem_filter.mp hk).2
  obtain ⟨v,hv,rfl⟩ := isBound_iff.mp (List.mem_filter.mp hk').2
  rw [Option.some.inj (hw.symm.trans hv)]

end Consistent

/-- After every run each worker is registered under the text of its own identity and bound
to a registered service that is no internal one; the idle workers are registered and
differ; and each service has those of them in its queue that are bound to it, in the same
order. Hence no worker is idle in two services, and the counts agree. -/
theorem idle_queues_partition (interval lifetime now : Nat) (ops : List Operation) :
    let m := (start interval lifetime now).run ops
    (∀ key w, m.workers.get? key = some w →
      key = w.identity.hex ∧ m.services.contains w.service = true ∧
        Wire.isInternal w.service = false) ∧
    m.idle.Nodup ∧ (∀ key ∈ m.idle, m.workers.contains key = true) ∧
    (∀ name s, m.services.get? name = some s → s.idle = m.idle.filter (m.isBound name)) ∧
    (∀ key name name' s s', m.services.get? name = some s → m.services.get? name' = some s' →
      key ∈ s.idle → key ∈ s'.idle → name = name') ∧
    m.status.idle = (m.services.values.map (·.idle.length)).sum ∧
    m.status.idle ≤ m.status.workers := by
  intro m
  have h : m.Consistent := (consistent_start interval lifetime now).run ops
  refine ⟨?_,h.idle_nodup,h.registered,?_,?_,h.sum_idle.symm,h.length_idle_le⟩
  · intro key w hw
    have hs := h.served key w hw
    exact ⟨h.keyed key w hw,hs,h.external w.service hs⟩
  · intro name s hs
    rw [← service_of_get? hs, h.queues]
  · intro key name name' s s' hs hs' hk hk'
    rw [← service_of_get? hs] at hk
    rw [← service_of_get? hs'] at hk'
    exact h.idle_disjoint hk hk'

end Majordomo.Broker.Mediator
