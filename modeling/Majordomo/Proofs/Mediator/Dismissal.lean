import Majordomo.Proofs.Mediator.Expiry

/-! # Dismissing everybody

Each worker that is told to disconnect is taken out of the registry and of both queues before the
next one is told. In whatever order that is done, nobody is left, and no service has lost more
than its idle workers.
-/
namespace Majordomo.Broker.Mediator
variable {m : Mediator}

def dismiss (es : List (String × Worker)) (m : Mediator) : Mediator :=
  es.foldl (fun m (key,worker) => (m.remove key).emit worker.identity Wire.disconnect) m

def farewells (es : List (String × Worker)) : List Outbound :=
  es.map fun e => ⟨e.2.identity,Wire.disconnect⟩

def cleared (m : Mediator) : Mediator :=
  { m with
    idle := []
    workers := .empty
    services := m.services.mapValues fun s => { s with idle := [] } }

namespace Consistent

theorem dismiss_eq_retain (h : m.Consistent) (es : List (String × Worker)) :
    m.dismiss es =
      { m.retain (· ∉ es.map (·.1)) with outbox := m.outbox ++ farewells es } := by
  induction es generalizing m with
  | nil =>
    have hself : m.retain (· ∉ ([] : List (String × Worker)).map (·.1)) = m :=
      h.retain_eq_self (by simp)
    rw [hself, farewells, List.map_nil, List.append_nil]
    rfl
  | cons e es ih =>
    obtain ⟨key,w⟩ := e
    have hone : ((m.remove key).emit w.identity Wire.disconnect).Consistent :=
      (h.remove key).congr rfl rfl rfl
    have hkept : (fun k => decide (k ∉ es.map (·.1)) && decide (k ≠ key)) =
        fun k => decide (k ∉ ((key,w) :: es).map (·.1)) := by
      funext k
      by_cases hk : k = key <;> simp [hk]
    have hgone : ((m.remove key).emit w.identity Wire.disconnect).retain (· ∉ es.map (·.1)) =
        { m.retain (· ∉ ((key,w) :: es).map (·.1)) with
          outbox := m.outbox ++ [⟨w.identity,Wire.disconnect⟩] } := by
      rw [← hkept, ← retain_retain, ← h.remove_eq_retain key]
      simp only [retain, emit, outbox_remove]
    calc m.dismiss ((key,w) :: es)
        = ((m.remove key).emit w.identity Wire.disconnect).dismiss es := rfl
      _ = _ := by
        rw [ih hone, hgone]
        simp only [emit, outbox_remove, farewells, List.map_cons, List.append_assoc,
          List.cons_append, List.nil_append]

/-- Where none of the registered workers is kept, nobody is. -/
theorem retain_eq_cleared (h : m.Consistent) {kept : String → Bool}
    (hk : ∀ key, m.workers.contains key = true → kept key = false) :
    m.retain kept = m.cleared := by
  have hnone {key : String} (hm : key ∈ m.idle) : ¬ kept key = true := by
    simp [hk key (h.registered key hm)]
  have hi : m.idle.filter kept = [] := List.filter_eq_nil_iff.mpr fun key hm => hnone hm
  have hw : m.workers.keep kept = .empty := by
    refine congrArg Table.mk (List.filter_eq_nil_iff.mpr fun e he => ?_)
    have hc := Table.mem_keys.mp (List.mem_map_of_mem he)
    simp [hk e.1 hc]
  have hs : m.services.mapValues (·.retain kept) =
      m.services.mapValues fun s => { s with idle := [] } := by
    refine congrArg Table.mk (List.map_congr_left fun e he => ?_)
    have hq := h.queues e.1
    rw [service_of_get? (h.services_unique.mem_entries.mp he)] at hq
    have hf : e.2.idle.filter kept = [] := by
      refine List.filter_eq_nil_iff.mpr fun key hm => hnone ?_
      rw [hq] at hm
      exact (List.mem_filter.mp hm).1
    have hkept : e.2.retain kept = { e.2 with idle := [] } :=
      congrArg (fun l => { e.2 with idle := l }) hf
    exact congrArg (e.1,·) hkept
  rw [retain, hi, hw, hs]
  rfl

/-- In whatever order everybody is told, the same is left. -/
theorem dismiss_eq_cleared (h : m.Consistent) {es : List (String × Worker)}
    (hp : es.Perm m.workers.entries) :
    m.dismiss es = { m.cleared with outbox := m.outbox ++ farewells es } := by
  rw [h.dismiss_eq_retain, h.retain_eq_cleared fun key hc => ?_]
  have hm : key ∈ es.map (·.1) := (hp.map _).mem_iff.mpr (Table.mem_keys.mpr hc)
  simpa using hm

theorem mem_farewells (h : m.Consistent) {o : Outbound} :
    o ∈ farewells m.workers.entries ↔
      ∃ key w, m.workers.get? key = some w ∧ o = ⟨w.identity,Wire.disconnect⟩ := by
  constructor
  · intro ho
    obtain ⟨⟨key,w⟩,he,rfl⟩ := List.mem_map.mp ho
    exact ⟨key,w,h.workers_unique.mem_entries.mp he,rfl⟩
  · rintro ⟨key,w,hw,rfl⟩
    exact List.mem_map.mpr ⟨(key,w),h.workers_unique.mem_entries.mpr hw,rfl⟩

theorem nodup_farewells (h : m.Consistent) : (farewells m.workers.entries).Nodup := by
  have hpeers : (farewells m.workers.entries).map (·.peer) =
      m.workers.values.map (·.identity) := by
    rw [farewells, Table.values, List.map_map, List.map_map]
    rfl
  exact List.Nodup.of_map (·.peer) (hpeers ▸ h.nodup_identities)

end Consistent

theorem disconnectAll_cleared (outbox : List Outbound) (m : Mediator) :
    disconnectAll { m.cleared with outbox } = { m.cleared with outbox } := rfl

/-- After every run, disconnecting everybody sends each registered worker one DISCONNECT, be it
idle or busy, and nothing else. Nobody is registered or idle afterwards; every service is there
still, with the requests that wait for it and its reply as they were. A second time changes
nothing, and the order in which the workers are told makes no other difference. -/
theorem everybody_is_dismissed (interval lifetime now : Nat) (ops : List Operation) :
    let m := (start interval lifetime now).run ops
    let t := m.disconnectAll
    (∃ told, t.outbox = m.outbox ++ told ∧ told.Nodup ∧ told.length = m.workers.size ∧
      ∀ o, o ∈ told ↔ ∃ key w, m.workers.get? key = some w ∧ o = ⟨w.identity,Wire.disconnect⟩) ∧
    ((∀ key, t.workers.get? key = none) ∧ t.idle = [] ∧ t.status.workers = 0) ∧
    (∀ name, t.services.get? name =
      (m.services.get? name).map fun s => { s with idle := [] }) ∧
    t.disconnectAll = t ∧
    ∀ es, es.Perm m.workers.entries →
      (m.dismiss es).outbox = m.outbox ++ farewells es ∧
      m.dismiss es = { t with outbox := (m.dismiss es).outbox } := by
  intro m t
  have h : m.Consistent := (consistent_start interval lifetime now).run ops
  have ht : t = { m.cleared with outbox := m.outbox ++ farewells m.workers.entries } :=
    h.dismiss_eq_cleared (.refl _)
  refine ⟨⟨farewells m.workers.entries,?_,h.nodup_farewells,List.length_map _,
      fun o => h.mem_farewells⟩,?_,fun name => ?_,?_,fun es hp => ?_⟩
  · rw [ht]
  · rw [ht]
    exact ⟨fun _ => rfl,rfl,rfl⟩
  · rw [ht]
    exact Table.get?_mapValues ..
  · rw [ht, disconnectAll_cleared]
  · rw [h.dismiss_eq_cleared hp, ht]
    exact ⟨rfl,rfl⟩

end Majordomo.Broker.Mediator
