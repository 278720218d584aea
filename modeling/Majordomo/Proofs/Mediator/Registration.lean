import Majordomo.Proofs.Mediator.Own

/-! # Who is registered

A worker is registered by a READY of its own and by nothing else.
-/
namespace Majordomo.Broker.Mediator
variable {m : Mediator}

def Action.registersNone : Action → Bool
  | .enrol .. => false
  | _ => true

/-- An entry was there before the action, unless the action put it there. -/
theorem get?_workers_act {a : Action} {key : String} {w : Worker}
    (h : (m.act a).workers.get? key = some w) :
    m.workers.get? key = some w ∨
    (∃ identity service expiry, a = .enrol identity service expiry ∧ key = identity.hex ∧
      w = { identity, service, expiry }) ∨
    ∃ now v, a = .wake key now ∧ m.workers.get? key = some v ∧
      w = { v with expiry := now + m.lifetime } := by
  cases a with
  | emit | queue | settle | schedule => exact .inl h
  | require n =>
    rw [act_require, workers_require] at h
    exact .inl h
  | enrol identity service expiry =>
    rw [act_enrol, Table.get?_set] at h
    split at h
    · rename_i hk
      cases h
      exact .inr (.inl ⟨identity,service,expiry,rfl,hk.symm,rfl⟩)
    · exact .inl h
  | wake k now =>
    rw [act_wake] at h
    cases hv : m.workers.get? k with
    | none =>
      rw [awaken_of_get?_eq_none now hv] at h
      exact .inl h
    | some v =>
      rw [awaken_of_get? now hv, workers_updateService, Table.get?_set] at h
      split at h
      · rename_i hk
        subst hk
        cases h
        exact .inr (.inr ⟨now,v,rfl,hv,rfl⟩)
      · exact .inl h
  | remove k =>
    rw [act_remove, get?_workers_remove] at h
    split at h
    · cases h
    · exact .inl h
  | pair n =>
    rw [act_pair, workers_pairOldest] at h
    exact .inl h

/-- Who is registered after an action that registers nobody was before, and is not removed. -/
theorem contains_workers_of_act {a : Action} (ha : a.registersNone = true) {key : String}
    (h : (m.act a).workers.contains key = true) :
    m.workers.contains key = true ∧ a ≠ .remove key := by
  obtain ⟨w,hw⟩ := (Table.contains_iff _ _).mp h
  refine ⟨?_,?_⟩
  · rcases get?_workers_act hw with hw | ⟨_,_,_,rfl,_⟩ | ⟨_,v,_,hv,_⟩
    · exact (Table.contains_iff _ _).mpr ⟨w,hw⟩
    · cases ha
    · exact (Table.contains_iff _ _).mpr ⟨v,hv⟩
  · rintro rfl
    rw [act_remove, get?_workers_remove, if_pos rfl] at hw
    cases hw

theorem contains_workers_of_follow {plan : List Action}
    (hn : ∀ a ∈ plan, a.registersNone = true) {key : String}
    (h : (m.follow plan).workers.contains key = true) : m.workers.contains key = true := by
  induction plan generalizing m with
  | nil => exact h
  | cons a plan ih =>
    have hw := ih (fun b hb => hn b (List.mem_cons_of_mem a hb)) h
    exact (contains_workers_of_act (hn a (List.mem_cons_self ..)) hw).1

@[simp] theorem workers_follow_enrolPlan (sender : Frame) (service : String) (now : Nat)
    (m : Mediator) :
    (m.follow (m.enrolPlan sender service now)).workers =
      m.workers.set sender.hex ⟨sender,service,now + m.lifetime⟩ := by
  simp [enrolPlan]

@[simp] theorem idle_follow_enrolPlan (sender : Frame) (service : String) (now : Nat)
    (m : Mediator) : (m.follow (m.enrolPlan sender service now)).idle = m.idle :=
  idle_require m service

theorem registersNone_of_dispatching {a : Action} (h : a.Dispatching) : a.registersNone = true := by
  cases h <;> rfl

theorem registersNone_forwardPlan (service : String) (e : Envelope) :
    ∀ a ∈ forwardPlan service e, a.registersNone = true := by
  intro a ha
  obtain ⟨_,rfl⟩ := mem_forwardPlan ha
  rfl

/-- Of its own an operation registers nobody, but a READY does so that is accepted. -/
theorem registersNone_ownPlan (m : Mediator) {op : Operation}
    (h : ∀ sender frames now service, op = .handle sender frames now →
      Wire.Inbound.ofFrames frames = .ok (.worker (.ready service)) →
      m.workers.contains sender.hex = true ∨ Wire.isInternal service = true) :
    ∀ a ∈ m.ownPlan op, a.registersNone = true := by
  cases op with
  | handle sender frames now =>
    simp only [ownPlan]
    cases hi : Wire.Inbound.ofFrames frames with
    | error v => simp
    | ok i =>
      cases i with
      | client service body =>
        simp only [ownRequest]
        split <;> simp [Action.registersNone]
      | worker c =>
        cases c with
        | ready service =>
          rcases h sender frames now service rfl hi with hw | hn
          · simp [ownCommand, hw]
          · simp only [ownCommand, hn, if_true]
            split <;> simp [Action.registersNone]
        | reply e =>
          simp only [ownCommand]
          cases m.workers.get? sender.hex with
          | none => simp [Action.registersNone]
          | some w =>
            intro a ha
            rcases List.mem_append.mp ha with ha | ha
            · exact registersNone_forwardPlan _ _ a ha
            · exact List.mem_singleton.mp ha ▸ rfl
        | heartbeat =>
          simp only [ownCommand]
          split <;> simp [Action.registersNone]
        | disconnect | unknown frame => simp [ownCommand]
        | shutdown e named =>
          simp only [ownCommand]
          cases ((m.workers.get? sender.hex).map (·.service)).or named with
          | none => simp
          | some service => exact registersNone_forwardPlan service e
  | sweep now => simp [ownPlan]
  | probe now =>
    intro a ha
    simp only [ownPlan, probePlan] at ha
    split at ha
    · cases ha
    · rcases List.mem_append.mp ha with ha | ha
      · obtain ⟨w,_,rfl⟩ := List.mem_map.mp ha
        rfl
      · exact List.mem_singleton.mp ha ▸ rfl
  | disconnectAll =>
    intro a ha
    obtain ⟨e,_,rfl⟩ := List.mem_map.mp ha
    rfl

/-- The plan of an operation registers nobody, or it is the plan of an accepted READY. -/
theorem plan_registers (m : Mediator) (op : Operation) :
    (∀ a ∈ m.plan op, a.registersNone = true) ∨
    ∃ sender frames now service, op = .handle sender frames now ∧
      Wire.Inbound.ofFrames frames = .ok (.worker (.ready service)) ∧
      m.workers.contains sender.hex = false ∧ Wire.isInternal service = false ∧
      m.plan op = m.enrolPlan sender service now ++
        (m.follow (m.enrolPlan sender service now)).renewPlan sender.hex now := by
  by_cases h : ∃ sender frames now service, op = .handle sender frames now ∧
      Wire.Inbound.ofFrames frames = .ok (.worker (.ready service)) ∧
      m.workers.contains sender.hex = false ∧ Wire.isInternal service = false
  · obtain ⟨sender,frames,now,service,rfl,hi,hw,hn⟩ := h
    refine .inr ⟨sender,frames,now,service,rfl,hi,hw,hn,?_⟩
    simp [plan, hi, commandPlan, readyPlan, hw, hn]
  · left
    intro a ha
    cases ho : a.isOwn with
    | false => cases a <;> first | rfl | cases ho
    | true =>
      refine registersNone_ownPlan m ?_ a (filter_isOwn_plan m op ▸ List.mem_filter.mpr ⟨ha,ho⟩)
      intro sender frames now service hop hi
      by_contra hc
      rw [not_or, Bool.not_eq_true, Bool.not_eq_true] at hc
      exact h ⟨sender,frames,now,service,hop,hi,hc.1,hc.2⟩

end Majordomo.Broker.Mediator
