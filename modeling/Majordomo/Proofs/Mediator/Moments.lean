import Majordomo.Proofs.Mediator.Own

/-! # The moments of an operation

What holds of every action of a plan and the state it finds is checked once for a dispatch
and once for what the operation does itself.
-/
namespace Majordomo.Broker.Mediator
variable {m : Mediator}

theorem mem_moments {plan : List Action} {x : Mediator × Action} (h : x ∈ m.moments plan) :
    ∃ before after, plan = before ++ x.2 :: after ∧ x.1 = m.follow before := by
  induction plan generalizing m with
  | nil => cases h
  | cons a plan ih =>
    rcases List.mem_cons.mp h with rfl | h
    · exact ⟨[],plan,rfl,rfl⟩
    · obtain ⟨before,after,rfl,ht⟩ := ih h
      exact ⟨a :: before,after,rfl,ht⟩

def Throughout (P : Mediator → Action → Prop) (m : Mediator) (plan : List Action) : Prop :=
  ∀ x ∈ m.moments plan, P x.1 x.2

section
variable {P : Mediator → Action → Prop}

@[simp] theorem throughout_cons {a : Action} {plan : List Action} :
    Throughout P m (a :: plan) ↔ P m a ∧ Throughout P (m.act a) plan := by
  simp only [Throughout, moments_cons, List.forall_mem_cons]

@[simp] theorem throughout_append {plan rest : List Action} :
    Throughout P m (plan ++ rest) ↔ Throughout P m plan ∧ Throughout P (m.follow plan) rest := by
  simp only [Throughout, moments_append, List.forall_mem_append]

theorem throughout_of_forall {plan : List Action} (h : ∀ a ∈ plan, ∀ t, P t a) :
    Throughout P m plan := by
  intro x hx
  obtain ⟨before,after,rfl,_⟩ := mem_moments hx
  exact h x.2 (by simp) x.1

end

/-! ## The plans -/

def Operation.time? : Operation → Option Nat
  | .handle _ _ now | .sweep now | .probe now => some now
  | .disconnectAll => none

def removals (m : Mediator) : Operation → List String
  | .handle sender frames _ =>
    match Wire.Inbound.ofFrames frames with
    | .ok (.worker (.ready _)) => if m.workers.contains sender.hex then [sender.hex] else []
    | .ok (.worker (.reply _)) | .ok (.worker .heartbeat) =>
      if m.workers.contains sender.hex then [] else [sender.hex]
    | .ok (.worker .disconnect) => [sender.hex]
    | _ => []
  | .sweep _ | .probe _ => []
  | .disconnectAll => m.workers.keys

section
variable {P : Mediator → Action → Prop} {now : Nat}
variable (hown : ∀ t a, a.isOwn = true → P t a) (hwake : ∀ t key, P t (.wake key now))
variable (hdispatch : ∀ (t : Mediator) (name : String), t.Consistent →
  Throughout P t (t.dispatchPlan name now))

include hown in
theorem throughout_of_isOwn {plan : List Action} (h : ∀ a ∈ plan, a.isOwn = true) :
    Throughout P m plan :=
  throughout_of_forall fun a ha t => hown t a (h a ha)

include hown in
theorem throughout_forwardPlan (service : String) (e : Envelope) (m : Mediator) :
    Throughout P m (forwardPlan service e) := by
  refine throughout_of_isOwn hown fun a ha => ?_
  obtain ⟨_,rfl⟩ := mem_forwardPlan ha
  rfl

include hown in
theorem throughout_turnAwayPlan (sender : Frame) (m : Mediator)
    (hremove : ∀ t, P t (.remove sender.hex)) : Throughout P m (turnAwayPlan sender) :=
  throughout_of_forall (by simp [turnAwayPlan, hown _ (.emit _ _) rfl, hremove])

include hwake hdispatch

theorem Consistent.throughout_renewPlan (h : m.Consistent) (key : String) :
    Throughout P m (m.renewPlan key now) := by
  unfold renewPlan
  split
  · exact throughout_of_forall (by simp)
  · exact throughout_cons.mpr ⟨hwake m key,hdispatch _ _ (h.awaken key now)⟩

theorem Consistent.throughout_wakeForRetryPlan (h : m.Consistent) (name : String)
    (sender : Frame) : Throughout P m (m.wakeForRetryPlan name sender now) := by
  unfold wakeForRetryPlan
  split
  · split
    · exact h.throughout_renewPlan hwake hdispatch _
    · exact throughout_of_forall (by simp)
  · exact throughout_of_forall (by simp)

include hown

theorem Consistent.throughout_requestPlan (h : m.Consistent) (sender service : Frame)
    (body : Message) : Throughout P m (m.requestPlan sender service body now) := by
  have hl := requestPlan_lawful m sender service body now
  unfold requestPlan at hl ⊢
  dsimp only at hl ⊢
  split
  · exact throughout_of_isOwn hown (by simp [Action.isOwn])
  · rename_i hn
    rw [if_neg hn, List.cons_append] at hl
    obtain ⟨hr,hl⟩ := hl
    obtain ⟨hw,hq,_⟩ := lawfulPlan_append.mp hl
    have hr := h.act hr
    have hq := (hr.follow hw).act hq
    rw [act_require, follow_wakeForRetryPlan] at hq
    rw [List.cons_append, throughout_cons, throughout_append, throughout_cons, act_require,
      follow_wakeForRetryPlan]
    exact ⟨hown m _ rfl,hr.throughout_wakeForRetryPlan hwake hdispatch _ sender,
      hown _ _ rfl,hdispatch _ _ hq⟩

theorem Consistent.throughout_commandPlan (h : m.Consistent) {sender : Frame} {frames : Message}
    {c : Wire.WorkerCommand} (hf : Wire.Inbound.ofFrames frames = .ok (.worker c))
    (hremove : ∀ t, ∀ key ∈ m.removals (.handle sender frames now), P t (.remove key)) :
    Throughout P m (m.commandPlan sender c now) := by
  have hl := commandPlan_lawful h sender c now
  simp only [removals, hf] at hremove
  cases c with
  | ready service =>
    simp only [commandPlan, readyPlan] at hl ⊢
    split
    · rename_i hw
      exact throughout_of_forall (by simpa [hw] using hremove)
    · rename_i hw
      rw [if_neg hw] at hl
      split
      · exact throughout_of_isOwn hown (by simp [Action.isOwn])
      · rename_i hi
        rw [if_neg hi] at hl
        refine throughout_append.mpr ⟨throughout_of_isOwn hown (by simp [enrolPlan, Action.isOwn]),?_⟩
        exact (h.follow (lawfulPlan_append.mp hl).1).throughout_renewPlan hwake hdispatch _
  | reply e =>
    simp only [commandPlan] at hl ⊢
    cases hw : m.workers.get? sender.hex with
    | none =>
      exact throughout_turnAwayPlan hown sender m (by simpa [Table.contains, hw] using hremove)
    | some w =>
      rw [hw, Option.elim_some] at hl
      refine throughout_append.mpr ⟨throughout_append.mpr ⟨?_,?_⟩,?_⟩
      · exact throughout_forwardPlan hown _ e m
      · exact throughout_of_isOwn hown (by simp [Action.isOwn])
      · exact (h.follow (lawfulPlan_append.mp hl).1).throughout_renewPlan hwake hdispatch _
  | heartbeat =>
    simp only [commandPlan]
    split
    · exact h.throughout_renewPlan hwake hdispatch _
    · rename_i hw
      exact throughout_turnAwayPlan hown sender m (by simpa [hw] using hremove)
  | disconnect => exact throughout_of_forall (by simpa [commandPlan] using hremove)
  | shutdown e named =>
    simp only [commandPlan]
    cases ((m.workers.get? sender.hex).map (·.service)).or named with
    | none => exact throughout_of_forall (by simp)
    | some service => exact throughout_forwardPlan hown service e m
  | unknown frame => exact throughout_of_forall (by simp [commandPlan])

end

/-- What holds of the operation's own actions, of those it removes and throughout its dispatches
holds throughout its plan. -/
theorem Consistent.throughout_plan {P : Mediator → Action → Prop} {op : Operation}
    (h : m.Consistent) (hown : ∀ t a, a.isOwn = true → P t a)
    (hwake : ∀ t key now, P t (.wake key now))
    (hdispatch : ∀ (t : Mediator) name now, t.Consistent → op.time? = some now →
      Throughout P t (t.dispatchPlan name now))
    (hremove : ∀ t, ∀ key ∈ m.removals op, P t (.remove key)) :
    Throughout P m (m.plan op) := by
  cases op with
  | handle sender frames now =>
    have hd (t : Mediator) (name : String) (ht : t.Consistent) := hdispatch t name now ht rfl
    simp only [plan]
    split
    · exact throughout_of_forall (by simp)
    · exact h.throughout_requestPlan hown (hwake · · now) hd _ _ _
    · rename_i hf
      exact h.throughout_commandPlan hown (hwake · · now) hd hf hremove
  | sweep now => exact (throughout_append.mp (hdispatch m "" now h rfl)).1
  | probe now =>
    refine throughout_of_isOwn hown fun a ha => ?_
    simp only [plan, probePlan] at ha
    split at ha
    · cases ha
    · rcases List.mem_append.mp ha with ha | ha
      · obtain ⟨w,_,rfl⟩ := List.mem_map.mp ha
        rfl
      · exact List.mem_singleton.mp ha ▸ rfl
  | disconnectAll =>
    refine throughout_of_forall fun a ha t => ?_
    obtain ⟨⟨key,w⟩,hm,ha⟩ := List.mem_flatMap.mp ha
    simp only [List.mem_cons, List.not_mem_nil, or_false] at ha
    rcases ha with rfl | rfl
    · exact hremove t key (List.mem_map_of_mem hm)
    · exact hown t _ rfl

end Majordomo.Broker.Mediator
