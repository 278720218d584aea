import Majordomo.Proofs.Mediator.Consistency

/-! # Runs keep the registries in agreement

The plan of every operation on consistent registries is lawful, so every run from
the start keeps them consistent.
-/
namespace Majordomo.Broker.Mediator
variable {m : Mediator}

theorem contains_act {name : String} (h : m.services.contains name = true) (a : Action) :
    (m.act a).services.contains name = true := by
  have hset : ∀ n s, (m.services.set n s).contains name = true := by
    intro n s
    rw [Table.contains_set]
    exact Bool.or_eq_true_iff.mpr (.inr h)
  cases a with
  | emit | enrol | schedule => exact h
  | require n =>
    change (m.require n).services.contains name = true
    rw [contains_require]
    exact Bool.or_eq_true_iff.mpr (.inr h)
  | queue n e => exact hset n _
  | settle n => exact hset n _
  | wake key now =>
    change (m.awaken key now).services.contains name = true
    cases hw : m.workers.get? key with
    | none => rwa [awaken_of_get?_eq_none now hw]
    | some w =>
      rw [awaken_of_get? now hw]
      exact hset w.service _
  | remove key =>
    change (m.remove key).services.contains name = true
    cases hw : m.workers.get? key with
    | none => rwa [remove_of_get?_eq_none hw]
    | some w =>
      obtain ⟨s,hs⟩ := (Table.contains_iff _ _).mp h
      rw [remove_of_get? hw, Table.contains_iff, Table.get?_modify]
      split <;> simp [hs]
  | pair n =>
    change (m.pairOldest n).services.contains name = true
    unfold pairOldest
    split
    · dsimp only
      split <;> exact hset n _
    · exact h

theorem contains_follow {name : String} (h : m.services.contains name = true)
    (plan : List Action) : (m.follow plan).services.contains name = true := by
  induction plan generalizing m with
  | nil => exact h
  | cons a plan ih => exact ih (contains_act h a)

/-! ## Dispatching -/

/-- An action of a dispatch: it is lawful anywhere. -/
inductive Action.Dispatching : Action → Prop
  | wake (key : String) (now : Nat) : Dispatching (.wake key now)
  | remove (key : String) : Dispatching (.remove key)
  | pair (name : String) : Dispatching (.pair name)

theorem lawfulPlan_of_dispatching {plan : List Action} (h : ∀ a ∈ plan, a.Dispatching) :
    m.LawfulPlan plan := by
  induction plan generalizing m with
  | nil => trivial
  | cons a plan ih =>
    have ha := h a (List.mem_cons_self ..)
    exact ⟨by cases ha <;> trivial,ih fun b hb => h b (List.mem_cons_of_mem a hb)⟩

theorem sweepPlan_dispatching (now : Nat) (m : Mediator) :
    ∀ a ∈ m.sweepPlan now, a.Dispatching := by
  intro a ha
  obtain ⟨key,_,rfl⟩ := List.mem_map.mp ha
  exact .remove key

theorem dispatchPlan_dispatching (name : String) (now : Nat) (m : Mediator) :
    ∀ a ∈ m.dispatchPlan name now, a.Dispatching := by
  intro a ha
  rcases List.mem_append.mp ha with ha | ha
  · exact sweepPlan_dispatching now m a ha
  · exact List.eq_of_mem_replicate ha ▸ .pair name

theorem renewPlan_dispatching (key : String) (now : Nat) (m : Mediator) :
    ∀ a ∈ m.renewPlan key now, a.Dispatching := by
  intro a ha
  unfold renewPlan at ha
  split at ha
  · cases ha
  · rcases List.mem_cons.mp ha with rfl | ha
    · exact .wake key now
    · exact dispatchPlan_dispatching _ now _ a ha

theorem wakeForRetryPlan_dispatching (name : String) (sender : Frame) (now : Nat) (m : Mediator) :
    ∀ a ∈ m.wakeForRetryPlan name sender now, a.Dispatching := by
  intro a ha
  unfold wakeForRetryPlan at ha
  split at ha
  · split at ha
    · exact renewPlan_dispatching _ now m a ha
    · cases ha
  · cases ha

/-! ## Plans are lawful -/

theorem requestPlan_lawful (m : Mediator) (sender service : Frame) (body : Message) (now : Nat) :
    m.LawfulPlan (m.requestPlan sender service body now) := by
  unfold requestPlan
  dsimp only
  split
  · exact ⟨Wire.requestOf?_clientMessage ..,trivial⟩
  · rename_i hn
    have hn : Wire.isInternal service.toText = false := by simpa using hn
    rw [List.cons_append]
    refine ⟨hn,lawfulPlan_append.mpr ⟨?_,⟨?_,rfl⟩,?_⟩⟩
    · exact lawfulPlan_of_dispatching (wakeForRetryPlan_dispatching _ _ _ _)
    · apply contains_follow
      exact (contains_require ..).trans (by simp)
    · exact lawfulPlan_of_dispatching (dispatchPlan_dispatching _ _ _)

theorem readyPlan_lawful (m : Mediator) (sender : Frame) (service : String) (now : Nat) :
    m.LawfulPlan (m.readyPlan sender service now) := by
  unfold readyPlan
  split
  · exact ⟨trivial,trivial⟩
  · rename_i hw
    split
    · exact ⟨Wire.requestOf?_disconnect,trivial⟩
    · rename_i hs
      refine lawfulPlan_append.mpr ⟨⟨by simpa [Action.Lawful] using hs,⟨?_,?_⟩,trivial⟩,?_⟩
      · simpa [act] using hw
      · exact (contains_require ..).trans (by simp)
      · exact lawfulPlan_of_dispatching (renewPlan_dispatching _ _ _)

theorem forwardPlan_lawful (m : Mediator) (service : String) (e : Envelope) :
    m.LawfulPlan (forwardPlan service e) := by
  unfold forwardPlan
  cases e.address? with
  | none => trivial
  | some client => exact ⟨Wire.requestOf?_clientMessage ..,trivial⟩

theorem services_follow_forwardPlan (m : Mediator) (service : String) (e : Envelope) :
    (m.follow (forwardPlan service e)).services = m.services := by
  unfold forwardPlan
  cases e.address? <;> rfl

/-- Nobody is registered or renewed where a reply is passed on. -/
theorem workers_follow_settled (m : Mediator) (service : String) (e : Envelope) :
    (m.follow (forwardPlan service e ++ [.settle service])).workers = m.workers := by
  rw [follow_append, follow_forwardPlan, forward]
  cases e.address? <;> rfl

theorem turnAwayPlan_lawful (m : Mediator) (sender : Frame) :
    m.LawfulPlan (turnAwayPlan sender) :=
  ⟨Wire.requestOf?_disconnect,trivial,trivial⟩

theorem commandPlan_lawful (h : m.Consistent) (sender : Frame) (c : Wire.WorkerCommand)
    (now : Nat) : m.LawfulPlan (m.commandPlan sender c now) := by
  cases c with
  | ready service => exact readyPlan_lawful m sender service now
  | reply e =>
    simp only [commandPlan]
    cases hw : m.workers.get? sender.hex with
    | none => exact turnAwayPlan_lawful m sender
    | some w =>
      have hs : (m.follow (forwardPlan w.service e)).services.contains w.service = true := by
        rw [services_follow_forwardPlan]
        exact h.served _ w hw
      exact lawfulPlan_append.mpr ⟨lawfulPlan_append.mpr ⟨forwardPlan_lawful ..,hs,trivial⟩,
        lawfulPlan_of_dispatching (renewPlan_dispatching _ _ _)⟩
  | heartbeat =>
    simp only [commandPlan]
    split
    · exact lawfulPlan_of_dispatching (renewPlan_dispatching _ _ _)
    · exact turnAwayPlan_lawful m sender
  | disconnect => exact ⟨trivial,trivial⟩
  | shutdown e named =>
    simp only [commandPlan]
    cases ((m.workers.get? sender.hex).map (·.service)).or named with
    | none => trivial
    | some service => exact forwardPlan_lawful m service e
  | unknown frame => trivial

theorem probePlan_lawful (m : Mediator) (now : Nat) : m.LawfulPlan (m.probePlan now) := by
  unfold probePlan
  split
  · trivial
  · refine lawfulPlan_append.mpr ⟨?_,trivial,trivial⟩
    generalize m.idle.filterMap m.workers.get? = ws
    clear * -
    induction ws generalizing m with
    | nil => trivial
    | cons w ws ih => exact ⟨Wire.requestOf?_heartbeat,ih _⟩

theorem disconnectAllPlan_lawful (m : Mediator) : m.LawfulPlan m.disconnectAllPlan := by
  unfold disconnectAllPlan
  generalize m.workers.entries = es
  induction es generalizing m with
  | nil => trivial
  | cons e es ih => exact ⟨trivial,Wire.requestOf?_disconnect,ih _⟩

/-- On consistent registries every operation proceeds lawfully. -/
theorem plan_lawful (h : m.Consistent) (op : Operation) : m.LawfulPlan (m.plan op) := by
  cases op with
  | handle sender frames now =>
    simp only [plan]
    cases Wire.Inbound.ofFrames frames with
    | error v => trivial
    | ok i =>
      cases i with
      | client service body => exact requestPlan_lawful m sender service body now
      | worker c => exact commandPlan_lawful h sender c now
  | sweep now => exact lawfulPlan_of_dispatching (sweepPlan_dispatching now m)
  | probe now => exact probePlan_lawful m now
  | disconnectAll => exact disconnectAllPlan_lawful m

theorem Consistent.apply (h : m.Consistent) (op : Operation) : (m.apply op).1.Consistent := by
  rw [← follow_plan]
  exact h.follow (plan_lawful h op)

/-! ## Runs -/

@[simp] theorem run_nil (m : Mediator) : m.run [] = m := rfl
@[simp] theorem run_cons (m : Mediator) (op : Operation) (ops : List Operation) :
    m.run (op :: ops) = (m.apply op).1.run ops := rfl
@[simp] theorem run_append (m : Mediator) (ops rest : List Operation) :
    m.run (ops ++ rest) = (m.run ops).run rest := List.foldl_append ..

theorem Consistent.run (h : m.Consistent) (ops : List Operation) : (m.run ops).Consistent := by
  induction ops generalizing m with
  | nil => exact h
  | cons op ops ih => exact ih (h.apply op)

end Majordomo.Broker.Mediator
