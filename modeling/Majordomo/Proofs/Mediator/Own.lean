import Majordomo.Proofs.Mediator.Runs

/-! # What an operation does of its own

Between the few actions that an operation is about it wakes, removes and pairs workers.
What these cannot change need be checked for the few alone.
-/
namespace Majordomo.Broker.Mediator
variable {m : Mediator}

/-- The action is none of a dispatch. -/
def Action.isOwn : Action → Bool
  | .wake .. | .remove _ | .pair _ => false
  | _ => true

def ownRequest (sender service : Frame) (body : Message) (m : Mediator) : List Action :=
  if Wire.isInternal service.toText then [.emit sender (m.internalReply service.toText body)]
  else [.require service.toText, .queue service.toText ((Envelope.ofBody body).wrap sender)]

def ownCommand (sender : Frame) (c : Wire.WorkerCommand) (now : Nat) (m : Mediator) :
    List Action :=
  match c with
  | .ready service =>
    if m.workers.contains sender.hex then []
    else if Wire.isInternal service then [.emit sender Wire.disconnect]
    else m.enrolPlan sender service now
  | .reply e =>
    (m.workers.get? sender.hex).elim [.emit sender Wire.disconnect] fun worker =>
      forwardPlan worker.service e ++ [.settle worker.service]
  | .heartbeat => if m.workers.contains sender.hex then [] else [.emit sender Wire.disconnect]
  | .disconnect => []
  | .shutdown e named =>
    (((m.workers.get? sender.hex).map (·.service)).or named).elim [] (forwardPlan · e)
  | .unknown _ => []

/-- The actions of an operation without those of its dispatches. -/
def ownPlan (m : Mediator) : Operation → List Action
  | .handle sender frames now =>
    match Wire.Inbound.ofFrames frames with
    | .error _ => []
    | .ok (.client service body) => m.ownRequest sender service body
    | .ok (.worker c) => m.ownCommand sender c now
  | .sweep _ => []
  | .probe now => m.probePlan now
  | .disconnectAll => m.workers.entries.map fun (_,worker) => .emit worker.identity Wire.disconnect

theorem filter_isOwn_of_dispatching {plan : List Action} (h : ∀ a ∈ plan, a.Dispatching) :
    plan.filter (·.isOwn) = [] := by
  apply List.filter_eq_nil_iff.mpr
  intro a ha
  cases h a ha <;> simp [Action.isOwn]

theorem filter_isOwn_forwardPlan (service : String) (e : Envelope) :
    (forwardPlan service e).filter (·.isOwn) = forwardPlan service e := by
  unfold forwardPlan
  cases e.address? <;> rfl

theorem filter_isOwn_requestPlan (sender service : Frame) (body : Message) (now : Nat)
    (m : Mediator) :
    (m.requestPlan sender service body now).filter (·.isOwn) =
      m.ownRequest sender service body := by
  unfold requestPlan ownRequest
  dsimp only
  split
  · rfl
  · rw [List.cons_append, List.filter_cons_of_pos rfl, List.filter_append,
      List.filter_cons_of_pos rfl, filter_isOwn_of_dispatching (dispatchPlan_dispatching _ _ _),
      filter_isOwn_of_dispatching (wakeForRetryPlan_dispatching _ _ _ _)]
    rfl

theorem filter_isOwn_commandPlan (sender : Frame) (c : Wire.WorkerCommand) (now : Nat)
    (m : Mediator) :
    (m.commandPlan sender c now).filter (·.isOwn) = m.ownCommand sender c now := by
  have hr : ∀ key (t : Mediator), (t.renewPlan key now).filter (·.isOwn) = [] :=
    fun key t => filter_isOwn_of_dispatching (renewPlan_dispatching key now t)
  cases c with
  | ready service =>
    simp only [commandPlan, readyPlan, ownCommand]
    split
    · rfl
    · split
      · rfl
      · rw [List.filter_append, hr]
        rfl
  | reply e =>
    simp only [commandPlan, ownCommand]
    cases m.workers.get? sender.hex with
    | none => rfl
    | some w =>
      rw [Option.elim_some, Option.elim_some, replyPlan, List.filter_append, hr,
        List.filter_append, filter_isOwn_forwardPlan]
      simp [Action.isOwn]
  | heartbeat =>
    simp only [commandPlan, ownCommand]
    split
    · exact hr _ m
    · rfl
  | disconnect => rfl
  | shutdown e named =>
    simp only [commandPlan, ownCommand]
    cases ((m.workers.get? sender.hex).map (·.service)).or named with
    | none => rfl
    | some service => exact filter_isOwn_forwardPlan service e
  | unknown frame => rfl

/-- A plan is the operation's own actions among those of dispatches. -/
theorem filter_isOwn_plan (m : Mediator) (op : Operation) :
    (m.plan op).filter (·.isOwn) = m.ownPlan op := by
  cases op with
  | handle sender frames now =>
    simp only [plan, ownPlan]
    cases Wire.Inbound.ofFrames frames with
    | error v => rfl
    | ok i =>
      cases i with
      | client service body => exact filter_isOwn_requestPlan sender service body now m
      | worker c => exact filter_isOwn_commandPlan sender c now m
  | sweep now => exact filter_isOwn_of_dispatching (sweepPlan_dispatching now m)
  | probe now =>
    simp only [plan, ownPlan, probePlan]
    split
    · rfl
    · apply List.filter_eq_self.mpr
      intro a ha
      rcases List.mem_append.mp ha with ha | ha
      · obtain ⟨w,_,rfl⟩ := List.mem_map.mp ha
        rfl
      · exact List.mem_singleton.mp ha ▸ rfl
  | disconnectAll =>
    simp only [plan, ownPlan, disconnectAllPlan, List.filter_flatMap, List.map_eq_flatMap]
    rfl

/-- What dispatches add nothing to comes of the operation's own actions. -/
theorem flatMap_plan {α : Type} {f : Action → List α} (h : ∀ a : Action, a.isOwn = false → f a = [])
    (m : Mediator) (op : Operation) : (m.plan op).flatMap f = (m.ownPlan op).flatMap f := by
  rw [← filter_isOwn_plan]
  induction m.plan op with
  | nil => rfl
  | cons a plan ih =>
    cases ha : a.isOwn with
    | false => rw [List.flatMap_cons, h a ha, ih, List.filter_cons_of_neg (by simp [ha])]; rfl
    | true => rw [List.filter_cons_of_pos ha, List.flatMap_cons, List.flatMap_cons, ih]

end Majordomo.Broker.Mediator
