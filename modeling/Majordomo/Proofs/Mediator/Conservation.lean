import Majordomo.Proofs.Mediator.Own

/-! # Requests are conserved

What an action sends stands at the end of the outbox. The requests that were sent for a
service, followed by those that still wait for it, are the requests that its clients
made, in the same order.
-/
namespace Majordomo.Broker.Mediator
variable {m : Mediator}

def emitted (m : Mediator) (a : Action) : List Outbound := (m.act a).outbox.drop m.outbox.length

theorem outbox_pairOldest (name : String) :
    ∃ os, (m.pairOldest name).outbox = m.outbox ++ os := by
  unfold pairOldest
  split
  · dsimp only
    split
    · exact ⟨_,rfl⟩
    · exact ⟨[],(List.append_nil _).symm⟩
  · exact ⟨[],(List.append_nil _).symm⟩

/-- The outbox only grows. -/
theorem outbox_act (m : Mediator) (a : Action) : (m.act a).outbox = m.outbox ++ m.emitted a := by
  have hx : ∃ os, (m.act a).outbox = m.outbox ++ os := by
    cases a with
    | emit peer frames => exact ⟨_,rfl⟩
    | pair name => exact outbox_pairOldest name
    | require name => exact ⟨[],by simp⟩
    | wake key now => exact ⟨[],by simp⟩
    | remove key => exact ⟨[],by simp⟩
    | queue | enrol | settle | schedule => exact ⟨[],(List.append_nil _).symm⟩
  obtain ⟨os,hos⟩ := hx
  rw [emitted, hos, List.drop_left]

theorem emitted_eq {a : Action} {os : List Outbound} (h : (m.act a).outbox = m.outbox ++ os) :
    m.emitted a = os :=
  List.append_cancel_left ((outbox_act m a).symm.trans h)

theorem outbox_follow (m : Mediator) (plan : List Action) :
    (m.follow plan).outbox = m.outbox ++ (m.moments plan).flatMap fun (t,a) => t.emitted a := by
  induction plan generalizing m with
  | nil => simp
  | cons a plan ih =>
    rw [follow_cons, ih, outbox_act, moments_cons, List.flatMap_cons, List.append_assoc]

def dispatched (name : String) (m : Mediator) (a : Action) : List Envelope :=
  (m.emitted a).filterMap fun o =>
    if m.isBound name o.peer.hex then Wire.requestOf? o.frames else none

def Action.queued (name : String) : Action → List Envelope
  | .queue n e => if n = name then [e] else []
  | _ => []

theorem dispatched_eq_nil {name : String} {a : Action}
    (h : ∀ o ∈ m.emitted a, Wire.requestOf? o.frames = none) : m.dispatched name a = [] := by
  apply List.filterMap_eq_nil_iff.mpr
  intro o ho
  simp [h o ho]

theorem emitted_eq_nil {a : Action} (h : (m.act a).outbox = m.outbox) : m.emitted a = [] :=
  emitted_eq (h.trans (List.append_nil _).symm)

theorem emitted_emit (peer : Frame) (frames : Message) :
    m.emitted (.emit peer frames) = [⟨peer,frames⟩] :=
  emitted_eq rfl

/-- What an idle worker is sent when it is paired. -/
theorem emitted_pair {name key : String} {e : Envelope} {w : Worker}
    (h : m.pairOldest name = m.given name key e w) :
    m.emitted (.pair name) = [⟨w.identity,Wire.request e⟩] :=
  emitted_eq (congrArg Mediator.outbox h)

/-- Only a pairing sends a request, and only to a worker that is bound to the service. -/
theorem Consistent.emitted_request (h : m.Consistent) {a : Action} (ha : a.Lawful m)
    {o : Outbound} (ho : o ∈ m.emitted a) {e : Envelope}
    (he : Wire.requestOf? o.frames = some e) :
    ∃ name w, a = .pair name ∧ m.workers.get? o.peer.hex = some w ∧ w.identity = o.peer ∧
      w.service = name ∧ m.emitted a = [o] := by
  have hquiet : (m.act a).outbox = m.outbox → False := by
    intro hq
    rw [emitted_eq_nil hq] at ho
    cases ho
  cases a with
  | emit peer frames =>
    rw [emitted_emit, List.mem_singleton] at ho
    subst ho
    exact absurd he (by rw [show Wire.requestOf? frames = none from ha]; simp)
  | pair name =>
    rcases h.pairOldest_cases name with ⟨hm,_⟩ | ⟨f,es,key,keys,w,_,_,hw,hs,_,hm⟩
    · exact (hquiet (congrArg Mediator.outbox hm)).elim
    · rw [emitted_pair hm, List.mem_singleton] at ho
      subst ho
      exact ⟨name,w,rfl,h.keyed key w hw ▸ hw,rfl,hs,emitted_pair hm⟩
  | require name => exact (hquiet (by simp)).elim
  | wake key now => exact (hquiet (by simp)).elim
  | remove key => exact (hquiet (by simp)).elim
  | queue | enrol | settle | schedule => exact (hquiet rfl).elim

theorem service_awaken_pending (key : String) (now : Nat) (name : String) :
    ((m.awaken key now).service name).pending = (m.service name).pending := by
  cases hw : m.workers.get? key with
  | none => rw [awaken_of_get?_eq_none now hw]
  | some w =>
    rw [awaken_of_get? now hw, service_updateService]
    split
    · rename_i hn
      exact hn ▸ rfl
    · rfl

theorem service_remove_pending (key name : String) :
    ((m.remove key).service name).pending = (m.service name).pending := by
  cases hw : m.workers.get? key with
  | none =>
    rw [remove_of_get?_eq_none hw]
    rfl
  | some w =>
    rw [service_remove_of_get? hw]
    split <;> rfl

/-- One action loses no request and changes none. -/
theorem Consistent.dispatched_append_pending (h : m.Consistent) {a : Action} (ha : a.Lawful m)
    (name : String) :
    m.dispatched name a ++ ((m.act a).service name).pending =
      (m.service name).pending ++ a.queued name := by
  have hquiet : (m.act a).outbox = m.outbox → m.dispatched name a = [] := by
    intro hq
    simp [dispatched, emitted_eq_nil hq]
  cases a with
  | emit peer frames =>
    rw [dispatched_eq_nil]
    · exact (List.append_nil _).symm
    · intro o ho
      rw [emitted_emit, List.mem_singleton] at ho
      exact ho ▸ ha
  | require n => simp [hquiet (by simp), Action.queued]
  | queue n e =>
    rw [hquiet rfl]
    by_cases hn : n = name <;> simp [Action.queued, hn]
  | enrol identity n expiry =>
    rw [hquiet rfl, show (Action.enrol identity n expiry).queued name = [] from rfl,
      List.append_nil]
    rfl
  | wake key now =>
    simp [hquiet (by simp), Action.queued, service_awaken_pending]
  | remove key =>
    simp [hquiet (by simp), Action.queued, service_remove_pending]
  | settle n =>
    rw [hquiet rfl]
    by_cases hn : n = name <;> simp [Action.queued, hn]
  | schedule time =>
    rw [hquiet rfl, show (Action.schedule time).queued name = [] from rfl, List.append_nil]
    rfl
  | pair n =>
    rw [show (Action.pair n).queued name = [] from rfl, List.append_nil]
    rcases h.pairOldest_cases n with ⟨hm,_⟩ | ⟨e,es,key,keys,w,hp,hi,hw,hs,_,hm⟩
    · rw [hquiet (congrArg Mediator.outbox hm), show m.act (.pair n) = m from hm]
      rfl
    · have hk : w.identity.hex = key := (h.keyed key w hw).symm
      have he : Wire.requestOf? (Wire.request e) = some e :=
        Wire.requestOf?_request (h.addressed n e (hp ▸ List.mem_cons_self ..))
      have hv : ((m.given n key e w).service name).pending =
          if n = name then es else (m.service name).pending := by
        rw [service_given, hp]
        split <;> rfl
      rw [show m.act (.pair n) = m.given n key e w from hm, hv, dispatched, emitted_pair hm]
      by_cases hn : n = name
      · subst hn
        simp [isBound, hk, hw, hs, he, hp]
      · simp [isBound, hk, hw, hs, hn]

/-- What a lawful plan makes of the requests. -/
theorem Consistent.dispatched_append_pending_follow (h : m.Consistent) {plan : List Action}
    (hp : m.LawfulPlan plan) (name : String) :
    ((m.moments plan).flatMap fun (t,a) => t.dispatched name a) ++
        ((m.follow plan).service name).pending =
      (m.service name).pending ++ plan.flatMap (·.queued name) := by
  induction plan generalizing m with
  | nil => simp
  | cons a plan ih =>
    have ha := h.dispatched_append_pending hp.1 name
    have hr := ih (h.act hp.1) hp.2
    rw [moments_cons, follow_cons, List.flatMap_cons, List.append_assoc, hr, ← List.append_assoc,
      ha, List.append_assoc]
    rfl

/-! ## What an operation queues -/

def Operation.requestFor (name : String) : Operation → List Envelope
  | .handle sender frames _ =>
    match Wire.Inbound.ofFrames frames with
    | .ok (.client service body) => if service.toText = name then [⟨[sender],body⟩] else []
    | _ => []
  | _ => []

theorem queued_forwardPlan (name service : String) (e : Envelope) :
    (forwardPlan service e).flatMap (·.queued name) = [] := by
  unfold forwardPlan
  cases e.address? <;> rfl

theorem queued_ownCommand (name : String) (m : Mediator) (sender : Frame)
    (c : Wire.WorkerCommand) (now : Nat) :
    (m.ownCommand sender c now).flatMap (·.queued name) = [] := by
  cases c with
  | ready service =>
    simp only [ownCommand]
    split
    · rfl
    · split <;> rfl
  | reply e =>
    simp only [ownCommand]
    cases m.workers.get? sender.hex with
    | none => rfl
    | some w =>
      rw [Option.elim_some, List.flatMap_append, queued_forwardPlan]
      rfl
  | heartbeat =>
    simp only [ownCommand]
    split <;> rfl
  | disconnect | unknown frame => rfl
  | shutdown e named =>
    simp only [ownCommand]
    cases ((m.workers.get? sender.hex).map (·.service)).or named with
    | none => rfl
    | some service => exact queued_forwardPlan name service e

/-- An operation queues the request that it brings, unless the broker itself answers it. -/
theorem queued_plan (name : String) (m : Mediator) (op : Operation) :
    (m.plan op).flatMap (·.queued name) =
      if Wire.isInternal name then [] else op.requestFor name := by
  rw [flatMap_plan (by intro a ha; cases a <;> first | rfl | cases ha)]
  cases op with
  | handle sender frames now =>
    simp only [ownPlan, Operation.requestFor]
    cases Wire.Inbound.ofFrames frames with
    | error v => simp
    | ok i =>
      cases i with
      | client service body =>
        simp only [ownRequest]
        by_cases hn : service.toText = name
        · subst hn
          by_cases hi : Wire.isInternal service.toText <;>
            simp [hi, Action.queued, Envelope.ofBody, Envelope.wrap]
        · by_cases hi : Wire.isInternal service.toText <;> simp [hi, hn, Action.queued]
      | worker c => simp [queued_ownCommand]
  | sweep now => simp [ownPlan, Operation.requestFor]
  | probe now =>
    simp only [ownPlan, Operation.requestFor, probePlan]
    split <;> simp [List.flatMap_append, List.flatMap_map, Action.queued]
  | disconnectAll => simp [ownPlan, Operation.requestFor, List.flatMap_map, Action.queued]

/-! ## Runs -/

def history (m : Mediator) : List Operation → List (Mediator × Action)
  | [] => []
  | op :: ops => m.moments (m.plan op) ++ (m.apply op).1.history ops

theorem outbox_run (m : Mediator) (ops : List Operation) :
    (m.run ops).outbox = m.outbox ++ (m.history ops).flatMap fun (t,a) => t.emitted a := by
  induction ops generalizing m with
  | nil => simp [history]
  | cons op ops ih =>
    rw [run_cons, ih, ← follow_plan, outbox_follow, history, List.flatMap_append, follow_plan,
      List.append_assoc]

theorem Consistent.dispatched_append_pending_run (h : m.Consistent) {name : String}
    (hn : Wire.isInternal name = false) (ops : List Operation) :
    ((m.history ops).flatMap fun (t,a) => t.dispatched name a) ++
        ((m.run ops).service name).pending =
      (m.service name).pending ++ ops.flatMap (·.requestFor name) := by
  induction ops generalizing m with
  | nil => simp [history]
  | cons op ops ih =>
    have hp := h.dispatched_append_pending_follow (plan_lawful h op) name
    rw [follow_plan, queued_plan, hn, if_neg Bool.false_ne_true] at hp
    rw [history, run_cons, List.flatMap_append, List.append_assoc, ih (h.apply op),
      ← List.append_assoc, hp, List.append_assoc, List.flatMap_cons]

/-- Every moment of a run from consistent registries is one of consistent registries. -/
theorem Consistent.moments (h : m.Consistent) {plan : List Action} (hp : m.LawfulPlan plan) :
    ∀ x ∈ m.moments plan, x.1.Consistent ∧ x.2.Lawful x.1 := by
  induction plan generalizing m with
  | nil =>
    intro x hx
    cases hx
  | cons a plan ih =>
    intro x hx
    rcases List.mem_cons.mp hx with rfl | hx
    · exact ⟨h,hp.1⟩
    · exact ih (h.act hp.1) hp.2 x hx

theorem Consistent.history (h : m.Consistent) (ops : List Operation) :
    ∀ x ∈ m.history ops, x.1.Consistent ∧ x.2.Lawful x.1 := by
  induction ops generalizing m with
  | nil =>
    intro x hx
    cases hx
  | cons op ops ih =>
    intro x hx
    rcases List.mem_append.mp hx with hx | hx
    · exact h.moments (plan_lawful h op) x hx
    · exact ih (h.apply op) x hx

/-- The outbox of a run is what its actions have sent. For every service that is no internal
one, the requests that were sent to workers bound to it, followed by those that wait, are
those of its clients in the order in which they came, each with its body and the identity of
its sender; and whenever a request is sent, it goes to the identity of a worker that is
registered at that moment and bound to such a service. -/
theorem requests_conserved (interval lifetime now : Nat) (ops : List Operation) :
    let m := start interval lifetime now
    (m.run ops).outbox = (m.history ops).flatMap (fun (t,a) => t.emitted a) ∧
    (∀ name, Wire.isInternal name = false →
      ((m.history ops).flatMap fun (t,a) => t.dispatched name a) ++
          ((m.run ops).service name).pending =
        ops.flatMap (·.requestFor name)) ∧
    ∀ t a, (t,a) ∈ m.history ops → ∀ o ∈ t.emitted a, ∀ e, Wire.requestOf? o.frames = some e →
      ∃ w, t.workers.get? o.peer.hex = some w ∧ w.identity = o.peer ∧
        Wire.isInternal w.service = false ∧ t.dispatched w.service a = [e] := by
  intro m
  have h : m.Consistent := consistent_start interval lifetime now
  refine ⟨outbox_run m ops,?_,?_⟩
  · intro name hn
    exact h.dispatched_append_pending_run hn ops
  · intro t a ht o ho e he
    obtain ⟨hc,hl⟩ := h.history ops (t,a) ht
    obtain ⟨name,w,rfl,hw,hi,hs,hm⟩ := hc.emitted_request hl ho he
    refine ⟨w,hw,hi,hc.external w.service (hc.served _ w hw),?_⟩
    simp [dispatched, hm, isBound, hw, he]

end Majordomo.Broker.Mediator
