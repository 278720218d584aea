import Majordomo.Proofs.Mediator.Conservation
import Majordomo.Proofs.Mediator.Registration

/-! # Whom the broker writes to

`known` gives the peers that are workers, each with its service. As long as nobody else
is registered, requests go to the known workers of their service, and whatever another
peer is sent the operation itself has for it.
-/
namespace Majordomo.Broker.Mediator
variable {m : Mediator} {known : Frame → Option String}

def Staffed (known : Frame → Option String) (m : Mediator) : Prop :=
  ∀ key w, m.workers.get? key = some w → known w.identity = some w.service

def Action.Placed (known : Frame → Option String) : Action → Prop
  | .enrol identity service _ => known identity = some service
  | _ => True

theorem placed_of_registersNone {a : Action} (h : a.registersNone = true) : a.Placed known := by
  cases a with
  | enrol => cases h
  | _ => trivial

theorem Staffed.act (h : m.Staffed known) {a : Action} (ha : a.Placed known) :
    (m.act a).Staffed known := by
  intro key w hw
  rcases get?_workers_act hw with hw | ⟨_,_,_,rfl,_,rfl⟩ | ⟨_,v,_,hv,rfl⟩
  · exact h key w hw
  · exact ha
  · exact h key v hv

theorem Staffed.follow (h : m.Staffed known) {plan : List Action}
    (hp : ∀ a ∈ plan, a.Placed known) : (m.follow plan).Staffed known := by
  induction plan generalizing m with
  | nil => exact h
  | cons a plan ih =>
    exact ih (h.act (hp a (List.mem_cons_self ..))) fun b hb => hp b (List.mem_cons_of_mem a hb)

def Operation.Placed (known : Frame → Option String) (op : Operation) : Prop :=
  ∀ sender frames now service, op = .handle sender frames now →
    Wire.Inbound.ofFrames frames = .ok (.worker (.ready service)) → known sender = some service

theorem plan_placed {op : Operation} (h : op.Placed known) (m : Mediator) :
    ∀ a ∈ m.plan op, a.Placed known := by
  rcases plan_registers m op with hn | ⟨sender,frames,now,service,ho,hi,_,_,hp⟩
  · exact fun a ha => placed_of_registersNone (hn a ha)
  · intro a ha
    rw [hp] at ha
    rcases List.mem_append.mp ha with ha | ha
    · simp only [enrolPlan, List.mem_cons, List.not_mem_nil, or_false] at ha
      rcases ha with rfl | rfl
      · trivial
      · exact h sender frames now service ho hi
    · exact placed_of_registersNone
        (registersNone_of_dispatching (renewPlan_dispatching _ _ _ a ha))

theorem Staffed.apply (h : m.Staffed known) {op : Operation} (hp : op.Placed known) :
    (m.apply op).1.Staffed known :=
  follow_plan m op ▸ h.follow (plan_placed hp m)

/-! ## Requests -/

def requestsFor (known : Frame → Option String) (name : String) (os : List Outbound) :
    List Envelope :=
  os.filterMap fun o => if known o.peer = some name then Wire.requestOf? o.frames else none

theorem requestsFor_cons (known : Frame → Option String) (name : String) (o : Outbound)
    (os : List Outbound) :
    requestsFor known name (o :: os) =
      (if known o.peer = some name then Wire.requestOf? o.frames else none).toList ++
        requestsFor known name os := by
  rw [requestsFor, List.filterMap_cons]
  cases (if known o.peer = some name then Wire.requestOf? o.frames else none) <;> rfl

/-- What is dispatched for a service goes to those that are known as its workers. -/
theorem Staffed.requestsFor_emitted (h : m.Staffed known) (hc : m.Consistent) {a : Action}
    (ha : a.Lawful m) (name : String) :
    requestsFor known name (m.emitted a) = m.dispatched name a := by
  apply List.filterMap_congr
  intro o ho
  cases he : Wire.requestOf? o.frames with
  | none => simp
  | some e =>
    obtain ⟨n,w,_,hw,hi,hs,_⟩ := hc.emitted_request ha ho he
    have hk : known o.peer = some w.service := hi ▸ h _ w hw
    simp [isBound, hw, hk]

theorem Staffed.requestsFor_follow (h : m.Staffed known) (hc : m.Consistent) {plan : List Action}
    (hl : m.LawfulPlan plan) (hp : ∀ a ∈ plan, a.Placed known) (name : String) :
    requestsFor known name ((m.moments plan).flatMap fun (t,a) => t.emitted a) =
      (m.moments plan).flatMap fun (t,a) => t.dispatched name a := by
  induction plan generalizing m with
  | nil => rfl
  | cons a plan ih =>
    have ha := hp a (List.mem_cons_self ..)
    have hr := ih (h.act ha) (hc.act hl.1) hl.2 fun b hb => hp b (List.mem_cons_of_mem a hb)
    have he := h.requestsFor_emitted hc hl.1 name
    simp only [moments_cons, List.flatMap_cons]
    rw [← hr, ← he]
    exact List.filterMap_append

/-- Requests that go out, followed by those that still wait, are those that waited, followed by
the one that the operation brings. -/
theorem Staffed.requestsFor_apply (h : m.Staffed known) (hc : m.Consistent)
    (ho : m.outbox = []) {op : Operation} (hp : op.Placed known) (name : String) :
    requestsFor known name (m.apply op).1.outbox ++ ((m.apply op).1.service name).pending =
      (m.service name).pending ++
        if Wire.isInternal name then [] else op.requestFor name := by
  have hl := plan_lawful hc op
  have hd := hc.dispatched_append_pending_follow hl name
  rw [← h.requestsFor_follow hc hl (plan_placed hp m), queued_plan, follow_plan] at hd
  rw [← hd, ← follow_plan, outbox_follow, ho, List.nil_append]

/-! ## Other messages -/

def Action.said : Action → List Outbound
  | .emit peer frames => [⟨peer,frames⟩]
  | _ => []

theorem Staffed.not_other (h : m.Staffed known) {other : Frame → Bool}
    (hx : ∀ peer, other peer = true → known peer = none) {key : String} {w : Worker}
    (hw : m.workers.get? key = some w) : other w.identity = false := by
  apply Bool.eq_false_iff.mpr
  intro ho
  cases (h key w hw).symm.trans (hx w.identity ho)

/-- Whoever is not known as a worker is sent what the action itself says. -/
theorem Staffed.filter_emitted (h : m.Staffed known) (hc : m.Consistent) (a : Action)
    {other : Frame → Bool} (hx : ∀ peer, other peer = true → known peer = none) :
    (m.emitted a).filter (other ·.peer) = a.said.filter (other ·.peer) := by
  cases a with
  | emit peer frames => rw [emitted_emit]; rfl
  | pair name =>
    rcases hc.pairOldest_cases name with ⟨hm,_⟩ | ⟨e,es,key,keys,w,_,_,hw,_,_,hm⟩
    · rw [emitted_eq_nil (a := .pair name) (congrArg Mediator.outbox hm)]
      rfl
    · rw [emitted_pair hm]
      simp [Action.said, h.not_other hx hw]
  | require name => rw [emitted_eq_nil (by simp)]; rfl
  | wake key now => rw [emitted_eq_nil (by simp)]; rfl
  | remove key => rw [emitted_eq_nil (by simp)]; rfl
  | queue | enrol | settle | schedule => rw [emitted_eq_nil rfl]; rfl

theorem Staffed.filter_follow (h : m.Staffed known) (hc : m.Consistent) {plan : List Action}
    (hl : m.LawfulPlan plan) (hp : ∀ a ∈ plan, a.Placed known) {other : Frame → Bool}
    (hx : ∀ peer, other peer = true → known peer = none) :
    ((m.moments plan).flatMap fun (t,a) => t.emitted a).filter (other ·.peer) =
      (plan.flatMap Action.said).filter (other ·.peer) := by
  induction plan generalizing m with
  | nil => rfl
  | cons a plan ih =>
    have ha := hp a (List.mem_cons_self ..)
    have hr := ih (h.act ha) (hc.act hl.1) hl.2 fun b hb => hp b (List.mem_cons_of_mem a hb)
    simp only [moments_cons, List.flatMap_cons, List.filter_append]
    rw [hr, h.filter_emitted hc a hx]

/-- To anybody else an operation says what it has to say of its own. -/
theorem Staffed.filter_outbox (h : m.Staffed known) (hc : m.Consistent) (ho : m.outbox = [])
    {op : Operation} (hp : op.Placed known) {other : Frame → Bool}
    (hx : ∀ peer, other peer = true → known peer = none) :
    (m.apply op).1.outbox.filter (other ·.peer) =
      ((m.ownPlan op).flatMap Action.said).filter (other ·.peer) := by
  rw [← follow_plan, outbox_follow, ho, List.nil_append,
    h.filter_follow hc (plan_lawful hc op) (plan_placed hp m) hx, flatMap_plan]
  intro a ha
  cases a <;> first | rfl | cases ha

def passedOn? (m : Mediator) : Operation → Option Outbound
  | .handle sender frames _ =>
    match Wire.Inbound.ofFrames frames with
    | .ok (.worker (.reply e)) =>
      (m.workers.get? sender.hex).bind fun w =>
        e.address?.map (⟨·,Wire.clientMessage (.ofText w.service) e.body⟩)
    | _ => none
  | _ => none

theorem passedOn?_eq_some {op : Operation} {o : Outbound} (h : m.passedOn? op = some o) :
    ∃ sender frames now e w client, op = .handle sender frames now ∧
      Wire.Inbound.ofFrames frames = .ok (.worker (.reply e)) ∧
      m.workers.get? sender.hex = some w ∧ e.address? = some client ∧
      o = ⟨client,Wire.clientMessage (.ofText w.service) e.body⟩ := by
  cases op with
  | handle sender frames now =>
    simp only [passedOn?] at h
    split at h
    · rename_i e he
      obtain ⟨w,hw,hc⟩ := Option.bind_eq_some_iff.mp h
      obtain ⟨client,ha,rfl⟩ := Option.map_eq_some_iff.mp hc
      exact ⟨sender,frames,now,e,w,client,rfl,he,hw,ha,rfl⟩
    · cases h
  | sweep | probe | disconnectAll => cases h

theorem said_forwardPlan (service : String) (e : Envelope) :
    (forwardPlan service e).flatMap Action.said =
      (e.address?.map (⟨·,Wire.clientMessage (.ofText service) e.body⟩)).toList := by
  unfold forwardPlan
  cases e.address? <;> rfl

/-- Apart from what it answers itself and from shutdown notices, the broker only passes replies
on to a peer that is no worker. -/
theorem Staffed.said_ownPlan (h : m.Staffed known) (hc : m.Consistent) {op : Operation}
    {other : Frame → Bool} (hx : ∀ peer, other peer = true → known peer = none)
    (hi : ∀ sender frames now service body, op = .handle sender frames now →
      Wire.Inbound.ofFrames frames = .ok (.client service body) →
      Wire.isInternal service.toText = false)
    (hs : ∀ sender frames now e named, op = .handle sender frames now →
      Wire.Inbound.ofFrames frames ≠ .ok (.worker (.shutdown e named)))
    (hw : ∀ sender frames now c, op = .handle sender frames now →
      Wire.Inbound.ofFrames frames = .ok (.worker c) → other sender = false) :
    ((m.ownPlan op).flatMap Action.said).filter (other ·.peer) =
      (m.passedOn? op).toList.filter (other ·.peer) := by
  cases op with
  | handle sender frames now =>
    simp only [ownPlan, passedOn?]
    cases hf : Wire.Inbound.ofFrames frames with
    | error v => rfl
    | ok i =>
      cases i with
      | client service body =>
        simp [ownRequest, hi sender frames now service body rfl hf, Action.said]
      | worker c =>
        have hn := hw sender frames now c rfl hf
        cases c with
        | ready service =>
          simp only [ownCommand]
          split
          · rfl
          · split
            · simp [Action.said, hn]
            · rfl
        | reply e =>
          simp only [ownCommand]
          cases m.workers.get? sender.hex with
          | none => simp [Action.said, hn]
          | some w =>
            rw [Option.elim_some, List.flatMap_append, said_forwardPlan]
            simp [Action.said]
        | heartbeat =>
          simp only [ownCommand]
          split
          · rfl
          · simp [Action.said, hn]
        | disconnect | unknown frame => rfl
        | shutdown e named => exact absurd hf (hs sender frames now e named rfl)
  | sweep now => rfl
  | probe now =>
    simp only [ownPlan, probePlan, passedOn?]
    split
    · rfl
    · apply List.filter_eq_nil_iff.mpr
      intro o ho
      obtain ⟨a,ha,ho⟩ := List.mem_flatMap.mp ho
      rcases List.mem_append.mp ha with ha | ha
      · obtain ⟨w,hm,rfl⟩ := List.mem_map.mp ha
        obtain ⟨key,_,hg⟩ := List.mem_filterMap.mp hm
        obtain rfl := List.mem_singleton.mp ho
        simp [h.not_other hx hg]
      · obtain rfl := List.mem_singleton.mp ha
        cases ho
  | disconnectAll =>
    apply List.filter_eq_nil_iff.mpr
    intro o ho
    obtain ⟨a,ha,ho⟩ := List.mem_flatMap.mp ho
    obtain ⟨⟨key,w⟩,hm,rfl⟩ := List.mem_map.mp ha
    obtain rfl := List.mem_singleton.mp ho
    simp [h.not_other hx (hc.workers_unique.mem_entries.mp hm)]

end Majordomo.Broker.Mediator
