import Majordomo.Proofs.Mediator.Own
import Majordomo.Proofs.Wire.Grammar

/-! # Which services are known

A service is known from the first request of a client for it, or the first worker that is
registered for it, and it is never forgotten. The broker answers for the services whose name
begins as its own do; it says what it knows, and asking changes nothing.
-/
namespace Majordomo.Broker.Mediator
variable {m : Mediator} {name : String}

inductive Introduces (name : String) (m : Mediator) : Operation → Prop
  | request {sender service : Frame} {frames body : Message} (now : Nat)
      (hf : Wire.Inbound.ofFrames frames = .ok (.client service body))
      (hs : service.toText = name) (hn : Wire.isInternal name = false) :
      Introduces name m (.handle sender frames now)
  | ready {sender : Frame} {frames : Message} (now : Nat)
      (hf : Wire.Inbound.ofFrames frames = .ok (.worker (.ready name)))
      (hw : m.workers.contains sender.hex = false) (hn : Wire.isInternal name = false) :
      Introduces name m (.handle sender frames now)

def IsIntroduced (name : String) (m : Mediator) (ops : List Operation) : Prop :=
  ∃ before op after, ops = before ++ op :: after ∧ (m.run before).Introduces name op

/-! ## What an action makes known -/

/-- Whatever is changed, woken or paired belongs to a service that is known already. -/
theorem Consistent.contains_services_act (h : m.Consistent) {a : Action} (ha : a.Lawful m) :
    (m.act a).services.contains name = true ↔
      m.services.contains name = true ∨ a = .require name := by
  have hknown {n : String} {s : Service} (hn : m.services.contains n = true) :
      (m.services.set n s).contains name = m.services.contains name := by
    rw [Table.contains_set]
    by_cases he : n = name
    · subst he
      simp [hn]
    · simp [he]
  have hsame (hs : (m.act a).services.contains name = m.services.contains name)
      (hr : a ≠ .require name) : (m.act a).services.contains name = true ↔
        m.services.contains name = true ∨ a = .require name := by
    rw [hs]
    simp [hr]
  cases a with
  | emit | enrol | schedule => exact hsame rfl (by simp)
  | require n =>
    rw [act_require, contains_require, Bool.or_eq_true, decide_eq_true_eq, or_comm]
    simp
  | queue n e => exact hsame (hknown ha.1) (by simp)
  | settle n => exact hsame (hknown ha) (by simp)
  | wake key now =>
    refine hsame ?_ (by simp)
    rw [act_wake]
    cases hw : m.workers.get? key with
    | none => rw [awaken_of_get?_eq_none now hw]
    | some w =>
      rw [awaken_of_get? now hw]
      exact hknown (h.served key w hw)
  | remove key =>
    refine hsame ?_ (by simp)
    rw [act_remove]
    cases hw : m.workers.get? key with
    | none => rw [remove_of_get?_eq_none hw]
    | some w =>
      rw [remove_of_get? hw]
      simp only [Table.contains, Table.get?_modify]
      split <;> simp
  | pair n =>
    refine hsame ?_ (by simp)
    rw [act_pair]
    rcases h.pairOldest_cases n with ⟨hm,_⟩ | ⟨e,es,key,keys,w,_,_,hw,hs,_,hm⟩
    · rw [hm]
    · rw [hm]
      exact hknown (hs ▸ h.served key w hw)

theorem Consistent.contains_services_follow (h : m.Consistent) {plan : List Action}
    (hp : m.LawfulPlan plan) :
    (m.follow plan).services.contains name = true ↔
      m.services.contains name = true ∨ .require name ∈ plan := by
  induction plan generalizing m with
  | nil => simp
  | cons a plan ih =>
    rw [follow_cons, ih (h.act hp.1) hp.2, h.contains_services_act hp.1, List.mem_cons, or_assoc,
      @eq_comm _ a]

/-! ## What an operation makes known -/

theorem require_notMem_forwardPlan (service : String) (e : Envelope) :
    .require name ∉ forwardPlan service e := by
  intro ha
  obtain ⟨_,ha⟩ := mem_forwardPlan ha
  cases ha

theorem require_mem_ownCommand {sender : Frame} {c : Wire.WorkerCommand} {now : Nat} :
    .require name ∈ m.ownCommand sender c now ↔
      c = .ready name ∧ m.workers.contains sender.hex = false ∧ Wire.isInternal name = false := by
  cases c with
  | ready service =>
    simp only [ownCommand]
    split
    · rename_i hw
      simp [hw]
    · rename_i hw
      split
      · rename_i hi
        constructor
        · simp
        · rintro ⟨hc,_,hn⟩
          cases hc
          rw [hi] at hn
          cases hn
      · rename_i hi
        constructor
        · intro ha
          obtain rfl : name = service := by simpa [enrolPlan] using ha
          exact ⟨rfl,by simpa using hw,by simpa using hi⟩
        · rintro ⟨hc,_,_⟩
          cases hc
          exact List.mem_cons_self ..
  | reply e =>
    simp only [ownCommand]
    cases m.workers.get? sender.hex with
    | none => simp
    | some w => simp [require_notMem_forwardPlan]
  | heartbeat =>
    simp only [ownCommand]
    split <;> simp
  | disconnect | unknown => simp [ownCommand]
  | shutdown e named =>
    simp only [ownCommand]
    cases ((m.workers.get? sender.hex).map (·.service)).or named with
    | none => simp
    | some service => simp [require_notMem_forwardPlan]

theorem require_mem_plan {op : Operation} : .require name ∈ m.plan op ↔ m.Introduces name op := by
  have hown : .require name ∈ m.plan op ↔ .require name ∈ m.ownPlan op := by
    rw [← filter_isOwn_plan, List.mem_filter]
    simp [Action.isOwn]
  rw [hown]
  cases op with
  | handle sender frames now =>
    simp only [ownPlan]
    cases hf : Wire.Inbound.ofFrames frames with
    | error v =>
      constructor
      · intro ha
        cases ha
      · rintro (⟨_,hg,_⟩ | ⟨_,hg⟩) <;> rw [hf] at hg <;> cases hg
    | ok i =>
      cases i with
      | client service body =>
        simp only [ownRequest]
        constructor
        · intro ha
          split at ha
          · simp at ha
          · rename_i hn
            obtain rfl : name = service.toText := by simpa using ha
            exact .request now hf rfl (by simpa using hn)
        · rintro (⟨_,hg,rfl,hn⟩ | ⟨_,hg⟩) <;> rw [hf] at hg <;> cases hg
          simp [hn]
      | worker c =>
        dsimp only
        rw [require_mem_ownCommand]
        constructor
        · rintro ⟨rfl,hw,hn⟩
          exact .ready now hf hw hn
        · rintro (⟨_,hg,_⟩ | ⟨_,hg,hw,hn⟩) <;> rw [hf] at hg <;> cases hg
          exact ⟨rfl,hw,hn⟩
  | sweep now =>
    constructor
    · intro ha
      cases ha
    · rintro ⟨⟩
  | probe now =>
    constructor
    · intro ha
      simp only [ownPlan, probePlan] at ha
      split at ha <;> simp at ha
    · rintro ⟨⟩
  | disconnectAll =>
    constructor
    · intro ha
      simp [ownPlan] at ha
    · rintro ⟨⟩

theorem Consistent.contains_services_apply (h : m.Consistent) (op : Operation) :
    (m.apply op).1.services.contains name = true ↔
      m.services.contains name = true ∨ m.Introduces name op := by
  rw [← follow_plan, h.contains_services_follow (plan_lawful h op), require_mem_plan]

/-! ## Runs -/

theorem isIntroduced_cons {op : Operation} {ops : List Operation} :
    m.IsIntroduced name (op :: ops) ↔
      m.Introduces name op ∨ (m.apply op).1.IsIntroduced name ops := by
  constructor
  · rintro ⟨before,o,after,he,hi⟩
    cases before with
    | nil =>
      obtain ⟨rfl,rfl⟩ := List.cons.inj he
      exact .inl hi
    | cons b before =>
      obtain ⟨rfl,rfl⟩ := List.cons.inj he
      exact .inr ⟨before,o,after,rfl,hi⟩
  · rintro (hi | ⟨before,o,after,rfl,hi⟩)
    · exact ⟨[],op,ops,rfl,hi⟩
    · exact ⟨op :: before,o,after,rfl,hi⟩

theorem Consistent.contains_services_run (h : m.Consistent) (ops : List Operation) :
    (m.run ops).services.contains name = true ↔
      m.services.contains name = true ∨ m.IsIntroduced name ops := by
  induction ops generalizing m with
  | nil => simp [IsIntroduced]
  | cons op ops ih =>
    rw [run_cons, ih (h.apply op), h.contains_services_apply, isIntroduced_cons, or_assoc]

theorem contains_services_run_start (interval lifetime now : Nat) (ops : List Operation) :
    ((start interval lifetime now).run ops).services.contains name = true ↔
      (start interval lifetime now).IsIntroduced name ops := by
  rw [(consistent_start interval lifetime now).contains_services_run]
  simp [start]

/-! ## Answers -/

theorem setLast_eq_concat {body : Message} (h : body ≠ []) (f : Frame) :
    body.setLast f = body.dropLast ++ [f] := by
  fun_induction Message.setLast f body with
  | case1 => contradiction
  | case2 => rfl
  | case3 f g gs ih => rw [ih (by simp)]; rfl

/-- A request for an internal service is answered and nothing else happens. -/
theorem handle_internal {sender service : Frame} {frames body : Message} (time : Nat)
    (hf : Wire.Inbound.ofFrames frames = .ok (.client service body))
    (hi : Wire.isInternal service.toText = true) (m : Mediator) :
    m.handle sender frames time =
      (m.emit sender (Wire.clientMessage (.ofText service.toText) (body.dropLast ++
        [.ofText (m.internalAnswer service.toText body.lastText).code])),none) := by
  have hb : body ≠ [] := (Wire.Reads.client_iff.mp (Wire.Inbound.ofFrames_iff.mp hf)).2
  simp only [handle, hf, request, hi, if_true, answerInternal, setLast_eq_concat hb]

theorem code_internalAnswer_query (asked : String) (m : Mediator) :
    (m.internalAnswer Wire.serviceQuery asked).code =
      if m.services.contains asked then "200" else "400" := by
  rw [internalAnswer, if_pos rfl]
  split <;> rfl

theorem code_internalAnswer_other {name : String} (h : name ≠ Wire.serviceQuery)
    (asked : String) (m : Mediator) : (m.internalAnswer name asked).code = "501" := by
  rw [internalAnswer, if_neg h]
  rfl

/-- After every run, a client's request for an internal service is answered with one message and
changes nothing: the services with their queues and flags, the workers, the idle ones and the time
of the next probe stay. The answer comes in the name of the internal service and has the frames of
the request, with a code for the last of them. Asked for a service, the broker says that it knows
it exactly if a client has asked that service for something in the run so far, or a worker was
registered for it; it does nothing else that it is asked for. No internal service is ever known. -/
theorem discovery_is_truthful (interval lifetime now : Nat) (ops : List Operation)
    {sender service : Frame} {frames body : Message} (time : Nat)
    (hf : Wire.Inbound.ofFrames frames = .ok (.client service body))
    (hi : Wire.isInternal service.toText = true) :
    let s := start interval lifetime now
    let m := s.run ops
    (∃ code, m.handle sender frames time =
        ({ m with outbox := m.outbox ++ [⟨sender,Wire.clientMessage (.ofText service.toText)
          (body.dropLast ++ [.ofText code])⟩] },none) ∧
      (service.toText = Wire.serviceQuery →
        (s.IsIntroduced body.lastText ops → code = "200") ∧
        (¬s.IsIntroduced body.lastText ops → code = "400")) ∧
      (service.toText ≠ Wire.serviceQuery → code = "501")) ∧
    ∀ name, Wire.isInternal name = true → m.services.contains name = false := by
  intro s m
  have h : m.Consistent := (consistent_start interval lifetime now).run ops
  constructor
  · refine ⟨(m.internalAnswer service.toText body.lastText).code,handle_internal time hf hi m,?_,?_⟩
    · intro hq
      rw [hq, code_internalAnswer_query, ← contains_services_run_start]
      constructor
      · intro hk
        exact if_pos hk
      · intro hk
        exact if_neg hk
    · intro hq
      exact code_internalAnswer_other hq _ m
  · intro name hn
    by_contra hc
    rw [h.external name (by simpa using hc)] at hn
    cases hn

/-- A service is still known when its only worker has been swept away. -/
theorem discovery_is_truthful_swept :
    let ops := [.handle (.ofText "w1") (Wire.ready "echo") 0, .sweep 12500]
    let m := (start 2500 12500 0).run ops
    let body := [.ofText "are you there?", .ofText "echo"]
    let frames := Wire.clientMessage (.ofText "mmi.service") body
    Wire.Inbound.ofFrames frames = .ok (.client (.ofText "mmi.service") body) ∧
    Wire.isInternal (Frame.ofText "mmi.service").toText = true ∧
    m.workers.size = 0 ∧
    m.handle (.ofText "c1") frames 20000 =
      ({ m with outbox := m.outbox ++ [⟨.ofText "c1",Wire.clientMessage (.ofText "mmi.service")
        [.ofText "are you there?", .ofText "200"]⟩] },none) := by
  intro ops m body frames
  have hf : Wire.Inbound.ofFrames frames = .ok (.client (.ofText "mmi.service") body) := by decide
  have hi : Wire.isInternal (Frame.ofText "mmi.service").toText = true := by decide
  have hk : (start 2500 12500 0).IsIntroduced (Message.lastText body) ops :=
    ⟨[],_,_,rfl,.ready 0 (by decide) (by decide) (by decide)⟩
  obtain ⟨⟨code,hh,hq,_⟩,_⟩ := discovery_is_truthful 2500 12500 0 ops 20000 hf hi
  obtain rfl : code = "200" := (hq (by decide)).1 hk
  exact ⟨hf,hi,by decide,hh⟩

end Majordomo.Broker.Mediator
