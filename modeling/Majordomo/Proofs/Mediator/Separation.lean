import Majordomo.Proofs.Mediator.ReturnPath
import Majordomo.Proofs.Mediator.Turns

/-! # Services keep to themselves

A message concerns one service at most. What it brings about is done to that service, to its
workers and its requests; every other service may lose idle workers whose time has run out, since
each dispatch begins with a sweep over all of them, and nothing else happens to it.
-/
namespace Majordomo.Broker.Mediator
variable {m m' : Mediator} {name : String} {now : Nat}

/-- The service that a message concerns: the one that a client asks, the one that its sender works
for, or the one that a newcomer names in its READY. -/
def concerned? (sender : Frame) (frames : Message) (m : Mediator) : Option String :=
  match Wire.Inbound.ofFrames frames with
  | .error _ => none
  | .ok (.client service _) => some service.toText
  | .ok (.worker c) =>
    match m.workers.get? sender.hex, c with
    | some worker, _ => some worker.service
    | none, .ready service => some service
    | none, _ => none

/-- The action is about another service, or it takes out a worker whose time has run out. -/
def Action.PassesBy (name : String) (now : Nat) (m : Mediator) : Action → Prop
  | .require n | .queue n _ | .settle n | .pair n | .enrol _ n _ => n ≠ name
  | .wake key _ => m.isBound name key = false
  | .remove key => m.isBound name key = true → m.isLive now key = false
  | .emit .. | .schedule _ => True

def PassedBy (name : String) (now : Nat) (m : Mediator) (plan : List Action) : Prop :=
  Throughout (fun t a => a.PassesBy name now t) m plan

/-- On the way from `m` to `m'` the service loses idle workers whose time has run out, and nothing
else happens to it. -/
structure Spared (name : String) (now : Nat) (m m' : Mediator) : Prop where
  service : ∃ kept, m'.services.get? name = (m.services.get? name).map (·.retain kept) ∧
    ∀ key ∈ (m.service name).idle, kept key = false → m.isLive now key = false
  entries : ∀ key, m'.isBound name key = true → m'.workers.get? key = m.workers.get? key

theorem isBound_of_get? {key : String} (h : m'.workers.get? key = m.workers.get? key) :
    m'.isBound name key = m.isBound name key := by
  simp only [isBound, h]

/-- Nobody works for two services. -/
theorem isBound_eq_false_of_ne {n key : String} (h : m.isBound n key = true) (hn : n ≠ name) :
    m.isBound name key = false := by
  obtain ⟨w,hw,rfl⟩ := isBound_iff.mp h
  simp [isBound, hw, hn]

namespace Spared

theorem of_same (hs : m'.services.get? name = m.services.get? name)
    (he : ∀ key, m'.isBound name key = true → m'.workers.get? key = m.workers.get? key) :
    Spared name now m m' := by
  refine ⟨⟨fun _ => true,?_,fun _ _ hk => nomatch hk⟩,he⟩
  rw [hs]
  cases m.services.get? name with
  | none => rfl
  | some s => exact congrArg some (Service.retain_eq_self fun _ _ => rfl).symm

theorem refl (m : Mediator) : Spared name now m m := of_same rfl fun _ _ => rfl

theorem trans {m'' : Mediator} (h : Spared name now m m') (hc : m'.Consistent)
    (h' : Spared name now m' m'') : Spared name now m m'' := by
  obtain ⟨kept,hs,hk⟩ := h.service
  obtain ⟨kept',hs',hk'⟩ := h'.service
  have hi : (m'.service name).idle = (m.service name).idle.filter kept := by
    simp only [Mediator.service, hs]
    cases m.services.get? name <;> rfl
  refine ⟨⟨fun key => kept' key && kept key,?_,fun key hm hn => ?_⟩,fun key hb => ?_⟩
  · rw [hs', hs, Option.map_map]
    congr 1
    exact funext fun s => Service.retain_retain kept kept' s
  · cases hkept : kept key with
    | false => exact hk key hm hkept
    | true =>
      -- it is lost on the second part of the way, where its entry is still the same
      have hm' : key ∈ (m'.service name).idle := hi ▸ List.mem_filter.mpr ⟨hm,hkept⟩
      rw [← isLive_congr now (h.entries key (hc.isBound_of_mem hm'))]
      exact hk' key hm' (by simpa [hkept] using hn)
  · have he := h'.entries key hb
    rw [he]
    exact h.entries key (isBound_of_get? he ▸ hb)

end Spared

/-! ## One action -/

theorem spared_enrol (identity : Frame) {n : String} (hn : n ≠ name) (expiry : Nat)
    (m : Mediator) : Spared name now m (m.act (.enrol identity n expiry)) := by
  refine .of_same rfl fun key hb => ?_
  obtain ⟨w,hw,hs⟩ := isBound_iff.mp hb
  rw [act_enrol, Table.get?_set] at hw ⊢
  split at hw
  · cases hw
    exact absurd hs hn
  · rw [if_neg (by assumption)]

theorem spared_wake {key : String} (hb : m.isBound name key = false) (t : Nat) :
    Spared name now m (m.act (.wake key t)) := by
  rw [act_wake]
  cases hw : m.workers.get? key with
  | none =>
    rw [awaken_of_get?_eq_none t hw]
    exact .refl m
  | some w =>
    have hn : w.service ≠ name := by simpa [isBound, hw] using hb
    refine .of_same ?_ fun k hk => ?_
    · rw [awaken_of_get? t hw, updateService, Table.get?_set, if_neg hn]
    · have hne : key ≠ k := by
        rintro rfl
        rw [isBound_awaken, hb] at hk
        cases hk
      rw [awaken_of_get? t hw, workers_updateService, Table.get?_set, if_neg hne]

theorem spared_remove {key : String} (h : m.isBound name key = true → m.isLive now key = false) :
    Spared name now m (m.act (.remove key)) := by
  rw [act_remove]
  have he : ∀ k, (m.remove key).isBound name k = true →
      (m.remove key).workers.get? k = m.workers.get? k := by
    intro k hb
    rw [isBound_remove, Bool.and_eq_true, decide_eq_true_iff] at hb
    rw [get?_workers_remove, if_neg (Ne.symm hb.1)]
  cases hb : m.isBound name key with
  | true =>
    obtain ⟨w,hw,rfl⟩ := isBound_iff.mp hb
    refine ⟨⟨(· ≠ key),?_,fun k _ hk => ?_⟩,he⟩
    · rw [remove_of_get? hw, Table.get?_modify, if_pos rfl]
      rfl
    · obtain rfl : k = key := by simpa using hk
      exact h hb
  | false =>
    refine .of_same ?_ he
    cases hw : m.workers.get? key with
    | none => rw [remove_of_get?_eq_none hw]
    | some w =>
      have hn : name ≠ w.service := by
        rintro rfl
        simp [isBound, hw] at hb
      rw [remove_of_get? hw, Table.get?_modify, if_neg hn]

namespace Consistent

theorem spared_pair (h : m.Consistent) {n : String} (hn : n ≠ name) :
    Spared name now m (m.act (.pair n)) := by
  rw [act_pair]
  refine .of_same ?_ fun key _ => by rw [workers_pairOldest]
  rcases h.pairOldest_cases n with ⟨hm,_⟩ | ⟨e,_,key,_,w,_,_,_,_,_,hm⟩
  · rw [hm]
  · rw [hm]
    exact (Table.get?_set ..).trans (if_neg hn)

/-- An action that passes a service by spares it. -/
theorem spared_act (h : m.Consistent) {a : Action} (hp : a.PassesBy name now m) :
    Spared name now m (m.act a) := by
  cases a with
  | emit | schedule => exact .of_same rfl fun _ _ => rfl
  | queue n e => exact .of_same ((Table.get?_set ..).trans (if_neg hp)) fun _ _ => rfl
  | settle n => exact .of_same ((Table.get?_set ..).trans (if_neg hp)) fun _ _ => rfl
  | require n =>
    refine .of_same ?_ fun key _ => by rw [act_require, workers_require]
    rw [act_require, Mediator.require]
    split
    · rfl
    · exact (Table.get?_set ..).trans (if_neg hp)
  | enrol identity n expiry => exact spared_enrol identity hp expiry m
  | wake key t => exact spared_wake hp t
  | remove key => exact spared_remove hp
  | pair n => exact h.spared_pair hp

/-- So does a plan that passes it by with every action. -/
theorem spared_follow (h : m.Consistent) {plan : List Action} (hl : m.LawfulPlan plan)
    (hp : PassedBy name now m plan) : Spared name now m (m.follow plan) := by
  induction plan generalizing m with
  | nil => exact .refl m
  | cons a plan ih =>
    obtain ⟨ha,hp⟩ := throughout_cons.mp hp
    have hc := h.act hl.1
    exact (h.spared_act ha).trans hc (ih hc hl.2 hp)

end Consistent

/-! ## The plans -/

/-- A sweep passes every service by: whom it takes out has run out of time. -/
theorem passedBy_sweepPlan (name : String) (now : Nat) (m : Mediator) :
    PassedBy name now m (m.sweepPlan now) := by
  have hd : ∀ key ∈ m.idle.filter (m.isExpired now), m.isLive now key = false := by
    intro key hk
    simp [isLive, (List.mem_filter.mp hk).2]
  unfold sweepPlan
  generalize m.idle.filter (m.isExpired now) = keys at hd
  induction keys generalizing m with
  | nil => exact throughout_of_forall (by simp)
  | cons key keys ih =>
    refine throughout_cons.mpr ⟨fun _ => hd key (List.mem_cons_self ..),ih _ fun k hk => ?_⟩
    by_cases he : key = k
    · simp [isLive, isExpired, he]
    · have hg : (m.remove key).workers.get? k = m.workers.get? k := by
        rw [get?_workers_remove, if_neg he]
      rw [act_remove, isLive_congr now hg]
      exact hd k (List.mem_cons_of_mem key hk)

theorem passedBy_dispatchPlan {n : String} (hn : n ≠ name) (now : Nat) (m : Mediator) :
    PassedBy name now m (m.dispatchPlan n now) := by
  refine throughout_append.mpr ⟨passedBy_sweepPlan name now m,throughout_of_forall fun a ha t => ?_⟩
  rw [List.eq_of_mem_replicate ha]
  exact hn

/-- Renewing a worker of another service, or nobody. -/
theorem passedBy_renewPlan {key : String} (hb : m.isBound name key = false) (now : Nat) :
    PassedBy name now m (m.renewPlan key now) := by
  unfold renewPlan
  split
  · exact throughout_of_forall (by simp)
  · rename_i w hw
    have hn : w.service ≠ name := by simpa [isBound, hw] using hb
    exact throughout_cons.mpr ⟨hb,passedBy_dispatchPlan hn now _⟩

theorem passedBy_forwardPlan (service : String) (e : Envelope) (m : Mediator) :
    PassedBy name now m (forwardPlan service e) := by
  refine throughout_of_forall fun a ha t => ?_
  obtain ⟨client,rfl⟩ := mem_forwardPlan ha
  trivial

/-- Only workers of the service that is asked are woken for a repeated request. -/
theorem Consistent.isBound_of_retryCandidate? (h : m.Consistent) {n key : String} {sender : Frame}
    (hk : m.retryCandidate? n sender = some key) : m.isBound n key = true := by
  unfold retryCandidate? at hk
  split at hk
  · rename_i k hi
    cases hk
    obtain ⟨s,hs,hi⟩ := Option.bind_eq_some_iff.mp hi
    refine h.isBound_of_mem ?_
    rw [service_of_get? hs]
    exact List.mem_of_head? hi
  · split at hk
    · rename_i w hw
      split at hk
      · rename_i hs
        cases hk
        exact isBound_iff.mpr ⟨w,hw,hs⟩
      · cases hk
    · cases hk

theorem Consistent.passedBy_wakeForRetryPlan (h : m.Consistent) {n : String} (hn : n ≠ name)
    (sender : Frame) (now : Nat) : PassedBy name now m (m.wakeForRetryPlan n sender now) := by
  unfold wakeForRetryPlan
  split
  · split
    · rename_i key hk
      exact passedBy_renewPlan (isBound_eq_false_of_ne (h.isBound_of_retryCandidate? hk) hn) now
    · exact throughout_of_forall (by simp)
  · exact throughout_of_forall (by simp)

theorem Consistent.passedBy_requestPlan (h : m.Consistent) {service : Frame}
    (hn : service.toText ≠ name) (sender : Frame) (body : Message) (now : Nat) :
    PassedBy name now m (m.requestPlan sender service body now) := by
  unfold requestPlan
  dsimp only
  split
  · exact throughout_of_forall (by simp [Action.PassesBy])
  · rename_i hi
    have hi : Wire.isInternal service.toText = false := by simpa using hi
    have hr := h.require hi
    rw [List.cons_append]
    refine throughout_cons.mpr ⟨hn,throughout_append.mpr ⟨?_,throughout_cons.mpr ⟨hn,?_⟩⟩⟩
    · exact hr.passedBy_wakeForRetryPlan hn sender now
    · rw [act_require, follow_wakeForRetryPlan]
      exact passedBy_dispatchPlan hn now _

theorem passedBy_turnAwayPlan {sender : Frame} (hb : m.isBound name sender.hex = false) :
    PassedBy name now m (turnAwayPlan sender) := by
  have hb' : (m.emit sender Wire.disconnect).isBound name sender.hex = false := hb
  exact throughout_cons.mpr ⟨trivial,throughout_cons.mpr ⟨by simp [Action.PassesBy, hb'],
    throughout_of_forall (by simp)⟩⟩

theorem passedBy_readyPlan {sender : Frame} {service : String}
    (hb : m.isBound name sender.hex = false)
    (hn : m.workers.contains sender.hex = false → service ≠ name) (now : Nat) :
    PassedBy name now m (m.readyPlan sender service now) := by
  unfold readyPlan
  split
  · exact throughout_cons.mpr ⟨by simp [Action.PassesBy, hb],throughout_of_forall (by simp)⟩
  · rename_i hw
    have hn := hn (by simpa using hw)
    split
    · exact throughout_of_forall (by simp [Action.PassesBy])
    · refine throughout_append.mpr ⟨throughout_of_forall ?_,passedBy_renewPlan ?_ now⟩
      · simp [enrolPlan, Action.PassesBy, hn]
      · simp [isBound, hn]

theorem passedBy_replyPlan {sender : Frame} {w : Worker} (hw : m.workers.get? sender.hex = some w)
    (hn : w.service ≠ name) (e : Envelope) (now : Nat) :
    PassedBy name now m (m.replyPlan sender w e now) := by
  refine throughout_append.mpr ⟨throughout_append.mpr ⟨passedBy_forwardPlan _ e m,?_⟩,?_⟩
  · exact throughout_of_forall (by simpa [Action.PassesBy] using hn)
  · refine passedBy_renewPlan ?_ now
    rw [isBound_congr (workers_follow_settled m w.service e)]
    simp [isBound, hw, hn]

theorem passedBy_commandPlan {sender : Frame} {c : Wire.WorkerCommand}
    (hb : m.isBound name sender.hex = false)
    (hn : ∀ service, c = .ready service → m.workers.contains sender.hex = false → service ≠ name)
    (now : Nat) : PassedBy name now m (m.commandPlan sender c now) := by
  cases c with
  | ready service => exact passedBy_readyPlan hb (hn service rfl) now
  | reply e =>
    simp only [commandPlan]
    cases hw : m.workers.get? sender.hex with
    | none => exact passedBy_turnAwayPlan hb
    | some w => exact passedBy_replyPlan hw (by simpa [isBound, hw] using hb) e now
  | heartbeat =>
    simp only [commandPlan]
    split
    · exact passedBy_renewPlan hb now
    · exact passedBy_turnAwayPlan hb
  | disconnect =>
    exact throughout_cons.mpr ⟨by simp [Action.PassesBy, hb],throughout_of_forall (by simp)⟩
  | shutdown e named =>
    simp only [commandPlan]
    cases ((m.workers.get? sender.hex).map (·.service)).or named with
    | none => exact throughout_of_forall (by simp)
    | some service => exact passedBy_forwardPlan service e m
  | unknown => exact throughout_of_forall (by simp [commandPlan])

/-- A message passes every service by that it does not concern. -/
theorem Consistent.passedBy_plan (h : m.Consistent) {sender : Frame} {frames : Message}
    (hn : m.concerned? sender frames ≠ some name) (now : Nat) :
    PassedBy name now m (m.plan (.handle sender frames now)) := by
  simp only [plan]
  cases hf : Wire.Inbound.ofFrames frames with
  | error v => exact throughout_of_forall (by simp)
  | ok i =>
    cases i with
    | client service body =>
      exact h.passedBy_requestPlan (by simpa [concerned?, hf] using hn) sender body now
    | worker c =>
      simp only [concerned?, hf] at hn
      refine passedBy_commandPlan ?_ ?_ now
      · cases hw : m.workers.get? sender.hex with
        | none => simp [isBound, hw]
        | some w =>
          rw [hw] at hn
          simpa [isBound, hw] using hn
      · rintro service rfl hw
        have hg : m.workers.get? sender.hex = none := by simpa [Table.contains] using hw
        rw [hg] at hn
        simpa using hn

/-! ## Requests -/

/-- A request that goes out while a service is passed by goes to nobody of that service, neither
as the operation finds it nor as it leaves it. -/
theorem Consistent.not_isBound_of_passedBy (h : m.Consistent) {op : Operation}
    (hp : PassedBy name now m (m.plan op)) {o : Outbound}
    (ho : o ∈ (m.apply op).1.outbox.drop m.outbox.length)
    (hr : (Wire.requestOf? o.frames).isSome = true) :
    m.isBound name o.peer.hex = false ∧ (m.apply op).1.isBound name o.peer.hex = false := by
  rw [← follow_plan, outbox_follow, List.drop_left] at ho
  obtain ⟨⟨t,a⟩,hx,ho⟩ := List.mem_flatMap.mp ho
  obtain ⟨ht,ha⟩ := h.moments (plan_lawful h op) _ hx
  obtain ⟨e,he⟩ := Option.isSome_iff_exists.mp hr
  obtain ⟨n,w,rfl,hw,_,rfl,_⟩ := ht.emitted_request ha ho he
  have hn : w.service ≠ name := hp _ hx
  obtain ⟨before,after,hplan,rfl⟩ := mem_moments hx
  constructor
  · by_contra hb
    obtain ⟨v,hv,hs⟩ := isBound_iff.mp (Bool.not_eq_false _ ▸ hb)
    have hspare := plan_spares ((Table.contains_iff _ _).mpr ⟨v,hv⟩) op
    obtain ⟨u,hu,hus⟩ := get?_workers_of_follow
      (fun b hb => hspare b (hplan ▸ List.mem_append_left _ hb)) hw
    obtain rfl : u = v := Option.some.inj (hu.symm.trans hv)
    exact hn (hus.symm.trans hs)
  · by_contra hb
    obtain ⟨v,hv,hs⟩ := isBound_iff.mp (Bool.not_eq_false _ ▸ hb)
    rw [← follow_plan, hplan, follow_append, follow_cons, act_pair] at hv
    obtain ⟨u,hu,hus⟩ := get?_workers_of_follow (plan_spares_after hplan) hv
    rw [workers_pairOldest] at hu
    obtain rfl : u = w := Option.some.inj (hu.symm.trans hw)
    exact hn (hus.trans hs)

/-- After every run, a message leaves every service as it is that it does not concern: the service
is neither created nor removed, its requests and its flag stay, none of its workers is sent a
request, and of its idle workers only those are lost whose time has run out, while the others keep
their order. -/
theorem services_keep_apart (interval lifetime now : Nat) (ops : List Operation)
    (sender : Frame) (frames : Message) (time : Nat) (name : String) :
    let m := (start interval lifetime now).run ops
    let m' := (m.handle sender frames time).1
    m.concerned? sender frames ≠ some name →
    m'.services.contains name = m.services.contains name ∧
    (∀ s, m.services.get? name = some s → ∃ s', m'.services.get? name = some s' ∧
      s'.pending = s.pending ∧ s'.reply = s.reply ∧
      ∃ kept, s'.idle = s.idle.filter kept ∧ ∀ key ∈ s.idle, kept key = false →
        ∃ w, m.workers.get? key = some w ∧ w.expiry ≤ time) ∧
    ∀ o ∈ m'.outbox.drop m.outbox.length, (Wire.requestOf? o.frames).isSome = true →
      m.isBound name o.peer.hex = false ∧ m'.isBound name o.peer.hex = false := by
  intro m m' hn
  have h : m.Consistent := (consistent_start interval lifetime now).run ops
  have hp := h.passedBy_plan hn time
  have hs := h.spared_follow (plan_lawful h _) hp
  rw [follow_plan] at hs
  obtain ⟨kept,hk,hlost⟩ := hs.service
  have hk : m'.services.get? name = (m.services.get? name).map (·.retain kept) := hk
  refine ⟨?_,fun s hg => ?_,fun o ho hr => h.not_isBound_of_passedBy hp ho hr⟩
  · simp [Table.contains, hk]
  · refine ⟨s.retain kept,by rw [hk, hg, Option.map_some],rfl,rfl,kept,rfl,fun key hm hd => ?_⟩
    rw [← service_of_get? hg] at hm
    obtain ⟨w,hw,_⟩ := isBound_iff.mp (h.isBound_of_mem hm)
    refine ⟨w,hw,?_⟩
    simpa [isLive, isExpired, hw] using hlost key hm hd

/-- A request for one service is the end of a worker of another, whose time has run out. -/
theorem services_keep_apart_swept :
    let ops := [.handle (.ofText "w1") (Wire.ready "sum") 0,
      .handle (.ofText "w2") (Wire.ready "sum") 5, .handle (.ofText "w3") (Wire.ready "echo") 5]
    let m := (start 2500 12500 0).run ops
    let frames := Wire.clientMessage (.ofText "echo") [.ofText "one"]
    let m' := (m.handle (.ofText "c1") frames 12502).1
    m.concerned? (.ofText "c1") frames ≠ some "sum" ∧
    (m'.service "sum").idle = [(Frame.ofText "w2").hex] ∧
    m'.services.contains "sum" = m.services.contains "sum" ∧
    (∀ s, m.services.get? "sum" = some s → ∃ s', m'.services.get? "sum" = some s' ∧
      s'.pending = s.pending ∧ s'.reply = s.reply ∧
      ∃ kept, s'.idle = s.idle.filter kept ∧ ∀ key ∈ s.idle, kept key = false →
        ∃ w, m.workers.get? key = some w ∧ w.expiry ≤ 12502) ∧
    ∀ o ∈ m'.outbox.drop m.outbox.length, (Wire.requestOf? o.frames).isSome = true →
      m.isBound "sum" o.peer.hex = false ∧ m'.isBound "sum" o.peer.hex = false :=
  ⟨by decide,by decide,services_keep_apart 2500 12500 0 _ _ _ 12502 "sum" (by decide)⟩

end Majordomo.Broker.Mediator
