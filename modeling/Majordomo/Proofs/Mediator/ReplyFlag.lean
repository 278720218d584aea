import Majordomo.Proofs.Mediator.ReturnPath
import Majordomo.Proofs.Mediator.Tally
import Mathlib.Data.List.Induction

/-! # The flag of a service

A service has one flag for all of its workers. Every request that goes out for the service sets
it, and every reply of one of its workers clears it, whoever still owes one. So after a run the
flag tells what came last, and not whether every request has been answered.
-/
namespace Majordomo.Broker.Mediator
variable {m : Mediator} {name : String} {op : Operation}

/-- The operation brings a REPLY of a worker that is bound to the service. -/
def settles (name : String) (m : Mediator) : Operation → Bool
  | .handle sender frames _ =>
    match Wire.Inbound.ofFrames frames with
    | .ok (.worker (.reply _)) => m.isBound name sender.hex
    | _ => false
  | _ => false

/-! ## One action -/

theorem reply_awaken (key : String) (now : Nat) :
    ((m.awaken key now).service name).reply = (m.service name).reply := by
  cases hw : m.workers.get? key with
  | none => rw [awaken_of_get?_eq_none now hw]
  | some w =>
    rw [awaken_of_get? now hw, service_updateService]
    split
    · rename_i hn
      exact hn ▸ rfl
    · rfl

theorem reply_remove (key : String) :
    ((m.remove key).service name).reply = (m.service name).reply := by
  cases hw : m.workers.get? key with
  | none =>
    rw [remove_of_get?_eq_none hw]
    rfl
  | some w =>
    rw [service_remove_of_get? hw]
    split <;> rfl

namespace Consistent

theorem reply_pair (h : m.Consistent) (n : String) :
    ((m.act (.pair n)).service name).reply =
      if m.dispatched name (.pair n) = [] then (m.service name).reply else .awaiting := by
  rcases h.pairOldest_cases n with ⟨hm,_⟩ | ⟨e,es,key,keys,w,hp,hi,hw,hs,_,hm⟩
  · have hq : m.dispatched name (.pair n) = [] := by
      rw [dispatched, emitted_eq_nil (a := .pair n) (congrArg Mediator.outbox hm)]
      rfl
    rw [if_pos hq, act_pair, hm]
  · have hk : w.identity.hex = key := (h.keyed key w hw).symm
    have he : Wire.requestOf? (Wire.request e) = some e :=
      Wire.requestOf?_request (h.addressed n e (hp ▸ List.mem_cons_self ..))
    rw [act_pair, dispatched, emitted_pair hm, hm, service_given]
    by_cases hn : n = name
    · subst hn
      simp [isBound, hk, hw, hs, he]
    · simp [isBound, hk, hw, hs, hn]

/-- What an action makes of the flag. -/
theorem reply_act (h : m.Consistent) {a : Action} (ha : a.Lawful m) (hs : a ≠ .settle name) :
    ((m.act a).service name).reply =
      if m.dispatched name a = [] then (m.service name).reply else .awaiting := by
  have hquiet (hq : (m.act a).outbox = m.outbox)
      (hr : ((m.act a).service name).reply = (m.service name).reply) :
      ((m.act a).service name).reply =
        if m.dispatched name a = [] then (m.service name).reply else .awaiting := by
    rw [dispatched, emitted_eq_nil hq, List.filterMap_nil, if_pos rfl, hr]
  cases a with
  | emit peer frames =>
    rw [dispatched_eq_nil, if_pos rfl]
    · rfl
    · intro o ho
      rw [emitted_emit, List.mem_singleton] at ho
      exact ho ▸ ha
  | require n => exact hquiet (by simp) (by simp)
  | queue n e =>
    refine hquiet rfl ?_
    rw [act_queue, service_updateService]
    split
    · rename_i hn
      exact hn ▸ rfl
    · rfl
  | settle n =>
    have hn : n ≠ name := fun e => hs (e ▸ rfl)
    refine hquiet rfl ?_
    rw [act_settle, service_updateService, if_neg hn]
  | enrol | schedule => exact hquiet rfl rfl
  | wake key now => exact hquiet (by simp) (reply_awaken key now)
  | remove key => exact hquiet (by simp) (reply_remove key)
  | pair n => exact h.reply_pair n

/-- What a plan makes of the flag that brings no reply of the service. -/
theorem reply_follow (h : m.Consistent) {plan : List Action} (hl : m.LawfulPlan plan)
    (hs : .settle name ∉ plan) :
    ((m.follow plan).service name).reply =
      if (m.moments plan).flatMap (fun (t,a) => t.dispatched name a) = [] then
        (m.service name).reply
      else .awaiting := by
  induction plan generalizing m with
  | nil => rfl
  | cons a plan ih =>
    have ha : a ≠ .settle name := fun e => hs (e ▸ List.mem_cons_self ..)
    rw [follow_cons, ih (h.act hl.1) hl.2 fun hm => hs (List.mem_cons_of_mem a hm),
      h.reply_act hl.1 ha]
    simp only [moments_cons, List.flatMap_cons, List.append_eq_nil_iff]
    by_cases hd : m.dispatched name a = [] <;> simp only [hd, true_and, false_and, if_true,
      if_false, ite_self]

end Consistent

/-! ## One operation -/

theorem settle_mem_plan_iff : .settle name ∈ m.plan op ↔ m.settles name op = true := by
  have hown : .settle name ∈ m.plan op ↔ .settle name ∈ m.ownPlan op := by
    rw [← filter_isOwn_plan, List.mem_filter]
    simp [Action.isOwn]
  have hf (service : String) (e : Envelope) : .settle name ∉ forwardPlan service e := by
    intro hm
    obtain ⟨_,hm⟩ := mem_forwardPlan hm
    cases hm
  rw [hown]
  cases op with
  | handle sender frames now =>
    simp only [ownPlan, settles]
    cases Wire.Inbound.ofFrames frames with
    | error v => simp
    | ok i =>
      cases i with
      | client service body =>
        simp only [ownRequest]
        split <;> simp
      | worker c =>
        cases c with
        | ready service =>
          simp only [ownCommand]
          split
          · simp
          · split <;> simp [enrolPlan]
        | reply e =>
          simp only [ownCommand]
          cases hw : m.workers.get? sender.hex with
          | none => simp [isBound, hw]
          | some w => simp [isBound, hw, hf, eq_comm]
        | heartbeat =>
          simp only [ownCommand]
          split <;> simp
        | disconnect | unknown => simp [ownCommand]
        | shutdown e named =>
          simp only [ownCommand]
          cases ((m.workers.get? sender.hex).map (·.service)).or named with
          | none => simp
          | some service => simp [hf]
  | sweep now => simp [ownPlan, settles]
  | probe now =>
    simp only [ownPlan, probePlan, settles]
    split <;> simp
  | disconnectAll => simp [ownPlan, settles]

/-- A reply goes on to its client and clears the flag before anybody is paired. -/
theorem plan_of_settles (hs : m.settles name op = true) :
    ∃ e rest, m.plan op = forwardPlan name e ++ .settle name :: rest ∧
      ∀ a ∈ rest, a.Dispatching := by
  cases op with
  | handle sender frames now =>
    simp only [settles] at hs
    split at hs
    · rename_i e hf
      obtain ⟨w,hw,rfl⟩ := isBound_iff.mp hs
      refine ⟨e,(m.follow (forwardPlan w.service e ++ [.settle w.service])).renewPlan sender.hex now,
        ?_,renewPlan_dispatching _ _ _⟩
      simp [plan, hf, commandPlan, hw, replyPlan]
    · cases hs
  | sweep | probe | disconnectAll => cases hs

theorem dispatched_forwardPlan (service : String) (e : Envelope) (m : Mediator) :
    (m.moments (forwardPlan service e)).flatMap (fun (t,a) => t.dispatched name a) = [] := by
  unfold forwardPlan
  cases e.address? with
  | none => rfl
  | some client =>
    simp only [Option.elim_some, moments_cons, moments_nil, List.flatMap_cons, List.flatMap_nil,
      List.append_nil]
    refine dispatched_eq_nil fun o ho => ?_
    rw [emitted_emit, List.mem_singleton] at ho
    exact ho ▸ Wire.requestOf?_clientMessage ..

theorem requestsSent_eq_nil_iff :
    m.requestsSent name [op] = [] ↔
      (m.moments (m.plan op)).flatMap (fun (t,a) => t.dispatched name a) = [] := by
  rw [← List.map_eq_nil_iff, map_requestOf?_requestsSent, List.map_eq_nil_iff]
  simp only [history, List.append_nil]

/-- What an operation makes of the flag: a request that it sends for the service comes after the
reply that it brings. -/
theorem Consistent.reply_apply (h : m.Consistent) (op : Operation) (name : String) :
    ((m.apply op).1.service name).reply =
      if m.requestsSent name [op] = [] then
        if m.settles name op then .received else (m.service name).reply
      else .awaiting := by
  have hl := plan_lawful h op
  simp only [requestsSent_eq_nil_iff, ← follow_plan]
  cases hs : m.settles name op with
  | false =>
    have hn : .settle name ∉ m.plan op := fun hm => by
      rw [settle_mem_plan_iff.mp hm] at hs
      cases hs
    rw [h.reply_follow hl hn]
    rfl
  | true =>
    obtain ⟨e,rest,hp,hd⟩ := plan_of_settles hs
    rw [hp] at hl ⊢
    obtain ⟨hf,hset,hrest⟩ := lawfulPlan_append.mp hl
    have hset' := (h.follow hf).act hset
    have hn : .settle name ∉ rest := fun hm => by cases hd _ hm
    have hcleared : ((((m.follow (forwardPlan name e)).act (.settle name))).service name).reply =
        .received := by
      rw [act_settle, service_updateService, if_pos rfl]
    have hquiet : (m.follow (forwardPlan name e)).dispatched name (.settle name) = [] := by
      rw [dispatched, emitted_eq_nil rfl, List.filterMap_nil]
    rw [follow_append, follow_cons, hset'.reply_follow hrest hn, hcleared, moments_append,
      moments_cons, List.flatMap_append, List.flatMap_cons, dispatched_forwardPlan, List.nil_append]
    simp only [hquiet, List.nil_append, if_true]

/-! ## Runs -/

def Unsettled (name : String) (m : Mediator) (ops : List Operation) : Prop :=
  ∀ before x after, ops = before ++ x :: after → (m.run before).settles name x = false

theorem split_append_singleton {α : Type} {xs before after : List α} {x y : α}
    (h : xs ++ [y] = before ++ x :: after) :
    (xs = before ∧ y = x ∧ after = []) ∨
    ∃ rest, after = rest ++ [y] ∧ xs = before ++ x :: rest := by
  rcases List.eq_nil_or_concat' after with rfl | ⟨rest,z,rfl⟩
  · obtain ⟨hx,hy⟩ := List.append_inj' h rfl
    exact .inl ⟨hx,List.singleton_inj.mp hy,rfl⟩
  · rw [← List.cons_append, ← List.append_assoc] at h
    obtain ⟨hx,hy⟩ := List.append_inj' h rfl
    exact .inr ⟨rest,by rw [List.singleton_inj.mp hy],hx⟩

theorem unsettled_append_singleton {ops : List Operation} :
    m.Unsettled name (ops ++ [op]) ↔
      m.Unsettled name ops ∧ (m.run ops).settles name op = false := by
  constructor
  · intro h
    refine ⟨fun before x after hx => h before x (after ++ [op]) (by rw [hx]; simp),h ops op [] rfl⟩
  · rintro ⟨h,hop⟩ before x after hx
    rcases split_append_singleton hx with ⟨rfl,rfl,_⟩ | ⟨rest,_,hx⟩
    · exact hop
    · exact h before x rest hx

/-- A request went out for the service, and no reply of its workers has come since. -/
def Outstanding (name : String) (m : Mediator) (ops : List Operation) : Prop :=
  ∃ earlier op later, ops = earlier ++ op :: later ∧
    (m.run earlier).requestsSent name [op] ≠ [] ∧ (m.run (earlier ++ [op])).Unsettled name later

theorem outstanding_append_singleton {ops : List Operation} :
    m.Outstanding name (ops ++ [op]) ↔
      (m.run ops).requestsSent name [op] ≠ [] ∨
        m.Outstanding name ops ∧ (m.run ops).settles name op = false := by
  constructor
  · rintro ⟨earlier,x,later,hx,hsent,hun⟩
    rcases split_append_singleton hx with ⟨rfl,rfl,_⟩ | ⟨rest,rfl,rfl⟩
    · exact .inl hsent
    · obtain ⟨hun,hop⟩ := unsettled_append_singleton.mp hun
      refine .inr ⟨⟨earlier,x,rest,rfl,hsent,hun⟩,?_⟩
      rwa [← run_append, List.append_assoc] at hop
  · rintro (hsent | ⟨⟨earlier,x,later,rfl,hsent,hun⟩,hop⟩)
    · exact ⟨ops,op,[],rfl,hsent,fun before x after hx => by simp at hx⟩
    · refine ⟨earlier,x,later ++ [op],by simp,hsent,unsettled_append_singleton.mpr ⟨hun,?_⟩⟩
      rwa [← run_append, List.append_assoc]

/-- The flag of a service is set as long as no reply has come since the latest request. -/
theorem Consistent.awaiting_iff_outstanding (h : m.Consistent)
    (hr : (m.service name).reply ≠ .awaiting) (ops : List Operation) :
    ((m.run ops).service name).reply = .awaiting ↔ m.Outstanding name ops := by
  induction ops using List.reverseRecOn with
  | nil =>
    refine ⟨fun ha => absurd ha hr,?_⟩
    rintro ⟨earlier,op,later,hx,_⟩
    simp at hx
  | append_singleton ops op ih =>
    rw [run_append, run_cons, run_nil, (h.run ops).reply_apply, outstanding_append_singleton, ← ih]
    by_cases hsent : (m.run ops).requestsSent name [op] = []
    · cases hs : (m.run ops).settles name op <;> simp [hsent]
    · simp [hsent]

theorem settles_iff :
    m.settles name op = true ↔
      ∃ peer, op.isReply peer = true ∧ m.isBound name peer.hex = true := by
  cases op with
  | handle sender frames now =>
    simp only [settles, Operation.isReply, Operation.from?]
    cases hf : Wire.Inbound.ofFrames frames with
    | error v => simp [Except.toOption]
    | ok i =>
      cases i with
      | client service body => simp [Except.toOption]
      | worker c =>
        cases c with
        | reply e =>
          refine ⟨fun hb => ⟨sender,by simp [Except.toOption],hb⟩,?_⟩
          rintro ⟨peer,hreply,hb⟩
          by_cases hs : sender = peer
          · exact hs ▸ hb
          · simp [hs] at hreply
        | _ => simp [Except.toOption]
  | sweep | probe | disconnectAll => simp [settles, Operation.isReply, Operation.from?]

/-- After every run, if no reply of a service is awaited then every request that was sent for it
has been followed by a REPLY of a worker that was bound to it, be it the one that was sent the
request or another one. If a reply is awaited then some request has been followed by none. -/
theorem awaiting_tells_of_latest_request (interval lifetime now : Nat) (ops : List Operation)
    (name : String) :
    let s := start interval lifetime now
    ∀ status, (s.run ops).serviceStatus? name = some status →
      (status.awaiting = false → ∀ earlier op later, ops = earlier ++ op :: later →
        ∀ o ∈ (s.run earlier).requestsSent name [op], ∃ before x after peer,
          later = before ++ x :: after ∧ x.isReply peer = true ∧
          (s.run (earlier ++ op :: before)).isBound name peer.hex = true) ∧
      (status.awaiting = true → ∃ earlier op later, ops = earlier ++ op :: later ∧
        (∃ o, o ∈ (s.run earlier).requestsSent name [op]) ∧
        ∀ before x after peer, later = before ++ x :: after → x.isReply peer = true →
          (s.run (earlier ++ op :: before)).isBound name peer.hex = false) := by
  intro s status hstatus
  have hflag : status.awaiting = true ↔ s.Outstanding name ops := by
    rw [← (consistent_start interval lifetime now).awaiting_iff_outstanding (nofun) ops]
    obtain ⟨v,hv,rfl⟩ := Option.map_eq_some_iff.mp hstatus
    rw [service_of_get? hv, decide_eq_true_iff]
  have hrun (earlier before : List Operation) (op : Operation) :
      s.run (earlier ++ op :: before) = (s.run (earlier ++ [op])).run before := by simp
  constructor
  · intro hcleared earlier op later hx o ho
    by_contra hnone
    refine Bool.eq_false_iff.mp hcleared (hflag.mpr ⟨earlier,op,later,hx,List.ne_nil_of_mem ho,?_⟩)
    intro before x after hl
    refine Bool.eq_false_iff.mpr fun hs => hnone ?_
    obtain ⟨peer,hreply,hb⟩ := settles_iff.mp hs
    exact ⟨before,x,after,peer,hl,hreply,hrun earlier before op ▸ hb⟩
  · intro hset
    obtain ⟨earlier,op,later,hx,hsent,hun⟩ := hflag.mp hset
    refine ⟨earlier,op,later,hx,List.exists_mem_of_ne_nil _ hsent,?_⟩
    intro before x after peer hl hreply
    refine Bool.eq_false_iff.mpr fun hb => ?_
    have hs := settles_iff.mpr ⟨peer,hreply,hrun earlier before op ▸ hb⟩
    rw [hun before x after hl] at hs
    cases hs

/-- The request that went out last is followed by a reply, which another worker sent. -/
theorem awaiting_tells_of_latest_request_other :
    let s := start 2500 12500 0
    let w1 := Frame.ofText "w1"
    let w2 := Frame.ofText "w2"
    let ask (client : String) (now : Nat) :=
      Operation.handle (.ofText client) (Wire.clientMessage (.ofText "echo") [.ofText client]) now
    let earlier := [.handle w1 (Wire.ready "echo") 0, .handle w2 (Wire.ready "echo") 0, ask "c1" 1]
    let later := [.handle w1 (Wire.reply ⟨[.ofText "c1"],[.ofText "ok"]⟩) 3]
    let o := Outbound.mk w2 (Wire.request ⟨[.ofText "c2"],[.ofText "c2"]⟩)
    o ∈ (s.run earlier).requestsSent "echo" [ask "c2" 2] ∧
    ∃ before x after peer, later = before ++ x :: after ∧ x.isReply peer = true ∧
      (s.run (earlier ++ ask "c2" 2 :: before)).isBound "echo" peer.hex = true := by
  intro s w1 w2 ask earlier later o
  have hstatus : (s.run (earlier ++ ask "c2" 2 :: later)).serviceStatus? "echo" =
      some ⟨0,1,false⟩ := by decide
  have hsent : o ∈ (s.run earlier).requestsSent "echo" [ask "c2" 2] := by decide
  exact ⟨hsent,(awaiting_tells_of_latest_request 2500 12500 0 _ "echo" _ hstatus).1 rfl
    earlier _ later rfl o hsent⟩

/-- Two workers owe a reply, and the reply of one clears the flag while the other stays. -/
theorem awaiting_cleared_by_other_worker :
    let s := start 2500 12500 0
    let w1 := Frame.ofText "w1"
    let w2 := Frame.ofText "w2"
    let ask (client : String) (now : Nat) :=
      Operation.handle (.ofText client) (Wire.clientMessage (.ofText "echo") [.ofText client]) now
    let earlier := [.handle w1 (Wire.ready "echo") 0, .handle w2 (Wire.ready "echo") 0, ask "c1" 1]
    let later := [.handle w1 (Wire.reply ⟨[.ofText "c1"],[.ofText "ok"]⟩) 3]
    (s.run (earlier ++ ask "c2" 2 :: later)).serviceStatus? "echo" = some ⟨0,1,false⟩ ∧
    (∃ o ∈ (s.run earlier).requestsSent "echo" [ask "c2" 2], o.peer = w2) ∧
    (s.run (earlier ++ [ask "c2" 2])).StaysRegistered w2.hex later ∧
    ∀ x ∈ later, x.isReply w2 = false := by
  intro s w1 w2 ask earlier later
  refine ⟨by decide,⟨⟨w2,Wire.request ⟨[.ofText "c2"],[.ofText "c2"]⟩⟩,by decide,rfl⟩,?_,by decide⟩
  intro n
  cases n with
  | zero => decide
  | succ n =>
    have hx : later.take (n + 1) = later := List.take_of_length_le (by simp [later])
    rw [hx]
    decide

end Majordomo.Broker.Mediator
