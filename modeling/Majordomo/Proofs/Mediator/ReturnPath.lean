import Majordomo.Proofs.Mediator.Conservation
import Majordomo.Proofs.Mediator.Moments
import Majordomo.Proofs.Mediator.Registration
import Majordomo.Proofs.Wire.Grammar

/-! # The way of a reply

A worker is bound to one service for as long as it is registered, and the envelope of a request
comes back with the reply. So the reply finds the client, in the name of the service that it asked.
-/
namespace Majordomo.Broker.Mediator
variable {m : Mediator} {key : String} {w : Worker}

/-! ## Bindings stay -/

def Action.spares (key : String) : Action → Prop
  | .enrol identity _ _ => identity.hex ≠ key
  | _ => True

theorem spares_of_registersNone {a : Action} (h : a.registersNone = true) (key : String) :
    a.spares key := by
  cases a with
  | enrol => cases h
  | _ => trivial

/-- Whoever is registered at the end of a plan that does not register it was so before it, for the
same service. -/
theorem get?_workers_of_follow {plan : List Action} (hp : ∀ a ∈ plan, a.spares key)
    (h : (m.follow plan).workers.get? key = some w) :
    ∃ v, m.workers.get? key = some v ∧ v.service = w.service := by
  induction plan generalizing m with
  | nil => exact ⟨w,h,rfl⟩
  | cons a plan ih =>
    obtain ⟨v,hv,hs⟩ := ih (fun b hb => hp b (List.mem_cons_of_mem a hb)) h
    have ha := hp a (List.mem_cons_self ..)
    rcases get?_workers_act hv with hv | ⟨identity,_,_,rfl,rfl,_⟩ | ⟨now,u,_,hu,rfl⟩
    · exact ⟨v,hv,hs⟩
    · exact absurd rfl ha
    · exact ⟨u,hu,hs⟩

/-- An operation registers nobody who is registered. -/
theorem plan_spares (hw : m.workers.contains key = true) (op : Operation) :
    ∀ a ∈ m.plan op, a.spares key := by
  intro a ha
  rcases plan_registers m op with hn | ⟨sender,frames,now,service,_,_,hf,_,hp⟩
  · exact spares_of_registersNone (hn a ha) key
  · rw [hp] at ha
    rcases List.mem_append.mp ha with ha | ha
    · simp only [enrolPlan, List.mem_cons, List.not_mem_nil, or_false] at ha
      rcases ha with rfl | rfl
      · trivial
      · rintro rfl
        rw [hw] at hf
        cases hf
    · have hd := renewPlan_dispatching _ _ _ a ha
      exact spares_of_registersNone (registersNone_of_dispatching hd) key

/-- After a pairing an operation registers nobody. -/
theorem plan_spares_after {op : Operation} {name : String} {before after : List Action}
    (h : m.plan op = before ++ .pair name :: after) : ∀ a ∈ after, a.spares key := by
  intro a ha
  apply spares_of_registersNone
  rcases plan_registers m op with hn | ⟨sender,frames,now,service,_,_,_,_,hp⟩
  · exact hn a (h ▸ List.mem_append_right _ (List.mem_cons_of_mem _ ha))
  · rw [hp, enrolPlan] at h
    obtain _ | ⟨b,_ | ⟨c,before⟩⟩ := before
    · cases h
    · cases h
    · have hr : (m.follow (m.enrolPlan sender service now)).renewPlan sender.hex now =
          before ++ .pair name :: after := (List.cons.inj (List.cons.inj h).2).2
      have hm : a ∈ before ++ .pair name :: after :=
        List.mem_append_right _ (List.mem_cons_of_mem _ ha)
      exact registersNone_of_dispatching (renewPlan_dispatching _ _ _ a (hr ▸ hm))

def StaysRegistered (key : String) (m : Mediator) (ops : List Operation) : Prop :=
  ∀ n, (m.run (ops.take n)).workers.contains key = true

theorem StaysRegistered.get?_run {ops : List Operation} (h : m.StaysRegistered key ops)
    (hw : m.workers.get? key = some w) :
    ∃ v, (m.run ops).workers.get? key = some v ∧ v.service = w.service := by
  induction ops generalizing m w with
  | nil => exact ⟨w,hw,rfl⟩
  | cons op ops ih =>
    have h' : (m.apply op).1.StaysRegistered key ops := by
      intro n
      exact h (n + 1)
    obtain ⟨v,hv⟩ := (Table.contains_iff _ _).mp (h' 0)
    obtain ⟨u,hu,hs⟩ := get?_workers_of_follow (plan_spares (h 0) op) (follow_plan m op ▸ hv)
    obtain rfl : u = w := Option.some.inj (hu.symm.trans hw)
    obtain ⟨x,hx,hxs⟩ := ih h' hv
    exact ⟨x,hx,hxs.trans hs.symm⟩

/-! ## Requests in the order in which they go out -/

def requestsSent (name : String) (m : Mediator) (ops : List Operation) : List Outbound :=
  (m.history ops).flatMap fun (t,a) =>
    (t.emitted a).filter fun o => t.isBound name o.peer.hex && (Wire.requestOf? o.frames).isSome

theorem history_append (m : Mediator) (ops rest : List Operation) :
    m.history (ops ++ rest) = m.history ops ++ (m.run ops).history rest := by
  induction ops generalizing m with
  | nil => rfl
  | cons op ops ih => simp only [List.cons_append, history, ih, run_cons, List.append_assoc]

theorem requestsSent_append (name : String) (m : Mediator) (ops rest : List Operation) :
    m.requestsSent name (ops ++ rest) =
      m.requestsSent name ops ++ (m.run ops).requestsSent name rest := by
  rw [requestsSent, history_append, List.flatMap_append]
  rfl

theorem map_requestOf?_filter_emitted (name : String) (t : Mediator) (a : Action) :
    ((t.emitted a).filter fun o => t.isBound name o.peer.hex &&
      (Wire.requestOf? o.frames).isSome).map (Wire.requestOf? ·.frames) =
      (t.dispatched name a).map some := by
  rw [dispatched]
  induction t.emitted a with
  | nil => rfl
  | cons o os ih =>
    cases hb : t.isBound name o.peer.hex with
    | false => simpa [hb] using ih
    | true =>
      cases he : Wire.requestOf? o.frames with
      | none => simpa [hb, he] using ih
      | some e => simpa [hb, he] using ih

/-- What the requests hold is what is dispatched. -/
theorem map_requestOf?_requestsSent (name : String) (m : Mediator) (ops : List Operation) :
    (m.requestsSent name ops).map (Wire.requestOf? ·.frames) =
      ((m.history ops).flatMap fun (t,a) => t.dispatched name a).map some := by
  rw [requestsSent, List.map_flatMap, List.map_flatMap]
  simp only [map_requestOf?_filter_emitted]

theorem ofFrames_of_requestOf? {frames : Message} {e : Envelope}
    (h : Wire.requestOf? frames = some e) :
    Wire.BrokerCommand.ofFrames frames = .ok (.request e) := by
  unfold Wire.requestOf? at h
  split at h
  · rename_i hf
    cases h
    exact hf
  · cases h

/-- The request that goes out as number `k` is the one that came as number `k`. -/
theorem Consistent.getElem?_requestsSent (h : m.Consistent) {name : String}
    (hn : Wire.isInternal name = false) (hp : (m.service name).pending = [])
    {ops : List Operation} {k : Nat} {o : Outbound} (ho : (m.requestsSent name ops)[k]? = some o) :
    ∃ e, Wire.requestOf? o.frames = some e ∧ (ops.flatMap (·.requestFor name))[k]? = some e := by
  have hc := h.dispatched_append_pending_run hn ops
  rw [hp, List.nil_append] at hc
  have hk := congrArg (·[k]?) (map_requestOf?_requestsSent name m ops)
  simp only [List.getElem?_map, ho, Option.map_some] at hk
  obtain ⟨e,hd,he⟩ := Option.map_eq_some_iff.mp hk.symm
  refine ⟨e,he.symm,?_⟩
  rw [← hc, List.getElem?_append_left (List.getElem?_eq_some_iff.mp hd).1, hd]

theorem eq_of_mem_requestFor {name : String} {ops : List Operation} {e : Envelope}
    (h : e ∈ ops.flatMap (·.requestFor name)) : ∃ client body, e = ⟨[client],body⟩ := by
  obtain ⟨op,_,he⟩ := List.mem_flatMap.mp h
  cases op with
  | handle sender frames now =>
    simp only [Operation.requestFor] at he
    split at he
    · split at he
      · exact ⟨sender,_,List.mem_singleton.mp he⟩
      · cases he
    · cases he
  | sweep | probe | disconnectAll => cases he

/-- A request for the service goes out where a worker that is bound to it is paired. -/
theorem Consistent.plan_of_requestsSent (h : m.Consistent) {op : Operation} {name : String}
    {o : Outbound} (ho : o ∈ m.requestsSent name [op]) :
    ∃ before after w, m.plan op = before ++ .pair name :: after ∧
      (m.follow before).workers.get? o.peer.hex = some w ∧ w.service = name ∧
      Wire.isInternal name = false := by
  obtain ⟨⟨t,a⟩,hx,ho⟩ := List.mem_flatMap.mp ho
  obtain ⟨ho,hb⟩ := List.mem_filter.mp ho
  obtain ⟨hb,he⟩ := Bool.and_eq_true_iff.mp hb
  obtain ⟨e,he⟩ := Option.isSome_iff_exists.mp he
  have hx : (t,a) ∈ m.moments (m.plan op) := by simpa [Mediator.history] using hx
  obtain ⟨hc,hl⟩ := h.moments (plan_lawful h op) _ hx
  obtain ⟨n,w,rfl,hw,_,rfl,_⟩ := hc.emitted_request hl ho he
  obtain ⟨v,hv,rfl⟩ := isBound_iff.mp hb
  obtain rfl : v = w := Option.some.inj (hv.symm.trans hw)
  obtain ⟨before,after,hp,rfl⟩ := mem_moments hx
  exact ⟨before,after,v,hp,hw,rfl,hc.external _ (hc.served _ v hw)⟩

/-- Whoever is sent a request for the service by the operation is bound to the service after the
operation, if it is still registered. -/
theorem Consistent.service_of_requestsSent (h : m.Consistent) {op : Operation} {name : String}
    {o : Outbound} (ho : o ∈ m.requestsSent name [op])
    (hw : (m.apply op).1.workers.get? o.peer.hex = some w) : w.service = name := by
  obtain ⟨before,after,v,hp,hv,hs,_⟩ := h.plan_of_requestsSent ho
  rw [← follow_plan, hp, follow_append, follow_cons, act_pair] at hw
  obtain ⟨u,hu,hus⟩ := get?_workers_of_follow (plan_spares_after hp) hw
  rw [workers_pairOldest] at hu
  obtain rfl : u = v := Option.some.inj (hu.symm.trans hv)
  exact hus.symm.trans hs

/-! ## The reply -/

theorem outbox_pairOldest_cases (name : String) (m : Mediator) :
    (m.pairOldest name).outbox = m.outbox ∨
    ∃ peer e, (m.pairOldest name).outbox = m.outbox ++ [⟨peer,Wire.request e⟩] := by
  unfold pairOldest
  split
  · dsimp only
    split
    · exact .inr ⟨_,_,rfl⟩
    · exact .inl rfl
  · exact .inl rfl

/-- What dispatches send are requests. -/
theorem eq_request_of_dispatching {a : Action} (ha : a.Dispatching) {o : Outbound}
    (ho : o ∈ m.emitted a) : ∃ e, o.frames = Wire.request e := by
  have hquiet (hq : (m.act a).outbox = m.outbox) : ∃ e, o.frames = Wire.request e := by
    rw [emitted_eq_nil hq] at ho
    cases ho
  cases ha with
  | wake key now => exact hquiet (outbox_awaken key now)
  | remove key => exact hquiet (outbox_remove key)
  | pair name =>
    rcases outbox_pairOldest_cases name m with hq | ⟨peer,e,hq⟩
    · exact hquiet hq
    · have hs : m.emitted (.pair name) = [⟨peer,Wire.request e⟩] := emitted_eq hq
      rw [hs, List.mem_singleton] at ho
      exact ⟨e,ho ▸ rfl⟩

/-- The reply of a registered worker goes to its client before all else, in the name of the
service that the worker is bound to; whatever else is sent are requests. -/
theorem handle_reply {peer : Frame} (hw : m.workers.get? peer.hex = some w) (client : Frame)
    (body : Message) (time : Nat) :
    (m.handle peer (Wire.reply ⟨[client],body⟩) time).2 = none ∧
    ∃ rest, (m.handle peer (Wire.reply ⟨[client],body⟩) time).1.outbox =
        m.outbox ++ ⟨client,Wire.clientMessage (.ofText w.service) body⟩ :: rest ∧
      ∀ o ∈ rest, ∃ e, o.frames = Wire.request e := by
  have hf : Wire.Inbound.ofFrames (Wire.reply ⟨[client],body⟩) =
      .ok (.worker (.reply ⟨[client],body⟩)) := Wire.Inbound.ofFrames_reply rfl
  constructor
  · simp [handle, hf, command, hw]
  · let settled := m.follow (forwardPlan w.service ⟨[client],body⟩ ++ [.settle w.service])
    have hp : m.plan (.handle peer (Wire.reply ⟨[client],body⟩) time) =
        m.replyPlan peer w ⟨[client],body⟩ time := by
      simp [plan, hf, commandPlan, hw]
    have hs : settled.outbox =
        m.outbox ++ [⟨client,Wire.clientMessage (.ofText w.service) body⟩] := rfl
    refine ⟨(settled.moments (settled.renewPlan peer.hex time)).flatMap
      fun (t,a) => t.emitted a,?_,?_⟩
    · change (m.apply (.handle peer (Wire.reply ⟨[client],body⟩) time)).1.outbox = _
      rw [← follow_plan, hp, replyPlan, follow_append, outbox_follow]
      change settled.outbox ++ _ = _
      rw [hs, List.append_assoc]
      rfl
    · intro o ho
      obtain ⟨⟨t,a⟩,hx,ho⟩ := List.mem_flatMap.mp ho
      obtain ⟨before,after,hr,_⟩ := mem_moments hx
      have ha : a ∈ settled.renewPlan peer.hex time := by
        rw [hr]
        exact List.mem_append_right _ (List.mem_cons_self ..)
      exact eq_request_of_dispatching (renewPlan_dispatching _ _ _ a ha) ho

/-- A run from the start sends the requests for a service in the order in which they came. As soon
as one of them has gone to a worker, the worker reads it as the envelope of the client that made
it; and however the run goes on, as long as the worker stays registered, its reply with that
envelope and any body goes to that client before all else, as the one message for a client, in
the name of the service that was asked. -/
theorem replies_find_clients (interval lifetime now : Nat) (ops : List Operation) (op : Operation)
    (name : String) (k : Nat) (o : Outbound) :
    let s := start interval lifetime now
    let m := s.run (ops ++ [op])
    (s.requestsSent name ops).length ≤ k → (s.requestsSent name (ops ++ [op]))[k]? = some o →
    ∃ client body e, ((ops ++ [op]).flatMap (·.requestFor name))[k]? = some ⟨[client],body⟩ ∧
      Wire.BrokerCommand.ofFrames o.frames = .ok (.request e) ∧
      e.depth = 1 ∧ e.address? = some client ∧ e.body = body ∧
      ∀ later, m.StaysRegistered o.peer.hex later → ∀ answer time,
        let r := (m.run later).handle o.peer (Wire.reply (e.withBody answer)) time
        r.2 = none ∧
        ∃ reply rest, r.1.outbox = (m.run later).outbox ++ ⟨client,reply⟩ :: rest ∧
          Wire.ClientReply.ofFrames reply = .ok ⟨name,answer⟩ ∧
          ∀ x ∈ rest, (∃ f, x.frames = Wire.request f) ∧
            ∀ heard, Wire.ClientReply.ofFrames x.frames ≠ .ok heard := by
  intro s m hk ho
  have h : s.Consistent := consistent_start interval lifetime now
  have hc : (s.run ops).Consistent := h.run ops
  have hlast : o ∈ (s.run ops).requestsSent name [op] := by
    rw [requestsSent_append, List.getElem?_append_right hk] at ho
    exact List.mem_of_getElem? ho
  obtain ⟨_,_,_,_,_,_,hn⟩ := hc.plan_of_requestsSent hlast
  obtain ⟨e,he,hq⟩ := h.getElem?_requestsSent hn rfl ho
  obtain ⟨client,body,rfl⟩ := eq_of_mem_requestFor (List.mem_of_getElem? hq)
  refine ⟨client,body,⟨[client],body⟩,hq,ofFrames_of_requestOf? he,rfl,rfl,rfl,?_⟩
  intro later hlater answer time
  obtain ⟨w,hw⟩ := (Table.contains_iff _ _).mp (hlater 0)
  have hm : m = ((s.run ops).apply op).1 := run_append s ops [op]
  have hs : w.service = name := hc.service_of_requestsSent hlast (hm ▸ hw)
  obtain ⟨v,hv,hvs⟩ := hlater.get?_run hw
  obtain ⟨hr,rest,hout,hrest⟩ := handle_reply hv client answer time
  refine ⟨hr,_,rest,hout,?_,?_⟩
  · rw [hvs, hs]
    exact Wire.ClientReply.ofFrames_clientMessage name answer
  · intro x hx
    obtain ⟨f,hf⟩ := hrest x hx
    refine ⟨⟨f,hf⟩,?_⟩
    intro heard
    rw [hf, Wire.request, Wire.ClientReply.ofFrames_workerMessage]
    simp

/-- A client without any bytes for an identity gets an empty answer, after the worker has given a
sign of life and been swept over. -/
theorem replies_find_clients_nameless :
    let peer := Frame.ofText "w1"
    let s := start 2500 12500 0
    let ops := [.handle peer (Wire.ready "echo") 0]
    let op := Operation.handle .empty (Wire.clientMessage (.ofText "echo") [.empty]) 1
    let later := [.handle peer Wire.heartbeat 2, .sweep 3]
    let e : Envelope := ⟨[.empty],[.empty]⟩
    let m := s.run (ops ++ [op])
    (s.requestsSent "echo" ops).length ≤ 0 ∧
    (s.requestsSent "echo" (ops ++ [op]))[0]? = some ⟨peer,Wire.request e⟩ ∧
    m.StaysRegistered peer.hex later ∧
    ((m.run later).handle peer (Wire.reply (e.withBody [])) 4).2 = none ∧
    ∃ reply rest, ((m.run later).handle peer (Wire.reply (e.withBody [])) 4).1.outbox =
        (m.run later).outbox ++ ⟨.empty,reply⟩ :: rest ∧
      Wire.ClientReply.ofFrames reply = .ok ⟨"echo",[]⟩ := by
  intro peer s ops op later e m
  have hk : (s.requestsSent "echo" ops).length ≤ 0 := by decide
  have ho : (s.requestsSent "echo" (ops ++ [op]))[0]? =
      some ⟨peer,Wire.request e⟩ := by decide
  have hlater : m.StaysRegistered peer.hex later := by
    intro n
    match n with
    | 0 => decide
    | 1 => decide
    | n + 2 =>
      rw [List.take_of_length_le (by simp [later])]
      decide
  obtain ⟨client,body,f,hq,hf,_,_,_,h⟩ :=
    replies_find_clients 2500 12500 0 ops op "echo" 0 _ hk ho
  have hr : Wire.BrokerCommand.ofFrames (Wire.request e) = .ok (.request e) := by decide
  have hfe : f = e := Wire.BrokerCommand.request.inj (Except.ok.inj (hf.symm.trans hr))
  have hc : ((ops ++ [op]).flatMap (·.requestFor "echo"))[0]? = some e := by decide
  have hce : (⟨[client],body⟩ : Envelope) = e := Option.some.inj (hq.symm.trans hc)
  have hempty : client = .empty := (List.cons.inj (Envelope.mk.inj hce).1).1
  obtain ⟨hn,reply,rest,hout,hreply,_⟩ := h later hlater [] 4
  rw [hfe] at hn hout
  rw [hempty] at hout
  -- Without the bound on what may be unfolded the two runs are evaluated to be compared.
  refine ⟨hk,ho,hlater,?_,reply,rest,?_,hreply⟩
  · with_reducible exact hn
  · with_reducible exact hout

end Majordomo.Broker.Mediator
