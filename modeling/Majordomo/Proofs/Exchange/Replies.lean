import Majordomo.Proofs.Exchange.Ledger
import Majordomo.Proofs.Exchange.Load
import Majordomo.Proofs.Text.Hex

/-! # Every reply answers a request of its own

The joining of the parties and the ledger of what is on its way survive every step, so
after every run the replies of the broker stand for different requests before them.
-/
namespace Majordomo.Exchange.World
open Broker (Mediator Outbound)
variable {w w' : World}

/-- All that is on its way is claimed, each for a request of its own. -/
def Accounted (w : World) : Prop :=
  ∃ claims origin, Ledger w.Answered w.history w.load claims origin

/-- A step that says nothing and puts nothing in addition on its way. -/
theorem Accounted.mono (h : w.Accounted) (hg : Grows w w') (hh : w'.history = w.history)
    (hl : ∀ p, w'.load p ≤ w.load p) : w'.Accounted := by
  obtain ⟨claims,origin,h⟩ := h
  exact ⟨claims,origin,hh ▸ h.mono hl fun _ _ _ _ => hg.answered⟩

theorem wired_start (interval lifetime now : Nat) : (start interval lifetime now).Wired where
  fits := Nat.zero_le _
  identities := by simp [start]
  links := List.nodup_nil
  opened := by simp [start]
  spoken := by simp [start]
  docked := by simp [start]
  counted := by simp [start]
  asked := by simp [start]
  consistent := Mediator.consistent_start interval lifetime now
  drained := rfl
  staffed := by
    intro key v hv
    cases hv

theorem accounted_start (interval lifetime now : Nat) :
    (start interval lifetime now).Accounted := by
  have hr : ∀ j, ¬ RepliedAt (start interval lifetime now).history j := by
    rintro j ⟨client,frames,hj⟩
    cases hj
  refine ⟨[],id,?_,List.nodup_nil,?_,?_,?_,?_⟩
  · intro p
    cases p <;> exact Nat.le_refl _
  · intro c hc
    cases hc
  · exact fun j hj => absurd hj (hr j)
  · exact fun j hj => absurd hj (hr j)
  · exact fun j k hj => absurd hj (hr j)

theorem Wired.of_joined (h : w.Wired) (hj : w'.Joined) (hg : Grows w w')
    (hb : w'.broker = w.broker) : w'.Wired :=
  ⟨hj,hb ▸ h.consistent,hb ▸ h.drained,hb ▸ hg.staffed hj h.staffed⟩

/-! ## Clients and workers -/

theorem Wired.join (h : w.Wired) (hf : w.connections.length < 2 ^ 64) :
    (w.connect (.client [])).Wired := by
  refine h.of_joined (h.toJoined.connect hf ?_ ?_) (grows_connect _ w) rfl
  · intro i n hl
    cases hl
  · intro sent hs
    exact (Party.client.inj hs).symm

theorem Accounted.join (h : w.Accounted) : (w.connect (.client [])).Accounted := by
  refine h.mono (grows_connect _ w) rfl ?_
  intro p
  rw [load_connect]
  exact Nat.le_refl _

theorem grows_ask (k : Nat) (frames : Message) (w : World) : Grows w (w.ask k frames) := by
  unfold World.ask
  split
  · rename_i identity sent hc
    have hg : Grows w (w.setConnection k ⟨identity,.client (sent ++ [frames])⟩) :=
      grows_setConnection hc rfl rfl
    exact hg.trans (.of_eq rfl rfl)
  · exact .refl w

theorem Wired.ask (h : w.Wired) (k : Nat) (rest : Message) :
    (w.ask k (.empty :: .ofText Wire.clientRole :: rest)).Wired := by
  unfold World.ask
  split
  · rename_i identity sent hc
    have hj : (w.setConnection k ⟨identity,
        .client (sent ++ [.empty :: .ofText Wire.clientRole :: rest])⟩).Joined := by
      refine h.toJoined.setConnection hc rfl rfl ?_
      intro sent' hs frames hf
      cases hs
      rcases List.mem_append.mp hf with hf | hf
      · exact h.asked _ (List.mem_of_getElem? hc) sent rfl frames hf
      · exact ⟨rest,List.mem_singleton.mp hf⟩
    have hg := grows_ask k (.empty :: .ofText Wire.clientRole :: rest) w
    rw [World.ask, hc] at hg
    exact h.of_joined (hj.of_eq rfl rfl) hg rfl
  · exact h

theorem Accounted.ask (h : w.Accounted) (k : Nat) (frames : Message) :
    (w.ask k frames).Accounted := by
  unfold World.ask
  split
  · rename_i identity sent hc
    obtain ⟨claims,origin,h⟩ := h
    have hl : ∀ p, (w.setConnection k ⟨identity,.client (sent ++ [frames])⟩).load p ≤
        w.load p + (Parcel.asked? identity frames).toList.count p := by
      intro p
      have hs := load_setConnection hc ⟨identity,.client (sent ++ [frames])⟩ p
      have hn : ([frames].filterMap (Parcel.asked? identity)).count p =
          (Parcel.asked? identity frames).toList.count p :=
        count_filterMap_cons (Parcel.asked? identity) frames [] p
      simp only [carried, List.filterMap_append, List.count_append, hn] at hs
      omega
    obtain ⟨claims',h'⟩ := h.ask hl
    exact ⟨claims',origin,h'⟩
  · exact h

theorem act_cases {i : Nat} {s : Worker.State} (hs : w.workers[i]? = some s) (a : Act) :
    w.act i a = w.onWorker i (a.apply ·) ∨
      s.network.links.length < (a.apply s).network.links.length ∧
      w.act i a = (w.onWorker i (a.apply ·)).connect (.worker i s.network.links.length 0) := by
  unfold World.act
  simp only [hs]
  split
  · exact .inr ⟨‹_›,rfl⟩
  · exact .inl rfl

theorem act_of_none {i : Nat} (hs : w.workers[i]? = none) (a : Act) : w.act i a = w := by
  simp only [World.act, hs]

theorem grows_act (i : Nat) (a : Act) (w : World) : Grows w (w.act i a) := by
  have hg : Grows w (w.onWorker i (a.apply ·)) := grows_onWorker fun s _ => a.continues s
  cases hs : w.workers[i]? with
  | none => exact (act_of_none hs a).symm ▸ Grows.refl w
  | some s =>
    rcases act_cases hs a with he | ⟨_,he⟩ <;> rw [he]
    · exact hg
    · exact hg.trans (grows_connect _ _)

theorem Wired.act (h : w.Wired) {i : Nat} {a : Act}
    (hf : (w.act i a).connections.length ≤ 2 ^ 64) : (w.act i a).Wired := by
  cases hs : w.workers[i]? with
  | none => exact (act_of_none hs a).symm ▸ h
  | some s =>
    have hc : ∀ s, w.workers[i]? = some s → s.Continues (a.apply s) := fun s _ => a.continues s
    have hj := h.toJoined.onWorker hc
    have hw := h.of_joined hj (grows_onWorker hc) rfl
    rcases act_cases hs a with he | ⟨hlt,he⟩ <;> rw [he] at hf ⊢
    · exact hw
    · simp only [World.connect, List.length_append, List.length_singleton] at hf
      refine hw.of_joined (hj.connect hf ?_ (by simp)) (grows_connect _ _) rfl
      intro j n hl
      cases hl
      refine ⟨⟨a.apply s,by simp [onWorker_workers, hs],hlt⟩,?_⟩
      intro c hm hcl
      obtain ⟨t,ht,hn⟩ := h.opened c hm i _ hcl
      obtain rfl := Option.some.inj (hs.symm.trans ht)
      exact Nat.lt_irrefl _ hn

/-- A connection that a worker opens carries nothing yet. -/
theorem Wired.load_act (h : w.Wired) {i : Nat} {s : Worker.State} (hs : w.workers[i]? = some s)
    (a : Act) (p : Parcel) : (w.act i a).load p = (w.onWorker i (a.apply ·)).load p := by
  rcases act_cases hs a with he | ⟨_,he⟩ <;> rw [he]
  have hd := (h.docked i s hs).parcels_eq_nil (Nat.le_refl s.network.links.length) 0
  have hn : ((a.apply s).parcels s.network.links.length 0).count p = 0 := by
    rcases a.apply_cases s with hk | ⟨id,client,body,hc⟩
    · have := hk.parcels s.network.links.length 0 p
      rw [hd] at this
      exact Nat.le_zero.mp this
    · have hne : s.network.links.length ≠ id := Nat.ne_of_gt hc.here
      have := hc.parcels s.network.links.length 0 p
      rw [hd] at this
      simpa [hne] using this
  rw [load_connect]
  simp [World.carried, onWorker_workers, hs, hn]

/-- The worker that has called its handler answers for it. -/
theorem Wired.answered_of_calls (h : w.Wired) {i id : Nat} {s : Worker.State} {a : Act}
    {client : Frame} {body reply : Message} (hs : w.workers[i]? = some s)
    (hc : Worker.State.Calls id client body s (a.apply s))
    (hr : (s.settings.handler s.calls client body).result.toOption = some reply) :
    (w.act i a).Answered s.settings.announced client body reply := by
  have hm : (w.act i a).workers[i]? = some (a.apply s) := by
    rcases act_cases hs a with he | ⟨_,he⟩ <;> rw [he] <;>
      simpa [World.connect, hs] using onWorker_workers w i i (a.apply ·)
  refine ⟨a.apply s,List.mem_of_getElem? hm,congrArg _ hc.settings,s.calls,?_,?_⟩
  · rw [hc.callLog, h.counted i s hs]
    simp
  · rw [hc.settings]
    cases hres : (s.settings.handler s.calls client body).result with
    | error f => simp [hres, Except.toOption] at hr
    | ok b => simpa [hres, Except.toOption] using hr

theorem Accounted.act (ha : w.Accounted) (h : w.Wired) (i : Nat) (a : Act) :
    (w.act i a).Accounted := by
  cases hs : w.workers[i]? with
  | none => exact (act_of_none hs a).symm ▸ ha
  | some s =>
    have hg := grows_act i a w
    have hh : (w.act i a).history = w.history := by
      rcases act_cases hs a with he | ⟨_,he⟩ <;> rw [he] <;> rfl
    rcases a.apply_cases s with hk | ⟨id,client,body,hc⟩
    · refine ha.mono hg hh ?_
      intro p
      rw [h.load_act hs]
      refine load_onWorker_of_keeps (fun t ht => ?_) p
      obtain rfl := Option.some.inj (hs.symm.trans ht)
      exact hk
    · rcases h.toJoined.load_onWorker_of_calls (f := (a.apply ·)) hs hc with hl | hl
      · refine ha.mono hg hh ?_
        intro p
        rw [h.load_act hs]
        exact hl p
      · obtain ⟨claims,origin,hled⟩ := ha
        simp only [← h.load_act hs a] at hl
        obtain ⟨claims',h'⟩ := hled.respond hl (fun _ _ _ _ => hg.answered)
          fun reply hr => h.answered_of_calls hs hc hr
        exact ⟨claims',origin,hh ▸ h'⟩

/-! ## The broker -/

theorem broker_foldl_deliver (os : List Outbound) (w : World) :
    (os.foldl World.deliver w).broker = w.broker := by
  induction os generalizing w with
  | nil => rfl
  | cons o os ih =>
    rw [List.foldl_cons, ih]
    rcases w.deliver_cases o with he | ⟨i,n,he⟩ <;> rw [he]
    rfl

theorem grows_operate (op : Mediator.Operation) (w : World) : Grows w (w.operate op) := by
  have hg : Grows w { w with broker := (w.broker.apply op).1.drain.2 } := .of_eq rfl rfl
  have hd := grows_foldl_deliver (w.broker.apply op).1.outbox
    { w with broker := (w.broker.apply op).1.drain.2 }
  exact (hg.trans hd).trans (.of_eq rfl rfl)

theorem Wired.operate (h : w.Wired) {op : Mediator.Operation} (hp : op.Placed w.known) :
    (w.operate op).Wired := by
  have hj : (w.operate op).Joined := by
    have hb : Joined { w with broker := (w.broker.apply op).1.drain.2 } := h.toJoined.of_eq rfl rfl
    exact (hb.foldl_deliver (w.broker.apply op).1.outbox).of_eq rfl rfl
  have hb : (w.operate op).broker = (w.broker.apply op).1.drain.2 :=
    broker_foldl_deliver (w.broker.apply op).1.outbox _
  have hc : (w.broker.apply op).1.drain.2.Consistent := (h.consistent.apply op).congr rfl rfl rfl
  have hs : (w.broker.apply op).1.drain.2.Staffed w.known := h.staffed.apply hp
  exact ⟨hj,hb.symm ▸ hc,by rw [hb]; rfl,hb.symm ▸ (grows_operate op w).staffed hj hs⟩

theorem known_of_isClient {peer : Frame} (h : w.isClient peer = true) : w.known peer = none := by
  unfold isClient at h
  split at h
  · rename_i identity sent hc
    simp [known, hc, serviceOf?, Connection.link?]
  · cases h

/-- What a worker says is not taken for a client's. -/
def FromWorker (w : World) (op : Mediator.Operation) : Prop :=
  ∀ sender frames now c, op = .handle sender frames now →
    Wire.Inbound.ofFrames frames = .ok (.worker c) → w.isClient sender = false

/-- Clients hear of nothing but a reply that the broker passes on. -/
theorem Wired.replies_eq (h : w.Wired) {op : Mediator.Operation} (hp : op.Placed w.known)
    (hw : w.FromWorker op) :
    w.replies op (w.broker.apply op).1.outbox = [] ∨
      ∃ o, w.broker.passedOn? op = some o ∧
        w.replies op (w.broker.apply op).1.outbox = [.replied o.peer o.frames] := by
  unfold replies
  cases ha : isAside op with
  | true => exact .inl rfl
  | false =>
    have hi : ∀ sender frames now service body, op = .handle sender frames now →
        Wire.Inbound.ofFrames frames = .ok (.client service body) →
        Wire.isInternal service.toText = false := by
      rintro sender frames now service body rfl hf
      simpa [isAside, hf] using ha
    have hs : ∀ sender frames now e named, op = .handle sender frames now →
        Wire.Inbound.ofFrames frames ≠ .ok (.worker (.shutdown e named)) := by
      rintro sender frames now e named rfl hf
      simp [isAside, hf] at ha
    have hx : ∀ peer, w.isClient peer = true → w.known peer = none := fun _ => known_of_isClient
    rw [if_neg Bool.false_ne_true, h.staffed.filter_outbox h.consistent h.drained hp hx,
      h.staffed.said_ownPlan h.consistent hx hi hs hw]
    cases hpass : w.broker.passedOn? op with
    | none => exact .inl rfl
    | some o =>
      by_cases ho : w.isClient o.peer
      · exact .inr ⟨o,rfl,by simp [ho]⟩
      · exact .inl (by simp [ho])

theorem Wired.history_operate (h : w.Wired) {op : Mediator.Operation} (hp : op.Placed w.known)
    (hw : w.FromWorker op) (hn : w.broker.passedOn? op = none) :
    (w.operate op).history = w.history := by
  have hh : (w.operate op).history =
      w.history ++ w.replies op (w.broker.apply op).1.outbox := rfl
  rcases h.replies_eq hp hw with hr | ⟨o,ho,_⟩
  · rw [hh, hr, List.append_nil]
  · rw [hn] at ho
    cases ho

/-- An operation without a word of a peer. -/
theorem Wired.accounted_operate (h : w.Wired) (ha : w.Accounted) {op : Mediator.Operation}
    (hp : op.Placed w.known) (hw : w.FromWorker op) (hb : brought op = [])
    (hn : w.broker.passedOn? op = none) : (w.operate op).Accounted := by
  refine ha.mono (grows_operate op w) (h.history_operate hp hw hn) ?_
  intro p
  have hl := h.load_operate hp p
  rwa [hb] at hl

/-! ## Taking a message -/

theorem advance_identity (c : Connection) : c.advance.identity = c.identity := by
  obtain ⟨identity,party⟩ := c
  cases party <;> rfl

theorem advance_link? (c : Connection) : c.advance.link? = c.link? := by
  obtain ⟨identity,party⟩ := c
  cases party <;> rfl

theorem Wired.advance (h : w.Wired) {k : Nat} {c : Connection} (hc : w.connections[k]? = some c) :
    (w.setConnection k c.advance).Wired := by
  refine h.of_joined (h.toJoined.setConnection hc (advance_identity c) (advance_link? c) ?_)
    (grows_setConnection hc (advance_identity c) (advance_link? c)) rfl
  intro sent hs frames hf
  obtain ⟨identity,party⟩ := c
  cases party with
  | worker i n taken => cases hs
  | client sent' =>
    cases hs
    exact h.asked _ (List.mem_of_getElem? hc) sent' rfl frames (List.mem_of_mem_tail hf)

/-- What the broker takes from a connection is no longer on its way to the broker. -/
theorem load_advance {k : Nat} {c : Connection} {frames : Message}
    (hc : w.connections[k]? = some c) (hw : w.waiting? c = some frames) (p : Parcel) :
    (w.setConnection k c.advance).load p + (w.told c frames).count p = w.load p := by
  have hs := load_setConnection hc c.advance p
  have hp := count_carried hw p
  omega

/-- What a client says is of the client role. -/
theorem Joined.waiting?_client (h : w.Joined) {identity : Frame} {sent : List Message}
    {frames : Message} (hc : ⟨identity,.client sent⟩ ∈ w.connections)
    (hw : w.waiting? ⟨identity,.client sent⟩ = some frames) (c : Wire.WorkerCommand) :
    Wire.Inbound.ofFrames frames ≠ .ok (.worker c) := by
  obtain ⟨rest,rfl⟩ := h.asked _ hc sent rfl frames (List.mem_of_mem_head? hw)
  exact Wire.Inbound.ofFrames_clientRole rest c

/-- What stands on the connection of a worker is one of the worker's messages. -/
theorem Joined.waiting?_worker (h : w.Joined) {identity : Frame} {i n taken : Nat}
    {frames : Message} (hw : w.waiting? ⟨identity,.worker i n taken⟩ = some frames) :
    ∃ s, w.workers[i]? = some s ∧ ∃ o : Worker.Output, frames = o.frames s.settings.service := by
  obtain ⟨l,hl,hf⟩ := Option.bind_eq_some_iff.mp hw
  obtain ⟨s,hs,hl⟩ := Option.bind_eq_some_iff.mp hl
  exact ⟨s,hs,h.spoken i s hs n l hl frames (List.mem_of_getElem? hf)⟩

theorem Joined.known_of_worker (h : w.Joined) {identity : Frame} {i n taken : Nat}
    {s : Worker.State} (hc : ⟨identity,.worker i n taken⟩ ∈ w.connections)
    (hs : w.workers[i]? = some s) : w.known identity = some s.settings.announced := by
  refine (h.known_identity hc).trans ?_
  simp [serviceOf?, Connection.link?, hs]

/-- What the broker passes on from a worker is what that worker gives. -/
theorem Wired.given_of_passedOn (h : w.Wired) {sender : Frame} {frames : Message} {now : Nat}
    {service : String} {o : Outbound} (hk : w.known sender = some service)
    (ho : w.broker.passedOn? (.handle sender frames now) = some o) :
    ∃ client body, Parcel.given? service frames = some (.reply client service body) ∧
      o = ⟨client,Wire.clientMessage (.ofText service) body⟩ := by
  obtain ⟨_,_,_,e,v,client,⟨⟩,he,hv,hc,rfl⟩ := Mediator.passedOn?_eq_some ho
  -- the registered worker is the sender, so the service is the sender's own
  have hid : v.identity = sender := h.consistent.identity_eq hv
  have hst := h.staffed _ v hv
  rw [hid, hk] at hst
  obtain rfl := Option.some.inj hst
  exact ⟨client,e.body,by simp [Parcel.given?, he, hc],rfl⟩

theorem Wired.take_client (h : w.Wired) (ha : w.Accounted) {k now : Nat} {identity : Frame}
    {sent : List Message} {frames : Message}
    (hc : w.connections[k]? = some ⟨identity,.client sent⟩)
    (hw : w.waiting? ⟨identity,.client sent⟩ = some frames) :
    let w' := (w.setConnection k (Connection.advance ⟨identity,.client sent⟩)).operate
      (.handle identity frames now)
    w'.Wired ∧ w'.Accounted := by
  intro w'
  have h' := h.advance hc
  have hn := h.toJoined.waiting?_client (List.mem_of_getElem? hc) hw
  have hp : Mediator.Operation.Placed
      (w.setConnection k (Connection.advance ⟨identity,.client sent⟩)).known
      (.handle identity frames now) := by
    rintro _ _ _ service ⟨⟩ hf
    exact absurd hf (hn _)
  have hfw : (w.setConnection k (Connection.advance ⟨identity,.client sent⟩)).FromWorker
      (.handle identity frames now) := by
    rintro _ _ _ c ⟨⟩ hf
    exact absurd hf (hn _)
  have hpass : w.broker.passedOn? (.handle identity frames now) = none := by
    cases ho : w.broker.passedOn? (.handle identity frames now) with
    | none => rfl
    | some o =>
      obtain ⟨_,_,_,e,_,_,⟨⟩,he,_⟩ := Mediator.passedOn?_eq_some ho
      exact absurd he (hn _)
  refine ⟨h'.operate hp,?_⟩
  refine ha.mono ((grows_setConnection hc (advance_identity _) (advance_link? _)).trans
    (grows_operate _ _)) (h'.history_operate hp hfw hpass) ?_
  intro p
  have hl := h'.load_operate hp p
  have hadv := load_advance hc hw p
  exact Nat.le_trans hl (Nat.le_of_eq hadv)

theorem Wired.take_worker (h : w.Wired) (ha : w.Accounted) {k now : Nat} {identity : Frame}
    {i n taken : Nat} {frames : Message}
    (hc : w.connections[k]? = some ⟨identity,.worker i n taken⟩)
    (hw : w.waiting? ⟨identity,.worker i n taken⟩ = some frames) :
    let w' := (w.setConnection k (Connection.advance ⟨identity,.worker i n taken⟩)).operate
      (.handle identity frames now)
    w'.Wired ∧ w'.Accounted := by
  intro w'
  have h' := h.advance hc
  obtain ⟨s,hs,o,rfl⟩ := h.toJoined.waiting?_worker hw
  have hm : ⟨identity,.worker i n (taken + 1)⟩ ∈
      (w.setConnection k (Connection.advance ⟨identity,.worker i n taken⟩)).connections :=
    List.mem_of_getElem? (List.getElem?_set_self (List.getElem?_eq_some_iff.mp hc).1)
  have hk : (w.setConnection k (Connection.advance ⟨identity,.worker i n taken⟩)).known identity =
      some s.settings.announced := h'.toJoined.known_of_worker hm hs
  have hp : Mediator.Operation.Placed
      (w.setConnection k (Connection.advance ⟨identity,.worker i n taken⟩)).known
      (.handle identity (o.frames s.settings.service) now) := by
    rintro _ _ _ service ⟨⟩ hf
    rw [hk, ready_of_frames hf]
    rfl
  have hfw : (w.setConnection k (Connection.advance ⟨identity,.worker i n taken⟩)).FromWorker
      (.handle identity (o.frames s.settings.service) now) := by
    rintro _ _ _ c ⟨⟩ _
    rw [isClient, h'.toJoined.connection?_identity hm]
  have hg := (grows_setConnection hc (advance_identity _) (advance_link? _)).trans
    (grows_operate (.handle identity (o.frames s.settings.service) now) _)
  have hl : ∀ p, w'.load p + (w.told ⟨identity,.worker i n taken⟩
      (o.frames s.settings.service)).count p ≤ w.load p := by
    intro p
    have hop : w'.load p ≤ _ := h'.load_operate hp p
    have hadv := load_advance hc hw p
    rw [brought, Parcel.asked?_frames] at hop
    simp only [Option.toList_none, List.count_nil, Nat.add_zero] at hop
    omega
  have hh : w'.history = w.history ++
      World.replies (.handle identity (o.frames s.settings.service) now) _ _ := rfl
  refine ⟨h'.operate hp,?_⟩
  rcases h'.replies_eq hp hfw with hr | ⟨out,ho,hr⟩
  · refine ha.mono hg (by rw [hh, hr, List.append_nil]) ?_
    intro p
    have := hl p
    omega
  · obtain ⟨client,body,hgiven,rfl⟩ := h'.given_of_passedOn hk ho
    have ht : w.told ⟨identity,.worker i n taken⟩ (o.frames s.settings.service) =
        [.reply client s.settings.announced body] := by
      simp [told, serviceOf?, Connection.link?, hs, hgiven]
    simp only [ht] at hl
    obtain ⟨claims,origin,hled⟩ := ha
    obtain ⟨claims',origin',h''⟩ := hled.reply hl
    exact ⟨claims',origin',hh.trans (congrArg (w.history ++ ·) hr) ▸
      h''.mono (fun _ => Nat.le_refl _) fun _ _ _ _ => hg.answered⟩

theorem Wired.take (h : w.Wired) (ha : w.Accounted) (k now : Nat) :
    (w.take k now).Wired ∧ (w.take k now).Accounted := by
  unfold World.take
  cases hc : w.connections[k]? with
  | none => exact ⟨h,ha⟩
  | some c =>
    dsimp only
    cases hw : w.waiting? c with
    | none => exact ⟨h,ha⟩
    | some frames =>
      obtain ⟨identity,party⟩ := c
      cases party with
      | client sent => exact h.take_client ha hc hw
      | worker i n taken => exact h.take_worker ha hc hw

/-! ## Runs -/

theorem grows_take (k now : Nat) (w : World) : Grows w (w.take k now) := by
  unfold World.take
  cases hc : w.connections[k]? with
  | none => exact .refl w
  | some c =>
    dsimp only
    cases w.waiting? c with
    | none => exact .refl w
    | some frames =>
      exact (grows_setConnection hc (advance_identity c) (advance_link? c)).trans
        (grows_operate _ _)

theorem grows_step (st : Step) (w : World) : Grows w (w.step st) := by
  cases st with
  | join => exact grows_connect _ w
  | employ settings monitor => exact grows_employ settings monitor w
  | ask k rest => exact grows_ask k _ w
  | act i a => exact grows_act i a w
  | take k now => exact grows_take k now w
  | sweep now | probe now | disconnectAll => exact grows_operate _ w

theorem grows_run (steps : List Step) (w : World) : Grows w (w.run steps) := by
  induction steps generalizing w with
  | nil => exact .refl w
  | cons st steps ih => exact (grows_step st w).trans (ih (w.step st))

theorem Grows.length_le (h : Grows w w') : w.connections.length ≤ w'.connections.length := by
  apply Nat.le_of_not_lt
  intro hlt
  obtain ⟨c,hc,_⟩ := h.connections _ _ (List.getElem?_eq_getElem hlt)
  exact absurd (List.getElem?_eq_some_iff.mp hc).1 (Nat.lt_irrefl _)

theorem Wired.step (h : w.Wired) (ha : w.Accounted) {st : Step}
    (hf : (w.step st).connections.length ≤ 2 ^ 64) :
    (w.step st).Wired ∧ (w.step st).Accounted := by
  cases st with
  | join =>
    simp only [World.step, connect, List.length_append, List.length_singleton] at hf
    exact ⟨h.join hf,ha.join⟩
  | employ settings monitor =>
    exact ⟨h.of_joined (h.toJoined.employ settings monitor) (grows_employ settings monitor w) rfl,
      ha.mono (grows_employ settings monitor w) rfl (h.toJoined.load_employ _)⟩
  | ask k rest => exact ⟨h.ask k rest,ha.ask k _⟩
  | act i a => exact ⟨h.act hf,ha.act h i a⟩
  | take k now => exact h.take ha k now
  | sweep now | probe now | disconnectAll =>
    -- the broker acts on its own account, so nobody has said anything
    refine ⟨h.operate ?_,h.accounted_operate ha ?_ ?_ rfl rfl⟩ <;>
      exact fun _ _ _ _ he => by cases he

theorem Wired.run (h : w.Wired) (ha : w.Accounted) (steps : List Step)
    (hf : (w.run steps).connections.length ≤ 2 ^ 64) :
    (w.run steps).Wired ∧ (w.run steps).Accounted := by
  induction steps generalizing w with
  | nil => exact ⟨h,ha⟩
  | cons st steps ih =>
    have hlen := (grows_run steps (w.step st)).length_le
    obtain ⟨h',ha'⟩ := h.step ha (Nat.le_trans hlen hf)
    exact ih h' ha' hf

/-- Every reply to a client stands for a request of its own before it: it carries the service
that this client asked for, and what one of its handlers answered to the body and the client. The
router has an identity for each of at most 2^64 connections. -/
theorem replies_answer_requests (interval lifetime now : Nat) (steps : List Step)
    (hf : ((start interval lifetime now).run steps).connections.length ≤ 2 ^ 64) :
    ∃ origin : Nat → Nat,
      (∀ j, RepliedAt ((start interval lifetime now).run steps).history j →
        Answers ((start interval lifetime now).run steps).Answered
          ((start interval lifetime now).run steps).history (origin j) j) ∧
      ∀ j k, RepliedAt ((start interval lifetime now).run steps).history j →
        RepliedAt ((start interval lifetime now).run steps).history k →
        origin j = origin k → j = k := by
  obtain ⟨_,claims,origin,h⟩ := (wired_start interval lifetime now).run
    (accounted_start interval lifetime now) steps hf
  exact ⟨origin,h.answers,h.injective⟩

def echo : Worker.Settings where
  service := "echo"
  address := "tcp://localhost:5555"
  interval := 2500
  liveness := 5
  delay := 1000
  handler _ _ body := { result := .ok body }

def echoSteps : List Step :=
  [.join,.employ echo {},.act 0 .move,.ask 0 [.ofText "echo",.ofText "hi"],.take 1 0,.take 0 0,
    .act 0 .move,.act 0 .move,.take 1 1]

theorem replies_answer_requests_echo :
    ((start 2500 12500 0).run echoSteps).connections.length ≤ 2 ^ 64 ∧
      RepliedAt ((start 2500 12500 0).run echoSteps).history 1 ∧
      Answers ((start 2500 12500 0).run echoSteps).Answered
        ((start 2500 12500 0).run echoSteps).history 0 1 := by
  have hf : ((start 2500 12500 0).run echoSteps).connections.length ≤ 2 ^ 64 := by decide
  have hr : RepliedAt ((start 2500 12500 0).run echoSteps).history 1 := by
    refine ⟨Peer.identity 0,Wire.clientMessage (.ofText "echo") [.ofText "hi"],?_⟩
    decide
  refine ⟨hf,hr,?_⟩
  obtain ⟨origin,ha,_⟩ := replies_answer_requests 2500 12500 0 echoSteps hf
  have h := ha 1 hr
  have he : origin 1 = 0 := by
    obtain ⟨_,_,_,_,hlt,_⟩ := h
    exact Nat.lt_one_iff.mp hlt
  rwa [he] at h

end Majordomo.Exchange.World
