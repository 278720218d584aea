import Majordomo.Proofs.Mediator.Outstanding

/-! # The account of a worker over a run

What a worker was sent and what came from it since it was last accepted, and how the
two go together.
-/
namespace Majordomo.Broker.Mediator
variable {m : Mediator}

def Operation.from? (peer : Frame) : Operation → Option Wire.Inbound
  | .handle sender frames _ =>
    if sender = peer then (Wire.Inbound.ofFrames frames).toOption else none
  | _ => none

def acceptsReady (peer : Frame) (m : Mediator) (op : Operation) : Bool :=
  match op.from? peer with
  | some (.worker (.ready service)) =>
    !m.workers.contains peer.hex && !Wire.isInternal service
  | _ => false

def Operation.isReply (peer : Frame) (op : Operation) : Bool :=
  match op.from? peer with
  | some (.worker (.reply _)) => true
  | _ => false

/-- The operation brings something else from the busy worker that makes it idle: a HEARTBEAT, or
a request of its own for its service while that awaits a reply and has no idle worker. -/
def rewakes (peer : Frame) (m : Mediator) (op : Operation) : Bool :=
  m.isBusy peer && match op.from? peer with
    | some (.worker .heartbeat) => true
    | some (.client service _) =>
      m.isBound service.toText peer.hex && (m.service service.toText).reply = .awaiting &&
        (m.service service.toText).idle.isEmpty
    | _ => false

theorem isBusy_congr {m' : Mediator} (peer : Frame) (hw : m'.workers = m.workers)
    (hi : m'.idle = m.idle) : m'.isBusy peer = m.isBusy peer := by
  simp only [isBusy, hw, hi]

theorem hex_eq_iff {f g : Frame} : f.hex = g.hex ↔ f = g :=
  ⟨Frame.hex_inj,congrArg _⟩

theorem wakeTotal_dispatchPlan (peer : Frame) (name : String) (now : Nat) (m t : Mediator) :
    t.wakeTotal peer (m.dispatchPlan name now) = 0 := by
  apply wakeTotal_eq_zero
  rintro a ha key time rfl
  rcases List.mem_append.mp ha with ha | ha
  · obtain ⟨k,_,hk⟩ := List.mem_map.mp ha
    cases hk
  · cases List.eq_of_mem_replicate ha

theorem wakeTotal_renewPlan (peer : Frame) (key : String) (now : Nat) (m : Mediator) :
    m.wakeTotal peer (m.renewPlan key now) = (decide (key = peer.hex) && m.isBusy peer).toNat := by
  unfold renewPlan
  cases hw : m.workers.get? key with
  | none =>
    by_cases hk : key = peer.hex
    · subst hk
      simp [wakeTotal, isBusy, Table.contains, hw]
    · simp [wakeTotal, hk]
  | some w =>
    rw [wakeTotal, wakeTotal_dispatchPlan]
    rfl

theorem any_awaiting (m : Mediator) (name : String) :
    (m.services.get? name).any (·.reply = .awaiting) =
      decide ((m.service name).reply = .awaiting) := by
  cases h : m.services.get? name <;> simp [service, h]

theorem head?_idle (m : Mediator) (name : String) :
    (m.services.get? name).bind (·.idle.head?) = (m.service name).idle.head? := by
  cases h : m.services.get? name <;> simp [service, h]

/-- Only a busy worker that repeats a request itself is woken by it. -/
theorem Consistent.wakeTotal_wakeForRetryPlan (h : m.Consistent) (peer : Frame) (name : String)
    (sender : Frame) (now : Nat) :
    m.wakeTotal peer (m.wakeForRetryPlan name sender now) =
      (decide (sender = peer) && (m.isBusy peer && (m.isBound name peer.hex &&
        decide ((m.service name).reply = .awaiting) && (m.service name).idle.isEmpty))).toNat := by
  unfold wakeForRetryPlan retryCandidate?
  rw [any_awaiting, head?_idle]
  by_cases ha : (m.service name).reply = .awaiting
  · rw [if_pos (decide_eq_true ha)]
    cases hi : (m.service name).idle with
    | cons key keys =>
      have hk : key ∈ m.idle := by
        have hm : key ∈ (m.service name).idle := hi ▸ List.mem_cons_self ..
        rw [h.queues] at hm
        exact (List.mem_filter.mp hm).1
      simp only [List.head?_cons, wakeTotal_renewPlan]
      by_cases he : key = peer.hex
      · subst he
        simp [isBusy, hk]
      · simp [he]
    | nil =>
      simp only [List.head?_nil]
      by_cases hs : sender = peer
      · subst hs
        cases hw : m.workers.get? sender.hex with
        | none => simp [wakeTotal, isBound, hw]
        | some w =>
          by_cases hn : w.service = name
          · simp [hn, wakeTotal_renewPlan, isBound, hw, ha]
          · simp [hn, wakeTotal, isBound, hw]
      · have hx : sender.hex ≠ peer.hex := fun e => hs (Frame.hex_inj e)
        cases hw : m.workers.get? sender.hex with
        | none => simp [wakeTotal, hs]
        | some w =>
          by_cases hn : w.service = name
          · simp [hn, wakeTotal_renewPlan, hs, hx]
          · simp [hn, wakeTotal, hs]
  · rw [if_neg (by simpa using ha)]
    simp [wakeTotal, ha]

theorem Consistent.wakeTotal_requestPlan (h : m.Consistent) (peer sender service : Frame)
    (body : Message) (now : Nat) :
    m.wakeTotal peer (m.requestPlan sender service body now) =
      (decide (sender = peer) && (m.isBusy peer && (m.isBound service.toText peer.hex &&
        decide ((m.service service.toText).reply = .awaiting) &&
        (m.service service.toText).idle.isEmpty))).toNat := by
  unfold requestPlan
  dsimp only
  split
  · rename_i hn
    have hb : m.isBound service.toText peer.hex = false := by
      apply Bool.eq_false_iff.mpr
      intro hb
      obtain ⟨w,hw,hs⟩ := isBound_iff.mp hb
      have he := h.external _ (h.served _ w hw)
      rw [hs, hn] at he
      cases he
    simp [wakeTotal, wakeCount, hb]
  · rename_i hn
    have hr := (h.require (by simpa using hn)).wakeTotal_wakeForRetryPlan peer service.toText
      sender now
    rw [isBusy_congr peer (workers_require m _) (idle_require m _), isBound_require,
      service_require] at hr
    rw [List.cons_append, wakeTotal, wakeTotal_append, wakeTotal, wakeTotal_dispatchPlan,
      act_require, hr]
    simp [wakeCount]

@[simp] theorem wakeTotal_enrolPlan (peer sender : Frame) (service : String) (now : Nat)
    (m : Mediator) : m.wakeTotal peer (m.enrolPlan sender service now) = 0 := rfl

/-- What makes a busy worker idle: its READY when it is accepted, its REPLY, and little else. -/
theorem Consistent.wakeTotal_commandPlan (h : m.Consistent) (peer sender : Frame)
    (c : Wire.WorkerCommand) (now : Nat) :
    m.wakeTotal peer (m.commandPlan sender c now) =
      (decide (sender = peer) && match c with
        | .ready service => !m.workers.contains peer.hex && !Wire.isInternal service
        | .reply _ | .heartbeat => m.isBusy peer
        | _ => false).toNat := by
  have hf : ∀ (service : String) (e : Envelope) (t : Mediator),
      t.wakeTotal peer (forwardPlan service e) = 0 := by
    intro service e t
    apply wakeTotal_eq_zero
    rintro a ha key time rfl
    obtain ⟨_,ha⟩ := mem_forwardPlan ha
    cases ha
  have hx : (decide (sender.hex = peer.hex)) = decide (sender = peer) :=
    decide_eq_decide.mpr hex_eq_iff
  cases c with
  | ready service =>
    simp only [commandPlan, readyPlan]
    split
    · rename_i hw
      by_cases hs : sender = peer
      · subst hs
        simp [wakeTotal, wakeCount, hw]
      · simp [wakeTotal, wakeCount, hs]
    · rename_i hw
      split
      · rename_i hi
        simp [wakeTotal, wakeCount, hi]
      · rename_i hi
        rw [wakeTotal_append, wakeTotal_renewPlan, hx]
        by_cases hs : sender = peer
        · subst hs
          have hn : sender.hex ∉ m.idle := fun hm => hw (h.registered _ hm)
          simp [isBusy, Table.contains_set, hi, hw, hn]
        · simp [hs]
  | reply e =>
    simp only [commandPlan]
    cases hw : m.workers.get? sender.hex with
    | none =>
      by_cases hs : sender = peer
      · subst hs
        simp [turnAwayPlan, wakeTotal, wakeCount, isBusy, Table.contains, hw]
      · simp [turnAwayPlan, wakeTotal, wakeCount, hs]
    | some w =>
      have hb : (m.follow (forwardPlan w.service e ++ [.settle w.service])).isBusy peer =
          m.isBusy peer := by
        apply isBusy_congr <;>
          simp only [follow_append, follow_forwardPlan, forward] <;> cases e.address? <;> rfl
      rw [Option.elim_some, replyPlan, wakeTotal_append, wakeTotal_renewPlan, hx, hb,
        wakeTotal_append, hf]
      simp [wakeTotal, wakeCount]
  | heartbeat =>
    simp only [commandPlan]
    split
    · rw [wakeTotal_renewPlan, hx]
    · rename_i hw
      by_cases hs : sender = peer
      · subst hs
        simp [turnAwayPlan, wakeTotal, wakeCount, isBusy, hw]
      · simp [turnAwayPlan, wakeTotal, wakeCount, hs]
  | disconnect => simp [commandPlan, wakeTotal, wakeCount]
  | shutdown e named =>
    simp only [commandPlan]
    cases ((m.workers.get? sender.hex).map (·.service)).or named with
    | none => simp [wakeTotal]
    | some service => simp [hf]
  | unknown frame => simp [commandPlan, wakeTotal]

/-- How often an operation makes the worker idle that was busy. -/
theorem Consistent.wakeTotal_plan (h : m.Consistent) (peer : Frame) (op : Operation) :
    m.wakeTotal peer (m.plan op) =
      (m.acceptsReady peer op).toNat + (m.isBusy peer && op.isReply peer).toNat +
        (m.rewakes peer op).toNat := by
  cases op with
  | handle sender frames now =>
    simp only [plan, acceptsReady, Operation.isReply, rewakes, Operation.from?]
    cases hi : Wire.Inbound.ofFrames frames with
    | error v => by_cases hs : sender = peer <;> simp [wakeTotal, hs, Except.toOption]
    | ok i =>
      cases i with
      | client service body =>
        rw [h.wakeTotal_requestPlan]
        by_cases hs : sender = peer <;> simp [hs, Except.toOption]
      | worker c =>
        rw [h.wakeTotal_commandPlan]
        by_cases hs : sender = peer <;> cases c <;> simp [hs, Except.toOption]
  | sweep now =>
    rw [wakeTotal_eq_zero]
    · simp [acceptsReady, Operation.isReply, rewakes, Operation.from?]
    · rintro a ha key time rfl
      obtain ⟨k,_,hk⟩ := List.mem_map.mp ha
      cases hk
  | probe now =>
    rw [wakeTotal_eq_zero]
    · simp [acceptsReady, Operation.isReply, rewakes, Operation.from?]
    · rintro a ha key time rfl
      simp only [plan, probePlan] at ha
      split at ha
      · cases ha
      · simp at ha
  | disconnectAll =>
    rw [wakeTotal_eq_zero]
    · simp [acceptsReady, Operation.isReply, rewakes, Operation.from?]
    · rintro a ha key time rfl
      simp [plan, disconnectAllPlan] at ha

theorem Consistent.accounted_plan (h : m.Consistent) (peer : Frame) (op : Operation) :
    Accounted peer m (m.plan op) := by
  have hl := plan_lawful h op
  rcases plan_registers m op with hn | ⟨sender,frames,now,service,_,_,_,_,hp⟩
  · exact h.accounted hl hn peer
  · rw [hp] at hl ⊢
    obtain ⟨hl,hr⟩ := lawfulPlan_append.mp hl
    have ha := (h.follow hl).accounted hr
      (fun a ha => registersNone_of_dispatching (renewPlan_dispatching _ _ _ a ha)) peer
    -- whoever is registered is sent nothing before it is woken
    have hq : m.requestTotal peer (m.enrolPlan sender service now) = 0 := by
      simp [requestTotal_eq, enrolPlan]
    have hi : (m.follow (m.enrolPlan sender service now)).idleCount peer = m.idleCount peer :=
      idleCount_congr peer (idle_require m service)
    refine ⟨?_,?_⟩ <;>
      rw [requestTotal_append, wakeTotal_append, follow_append, hq, wakeTotal_enrolPlan, ← hi,
        Nat.zero_add, Nat.zero_add]
    · exact ha.le
    · exact ha.eq

/-- Nobody is registered after an operation but who was before, or whose READY is accepted. -/
theorem contains_workers_of_apply {peer : Frame} {op : Operation}
    (h : (m.apply op).1.workers.contains peer.hex = true) :
    m.workers.contains peer.hex = true ∨ m.acceptsReady peer op = true := by
  rw [← follow_plan] at h
  rcases plan_registers m op with hn | ⟨sender,frames,now,service,ho,hi,hw,hn,hp⟩
  · exact .inl (contains_workers_of_follow hn h)
  · rw [hp, follow_append] at h
    have hc := contains_workers_of_follow
      (fun a ha => registersNone_of_dispatching (renewPlan_dispatching _ _ _ a ha)) h
    rw [workers_follow_enrolPlan, Table.contains_set] at hc
    rcases Bool.or_eq_true_iff.mp hc with hc | hc
    · obtain rfl := Frame.hex_inj (of_decide_eq_true hc)
      right
      simp [acceptsReady, Operation.from?, ho, hi, Except.toOption, hw, hn]
    · exact .inl hc

/-! ## The account over a run -/

/-- What went to a worker and came from it since it was last accepted. -/
structure Tally where
  /-- REQUESTs put in the outbox for it. -/
  requests : Nat := 0
  /-- REPLYs handled from it. -/
  replies : Nat := 0
  /-- Those of the replies that came while it was idle. -/
  unasked : Nat := 0
  /-- How often something else made it idle that was busy. -/
  rewoken : Nat := 0
deriving DecidableEq

/-- The account after an operation; an accepted READY begins a new one. -/
def Tally.add (peer : Frame) (m : Mediator) (op : Operation) (t : Tally) : Tally :=
  let t := if m.acceptsReady peer op then {} else t
  { requests := t.requests +
      ((m.apply op).1.outbox.drop m.outbox.length).countP (·.isRequestTo peer)
    replies := t.replies + (op.isReply peer).toNat
    unasked := t.unasked + (op.isReply peer && peer.hex ∈ m.idle).toNat
    rewoken := t.rewoken + (m.rewakes peer op).toNat }

def tally (peer : Frame) (m : Mediator) : List Operation → Tally → Tally
  | [], t => t
  | op :: ops, t => (m.apply op).1.tally peer ops (t.add peer m op)

/-- The account balances: it is exact while the worker is registered. -/
structure Balanced (peer : Frame) (m : Mediator) (t : Tally) : Prop where
  le : t.requests + t.unasked ≤ t.replies + t.rewoken + 1
  eq : m.workers.contains peer.hex = true →
    t.requests + t.unasked + m.idleCount peer = t.replies + t.rewoken + 1

theorem Consistent.not_mem_idle (h : m.Consistent) {key : String}
    (hw : m.workers.contains key = false) : key ∉ m.idle := by
  intro hk
  rw [h.registered key hk] at hw
  cases hw

/-- Taking out somebody who is not registered changes nothing. -/
theorem Consistent.remove_eq_self (h : m.Consistent) {key : String}
    (hw : m.workers.contains key = false) : m.remove key = m := by
  have hg : m.workers.get? key = none := by simpa [Table.contains] using hw
  have hi : m.idle.filter (· ≠ key) = m.idle := by
    refine List.filter_eq_self.mpr fun k hk => decide_eq_true ?_
    rintro rfl
    exact h.not_mem_idle hw hk
  rw [remove_of_get?_eq_none hg, hi]

theorem contains_of_acceptsReady {peer : Frame} {op : Operation}
    (h : m.acceptsReady peer op = true) :
    m.workers.contains peer.hex = false ∧ op.isReply peer = false := by
  simp only [acceptsReady] at h
  split at h
  · rename_i hf
    simp_all [Operation.isReply]
  · cases h

theorem Balanced.add {peer : Frame} {t : Tally} (h : m.Consistent) (b : Balanced peer m t)
    (op : Operation) : Balanced peer (m.apply op).1 (t.add peer m op) := by
  obtain ⟨hle,heq⟩ := h.accounted_plan peer op
  rw [h.wakeTotal_plan, requestTotal_eq, follow_plan] at hle heq
  cases hr : m.acceptsReady peer op with
  | true =>
    obtain ⟨hw,hn⟩ := contains_of_acceptsReady hr
    have hi : m.idleCount peer = 0 := by simp [idleCount, h.not_mem_idle hw]
    have hb : m.isBusy peer = false := by simp [isBusy, hw]
    have hx : m.rewakes peer op = false := by simp [rewakes, hb]
    simp only [hr, hi, hb, hx, Bool.toNat_true, Bool.toNat_false, Bool.false_and] at hle heq
    refine ⟨?_,fun hc => ?_⟩ <;>
      simp only [Tally.add, hr, hn, hx, if_true, Bool.toNat_false, Bool.false_and]
    · omega
    · have := heq hc
      omega
  | false =>
    cases hw : m.workers.contains peer.hex with
    | true =>
      have hb := b.eq hw
      have hs : (m.isBusy peer && op.isReply peer).toNat +
          (op.isReply peer && decide (peer.hex ∈ m.idle)).toNat = (op.isReply peer).toNat := by
        cases op.isReply peer <;> by_cases hk : peer.hex ∈ m.idle <;> simp [isBusy, hw, hk]
      simp only [hr, Bool.toNat_false] at hle heq
      refine ⟨?_,fun hc => ?_⟩ <;> simp only [Tally.add, hr, Bool.false_eq_true, if_false]
      · omega
      · have := heq hc
        omega
    | false =>
      have hn := h.not_mem_idle hw
      have hi : m.idleCount peer = 0 := by simp [idleCount, hn]
      have hb : m.isBusy peer = false := by simp [isBusy, hw]
      have hx : m.rewakes peer op = false := by simp [rewakes, hb]
      have hl := b.le
      simp only [hr, hi, hb, hx, Bool.toNat_false, Bool.false_and] at hle heq
      refine ⟨?_,fun hc => ?_⟩
      · simp only [Tally.add, hr, hn, hx, Bool.false_eq_true, if_false, decide_false,
          Bool.and_false, Bool.toNat_false]
        omega
      · rcases contains_workers_of_apply hc with hc | hc
        · rw [hw] at hc
          cases hc
        · rw [hr] at hc
          cases hc

theorem Balanced.run {peer : Frame} {t : Tally} (h : m.Consistent) (b : Balanced peer m t)
    (ops : List Operation) : Balanced peer (m.run ops) (m.tally peer ops t) := by
  induction ops generalizing m t with
  | nil => exact b
  | cons op ops ih => exact ih (h.apply op) (b.add h op)

/-- After every run, the requests that went to a worker since it was last accepted exceed its
replies by one at most, and by one more each time something else than a reply made it idle
while it was busy. As long as it is registered the account is exact. -/
theorem outstanding_requests (interval lifetime now : Nat) (ops : List Operation)
    (peer : Frame) :
    let m := (start interval lifetime now).run ops
    let t := (start interval lifetime now).tally peer ops {}
    t.requests ≤ t.replies + t.rewoken + 1 ∧
    (m.workers.contains peer.hex = true →
      t.requests + t.unasked = t.replies + t.rewoken + (m.isBusy peer).toNat) := by
  intro m t
  have hs : Balanced peer (start interval lifetime now) {} :=
    ⟨Nat.zero_le 1,fun hw => nomatch hw⟩
  have b : Balanced peer m t := hs.run (consistent_start interval lifetime now) ops
  refine ⟨by have := b.le; omega,?_⟩
  intro hw
  have he := b.eq hw
  by_cases hk : peer.hex ∈ m.idle <;> simp [idleCount, isBusy, hw, hk] at he ⊢ <;> omega

/-- A busy worker is sent a second request once it gives a sign of life. -/
theorem outstanding_requests_heartbeat :
    let peer := Frame.ofText "w1"
    let t := (start 2500 12500 0).tally peer
      [.handle peer (Wire.ready "echo") 0,
        .handle (.ofText "c1") (Wire.clientMessage (.ofText "echo") [.ofText "one"]) 1,
        .handle (.ofText "c2") (Wire.clientMessage (.ofText "echo") [.ofText "two"]) 2,
        .handle peer Wire.heartbeat 3] {}
    ¬ t.requests ≤ t.replies + 1 := by
  decide

end Majordomo.Broker.Mediator
