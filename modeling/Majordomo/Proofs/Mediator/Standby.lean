import Majordomo.Proofs.Mediator.Duty

/-! # Requests go to the idle

A worker is sent a request only while it is idle, and being sent one ends that. It becomes idle by
what it says itself, or stays so; so whoever is not idle is left alone by all that others say.
-/
namespace Majordomo.Broker.Mediator
variable {m : Mediator} {peer : Frame}

def OutOfQueues (key : String) (m : Mediator) : Prop :=
  key ∉ m.idle ∧ ∀ name s, m.services.get? name = some s → key ∉ s.idle

namespace Consistent

/-- Who is not among all idle workers is in no queue. -/
theorem outOfQueues (h : m.Consistent) {key : String} (hk : key ∉ m.idle) : m.OutOfQueues key := by
  refine ⟨hk,fun name s hs hm => hk ?_⟩
  rw [← service_of_get? hs, h.queues] at hm
  exact (List.mem_filter.mp hm).1

/-- An operation that brings nothing from a busy worker does not wake it. -/
theorem wakeTotal_plan_eq_zero (h : m.Consistent) {op : Operation} (hf : op.from? peer = none) :
    m.wakeTotal peer (m.plan op) = 0 := by
  rw [h.wakeTotal_plan]
  simp [acceptsReady, Operation.isReply, rewakes, hf]

/-- The requests that an operation sends to a worker, and whether it is idle after it, against
whether it was idle before or is made so. -/
theorem requests_apply_le (h : m.Consistent) (peer : Frame) (op : Operation) :
    ((m.apply op).1.outbox.drop m.outbox.length).countP (·.isRequestTo peer) +
        (m.apply op).1.idleCount peer ≤ m.idleCount peer + m.wakeTotal peer (m.plan op) := by
  have hle := (h.accounted_plan peer op).le
  rwa [requestTotal_eq, follow_plan] at hle

/-- Along a run that brings nothing from the worker, being idle once pays for one request. -/
theorem requests_run_le (h : m.Consistent) {ops : List Operation}
    (hf : ∀ op ∈ ops, op.from? peer = none) :
    ((m.run ops).outbox.drop m.outbox.length).countP (·.isRequestTo peer) +
        (m.run ops).idleCount peer ≤ m.idleCount peer := by
  rw [outbox_run, List.drop_left]
  induction ops generalizing m with
  | nil => simp [Mediator.history]
  | cons op ops ih =>
    have hstep := h.requests_apply_le peer op
    have hrest := ih (h.apply op) fun o ho => hf o (List.mem_cons_of_mem op ho)
    rw [h.wakeTotal_plan_eq_zero (hf op (List.mem_cons_self ..)), ← follow_plan, outbox_follow,
      List.drop_left, follow_plan] at hstep
    rw [Mediator.history, List.flatMap_append, List.countP_append, run_cons]
    omega

end Consistent

theorem from?_eq_none {op : Operation} (h : ∀ frames time, op ≠ .handle peer frames time) :
    op.from? peer = none := by
  cases op with
  | handle sender frames now =>
    rw [Operation.from?, if_neg]
    rintro rfl
    exact h frames now rfl
  | sweep | probe | disconnectAll => rfl

theorem idleCount_eq_zero_iff : m.idleCount peer = 0 ↔ peer.hex ∉ m.idle := by
  simp [idleCount]

theorem countP_isRequestTo_pos {os : List Outbound} {o : Outbound} (ho : o ∈ os)
    (hr : (Wire.requestOf? o.frames).isSome = true) : 0 < os.countP (·.isRequestTo o.peer) :=
  List.countP_pos_iff.mpr ⟨o,ho,by simp [Outbound.isRequestTo, hr]⟩

/-- After every run, whoever the next operation sends a request was idle before, or is the sender
of the message that the operation brings; and afterwards it stands in no queue of idle workers.
Whoever is not idle stays out of the queues and is sent no request, whatever happens, as long as
nothing comes from its own identity. -/
theorem requests_go_to_idle_workers (interval lifetime now : Nat) (ops : List Operation) :
    let m := (start interval lifetime now).run ops
    (∀ op, ∀ o ∈ (m.apply op).1.outbox.drop m.outbox.length,
      (Wire.requestOf? o.frames).isSome = true →
      (o.peer.hex ∈ m.idle ∨ ∃ frames time, op = .handle o.peer frames time) ∧
        (m.apply op).1.OutOfQueues o.peer.hex) ∧
    ∀ peer, peer.hex ∉ m.idle → ∀ later : List Operation,
      (∀ op ∈ later, ∀ frames time, op ≠ .handle peer frames time) →
      (m.run later).OutOfQueues peer.hex ∧
        ∀ o ∈ (m.run later).outbox.drop m.outbox.length, o.peer = peer →
          Wire.requestOf? o.frames = none := by
  intro m
  have h : m.Consistent := (consistent_start interval lifetime now).run ops
  refine ⟨fun op o ho hr => ?_,fun peer hi later hl => ?_⟩
  · have hpos := countP_isRequestTo_pos ho hr
    have hle := h.requests_apply_le o.peer op
    have hone := h.idleCount_add_wakeTotal_le o.peer op
    refine ⟨?_,(h.apply op).outOfQueues (idleCount_eq_zero_iff.mp (by omega))⟩
    by_contra hn
    obtain ⟨hi,hother⟩ := not_or.mp hn
    have hzero := idleCount_eq_zero_iff.mpr hi
    have hf : op.from? o.peer = none := from?_eq_none fun frames time he =>
      hother ⟨frames,time,he⟩
    have hwake := h.wakeTotal_plan_eq_zero hf
    omega
  · have hf : ∀ op ∈ later, op.from? peer = none := fun op ho => from?_eq_none (hl op ho)
    have hle := h.requests_run_le hf
    have hzero := idleCount_eq_zero_iff.mpr hi
    refine ⟨(h.run later).outOfQueues (idleCount_eq_zero_iff.mp (by omega)),?_⟩
    rintro o ho rfl
    by_contra hr
    have hpos := countP_isRequestTo_pos ho (Option.isSome_iff_ne_none.mpr hr)
    omega

end Majordomo.Broker.Mediator
