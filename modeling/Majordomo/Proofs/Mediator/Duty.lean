import Majordomo.Proofs.Mediator.Sweep
import Majordomo.Proofs.Mediator.Moments
import Majordomo.Proofs.Mediator.Tally

/-! # Workers that owe an answer

A worker that was sent a request is busy until it answers, or says something else that makes it
idle. Dispatches and sweeps remove idle workers only, so it stays registered as it is and its
reply finds it.
-/
namespace Majordomo.Broker.Mediator
variable {m : Mediator} {peer : Frame}

/-- The operation dismisses the worker: it takes its leave, says READY a second time, or everybody
is told to disconnect. -/
def dismisses (peer : Frame) (m : Mediator) (op : Operation) : Bool :=
  op = .disconnectAll || match op.from? peer with
    | some (.worker (.ready _)) => m.workers.contains peer.hex
    | some (.worker .disconnect) => true
    | _ => false

/-- Whoever is registered and not dismissed is removed by dispatches and sweeps at most. -/
theorem notMem_removals {op : Operation} (hd : m.dismisses peer op = false)
    (hw : m.workers.contains peer.hex = true ∨ m.acceptsReady peer op = true) :
    peer.hex ∉ m.removals op := by
  cases op with
  | handle sender frames now =>
    by_cases hs : sender = peer
    · subst hs
      cases hf : Wire.Inbound.ofFrames frames with
      | error v => simp [removals, hf]
      | ok i =>
        cases i with
        | client service body => simp [removals, hf]
        | worker c =>
          cases c <;>
            simp_all [dismisses, removals, acceptsReady, Operation.from?, Except.toOption]
    · have hx : peer.hex ≠ sender.hex := fun e => hs (Frame.hex_inj e).symm
      simp only [removals]
      split
      · split <;> simp [hx]
      · split <;> simp [hx]
      · split <;> simp [hx]
      · simp [hx]
      · simp
  | sweep | probe => simp [removals]
  | disconnectAll => simp [dismisses] at hd

/-! ## Removals in a dispatch -/

/-- A dispatch removes idle workers only. -/
theorem Consistent.throughout_dispatchPlan_idle (h : m.Consistent) (key name : String)
    (now : Nat) :
    Throughout (fun t a => a = .remove key → key ∈ t.idle) m (m.dispatchPlan name now) := by
  refine throughout_append.mpr ⟨?_,throughout_of_forall ?_⟩
  · intro x hx hk
    obtain ⟨before,after,hp,ht⟩ := mem_moments hx
    obtain ⟨keys,rest,hs,rfl,hr⟩ := List.map_eq_append_iff.mp hp
    obtain ⟨k,later,rfl,hk',_⟩ := List.map_eq_cons_iff.mp hr
    obtain rfl : k = key := Action.remove.inj (hk'.trans hk)
    have hn : (keys ++ k :: later).Nodup := hs ▸ h.idle_nodup.filter _
    have hm : k ∈ m.idle.filter (m.isExpired now) := by
      rw [hs]
      exact List.mem_append_right _ (List.mem_cons_self ..)
    rw [ht, idle_follow_remove]
    have hnot : k ∉ keys := fun hk => (List.nodup_append.mp hn).2.2 k hk k (by simp) rfl
    exact List.mem_filter.mpr ⟨(List.mem_filter.mp hm).1,decide_eq_true hnot⟩
  · intro a ha t hk
    rw [List.eq_of_mem_replicate ha] at hk
    cases hk

theorem Consistent.throughout_plan_idle (h : m.Consistent) {op : Operation} {key : String}
    (hn : key ∉ m.removals op) :
    Throughout (fun t a => a = .remove key → key ∈ t.idle) m (m.plan op) := by
  refine h.throughout_plan (fun t a ha hk => ?_) (fun _ _ _ hk => nomatch hk)
    (fun t name now ht _ => ht.throughout_dispatchPlan_idle key name now) (fun t k hm hk => ?_)
  · rw [hk] at ha
    cases ha
  · obtain rfl := Action.remove.inj hk
    exact absurd hm hn

/-! ## Staying busy -/

theorem isBusy_iff :
    m.isBusy peer = true ↔ m.workers.contains peer.hex = true ∧ m.idleCount peer = 0 := by
  simp [isBusy, idleCount]

/-- The entry of a busy worker stands until the worker is woken or removed. -/
theorem get?_workers_act_of_isBusy {a : Action} (ha : a.Lawful m)
    (hb : m.isBusy peer = true) (hr : a ≠ .remove peer.hex) (hw : m.wakeCount peer a = 0) :
    (m.act a).workers.get? peer.hex = m.workers.get? peer.hex := by
  cases a with
  | emit | queue | settle | schedule => rfl
  | require n => rw [act_require, workers_require]
  | enrol identity service expiry =>
    have hne : identity.hex ≠ peer.hex := by
      intro e
      have hn : m.workers.contains identity.hex = false := ha.1
      rw [e, (isBusy_iff.mp hb).1] at hn
      cases hn
    simp [hne]
  | wake key now =>
    have hne : key ≠ peer.hex := by
      rintro rfl
      simp [wakeCount, hb] at hw
    cases hv : m.workers.get? key with
    | none => rw [act_wake, awaken_of_get?_eq_none now hv]
    | some v =>
      rw [act_wake, awaken_of_get? now hv, workers_updateService, Table.get?_set, if_neg hne]
  | remove key =>
    have hne : key ≠ peer.hex := fun e => hr (e ▸ rfl)
    rw [act_remove, get?_workers_remove, if_neg hne]
  | pair n => rw [act_pair, workers_pairOldest]

namespace Consistent

theorem isBusy_act (h : m.Consistent) {a : Action} (ha : a.Lawful m) (hb : m.isBusy peer = true)
    (hr : a ≠ .remove peer.hex) (hw : m.wakeCount peer a = 0) :
    (m.act a).isBusy peer = true := by
  obtain ⟨hc,hi⟩ := isBusy_iff.mp hb
  have he := h.requests_act ha peer
  rw [if_neg hr] at he
  refine isBusy_iff.mpr ⟨?_,by omega⟩
  rwa [Table.contains, get?_workers_act_of_isBusy ha hb hr hw]

/-- Whoever is sent a request is busy from then on. -/
theorem isBusy_act_of_request (h : m.Consistent) {a : Action} (ha : a.Lawful m)
    (hr : 0 < (m.emitted a).countP (·.isRequestTo peer)) (hle : m.idleCount peer ≤ 1) :
    (m.act a).isBusy peer = true := by
  obtain ⟨o,ho,hp⟩ := List.countP_pos_iff.mp hr
  simp only [Outbound.isRequestTo, Bool.and_eq_true, decide_eq_true_eq] at hp
  obtain ⟨rfl,hs⟩ := hp
  obtain ⟨e,he⟩ := Option.isSome_iff_exists.mp hs
  obtain ⟨name,w,rfl,hw,_⟩ := h.emitted_request ha ho he
  have hq := h.requests_act ha o.peer
  rw [if_neg (by simp), show m.wakeCount o.peer (.pair name) = 0 from rfl] at hq
  refine isBusy_iff.mpr ⟨?_,by omega⟩
  rw [act_pair, workers_pairOldest]
  exact (Table.contains_iff _ _).mpr ⟨w,hw⟩

variable {plan : List Action}

/-- A plan that never wakes a busy worker and removes it from the idle ones only leaves it busy
and its entry as it is. -/
theorem isBusy_follow (h : m.Consistent) (hl : m.LawfulPlan plan)
    (hs : Throughout (fun t a => a = .remove peer.hex → peer.hex ∈ t.idle) m plan)
    (hb : m.isBusy peer = true) (hw : m.wakeTotal peer plan = 0) :
    (m.follow plan).isBusy peer = true ∧
      (m.follow plan).workers.get? peer.hex = m.workers.get? peer.hex := by
  induction plan generalizing m with
  | nil => exact ⟨hb,rfl⟩
  | cons a plan ih =>
    obtain ⟨hr,hs⟩ := throughout_cons.mp hs
    obtain ⟨ha,hw⟩ : m.wakeCount peer a = 0 ∧ (m.act a).wakeTotal peer plan = 0 :=
      Nat.add_eq_zero_iff.mp hw
    have hr : a ≠ .remove peer.hex := fun e => by simp [isBusy, hr e] at hb
    obtain ⟨hb',hg⟩ := ih (h.act hl.1) hl.2 hs (h.isBusy_act hl.1 hb hr ha) hw
    exact ⟨hb',hg.trans (get?_workers_act_of_isBusy hl.1 hb hr ha)⟩

/-- A plan that makes a worker idle once at most leaves it busy if it sends it a request. -/
theorem isBusy_follow_of_request (h : m.Consistent) (hl : m.LawfulPlan plan)
    (hs : Throughout (fun t a => a = .remove peer.hex → peer.hex ∈ t.idle) m plan)
    (hle : m.idleCount peer + m.wakeTotal peer plan ≤ 1) (hr : 0 < m.requestTotal peer plan) :
    (m.follow plan).isBusy peer = true := by
  induction plan generalizing m with
  | nil => cases hr
  | cons a plan ih =>
    have he := h.requests_act hl.1 peer
    rw [wakeTotal] at hle
    rw [requestTotal] at hr
    -- the first action that sends it a request uses up the one time it is idle
    rcases Nat.eq_zero_or_pos ((m.emitted a).countP (·.isRequestTo peer)) with hz | hp
    · exact ih (h.act hl.1) hl.2 (throughout_cons.mp hs).2 (by omega) (by omega)
    · have hb := h.isBusy_act_of_request hl.1 hp (by omega)
      exact ((h.act hl.1).isBusy_follow hl.2 (throughout_cons.mp hs).2 hb (by omega)).1

/-! ## Operations -/

/-- An operation makes a worker idle once at most. -/
theorem idleCount_add_wakeTotal_le (h : m.Consistent) (peer : Frame) (op : Operation) :
    m.idleCount peer + m.wakeTotal peer (m.plan op) ≤ 1 := by
  rw [h.wakeTotal_plan]
  cases hr : m.acceptsReady peer op with
  | true =>
    have hw := (contains_of_acceptsReady hr).1
    have hi : m.idleCount peer = 0 := by simp [idleCount, h.not_mem_idle hw]
    have hb : m.isBusy peer = false := by simp [isBusy, hw]
    simp [hi, hb, rewakes]
  | false =>
    cases hb : m.isBusy peer with
    | true =>
      have hi := (isBusy_iff.mp hb).2
      have hx : op.isReply peer = true → m.rewakes peer op = false := by
        intro hx
        unfold Operation.isReply at hx
        split at hx
        · rename_i hf
          simp [rewakes, hf]
        · cases hx
      cases hx' : op.isReply peer with
      | true => simp [hi, hx hx']
      | false => cases m.rewakes peer op <;> simp [hi]
    | false =>
      have hi : m.idleCount peer ≤ 1 := Bool.toNat_le _
      simpa [rewakes, hb] using hi

/-- Nothing that others do touches a busy worker. -/
theorem isBusy_apply (h : m.Consistent) {op : Operation} (hb : m.isBusy peer = true)
    (hd : m.dismisses peer op = false) (hr : op.isReply peer = false)
    (hx : m.rewakes peer op = false) :
    (m.apply op).1.isBusy peer = true ∧
      (m.apply op).1.workers.get? peer.hex = m.workers.get? peer.hex := by
  have hc := (isBusy_iff.mp hb).1
  have ha : m.acceptsReady peer op = false := by
    by_contra ha
    have hn := (contains_of_acceptsReady (Bool.not_eq_false _ ▸ ha)).1
    rw [hc] at hn
    cases hn
  rw [← follow_plan]
  refine h.isBusy_follow (plan_lawful h op)
    (h.throughout_plan_idle (notMem_removals hd (.inl hc))) hb ?_
  simp [h.wakeTotal_plan, ha, hr, hx]

theorem isBusy_apply_of_request (h : m.Consistent) {op : Operation}
    (hd : m.dismisses peer op = false)
    (hr : ((m.apply op).1.outbox.drop m.outbox.length).any (·.isRequestTo peer) = true) :
    (m.apply op).1.isBusy peer = true := by
  have hp : 0 < m.requestTotal peer (m.plan op) := by
    rw [requestTotal_eq, follow_plan]
    exact List.countP_pos_iff.mpr (List.any_eq_true.mp hr)
  have hw : m.workers.contains peer.hex = true ∨ m.acceptsReady peer op = true := by
    by_contra hn
    obtain ⟨hc,ha⟩ := not_or.mp hn
    have hi : m.idleCount peer = 0 := by
      simp [idleCount, h.not_mem_idle (Bool.eq_false_iff.mpr hc)]
    have hle := (h.accounted_plan peer op).le
    rw [h.wakeTotal_plan] at hle
    simp [hi, isBusy, rewakes, hc, ha] at hle
    omega
  rw [← follow_plan]
  exact h.isBusy_follow_of_request (plan_lawful h op)
    (h.throughout_plan_idle (notMem_removals hd hw)) (h.idleCount_add_wakeTotal_le peer op) hp

end Consistent

/-! ## Owing -/

/-- The worker owes an answer after the operation: it was sent a request, or it owed one before
and neither answered nor was made idle by something else it said; and it was not dismissed. -/
def owesAfter (peer : Frame) (m : Mediator) (op : Operation) (owed : Bool) : Bool :=
  !m.dismisses peer op &&
    (((m.apply op).1.outbox.drop m.outbox.length).any (·.isRequestTo peer) ||
      owed && !op.isReply peer && !m.rewakes peer op)

def owes (peer : Frame) (m : Mediator) : List Operation → Bool → Bool
  | [], owed => owed
  | op :: ops, owed => (m.apply op).1.owes peer ops (m.owesAfter peer op owed)

theorem Consistent.isBusy_of_owesAfter (h : m.Consistent) {op : Operation} {owed : Bool}
    (hb : owed = true → m.isBusy peer = true) (ho : m.owesAfter peer op owed = true) :
    (m.apply op).1.isBusy peer = true := by
  simp only [owesAfter, Bool.and_eq_true, Bool.or_eq_true, Bool.not_eq_true'] at ho
  obtain ⟨hd,hr | ⟨⟨howed,hr⟩,hx⟩⟩ := ho
  · exact h.isBusy_apply_of_request hd hr
  · exact (h.isBusy_apply (hb howed) hd hr hx).1

theorem Consistent.isBusy_of_owes (h : m.Consistent) {owed : Bool}
    (hb : owed = true → m.isBusy peer = true) (ops : List Operation)
    (ho : m.owes peer ops owed = true) : (m.run ops).isBusy peer = true := by
  induction ops generalizing m owed with
  | nil => exact hb ho
  | cons op ops ih => exact ih (h.apply op) (h.isBusy_of_owesAfter hb) ho

/-- A worker that owes an answer is registered. Short of its answer, of something else it says
that makes it idle, and of its dismissal, no operation changes its entry: no sweep at any time
and no dispatch. And when its REPLY comes, it is taken and passed on. -/
theorem owing_workers_stay (interval lifetime now : Nat) (ops : List Operation) (peer : Frame) :
    let m := (start interval lifetime now).run ops
    (start interval lifetime now).owes peer ops false = true →
    ∃ w, m.workers.get? peer.hex = some w ∧
      (∀ op, m.dismisses peer op = false → op.isReply peer = false →
        m.rewakes peer op = false → (m.apply op).1.workers.get? peer.hex = some w) ∧
      (∀ time, (m.sweep time).workers.get? peer.hex = some w) ∧
      ∀ frames time e, Wire.Inbound.ofFrames frames = .ok (.worker (.reply e)) →
        (m.handle peer frames time).2 = none ∧
        ∀ client, e.address? = some client →
          ⟨client,Wire.clientMessage (.ofText w.service) e.body⟩ ∈
            (m.handle peer frames time).1.outbox.drop m.outbox.length := by
  intro m ho
  have h : m.Consistent := (consistent_start interval lifetime now).run ops
  have hf : false = true → (start interval lifetime now).isBusy peer = true := nofun
  have hb : m.isBusy peer = true :=
    (consistent_start interval lifetime now).isBusy_of_owes hf ops ho
  obtain ⟨w,hw⟩ := (Table.contains_iff _ _).mp (isBusy_iff.mp hb).1
  have hstay {op : Operation} (hd : m.dismisses peer op = false) (hr : op.isReply peer = false)
      (hx : m.rewakes peer op = false) : (m.apply op).1.workers.get? peer.hex = some w :=
    (h.isBusy_apply hb hd hr hx).2.trans hw
  refine ⟨w,hw,fun op => hstay,fun time => ?_,fun frames time e hf => ⟨?_,fun client hc => ?_⟩⟩
  · have hsweep : (m.apply (.sweep time)).1.workers.get? peer.hex = some w :=
      hstay rfl rfl (by simp [rewakes, Operation.from?])
    exact hsweep
  · simp [handle, hf, command, hw]
  · have hp : m.plan (.handle peer frames time) = m.replyPlan peer w e time := by
      simp [plan, hf, commandPlan, hw]
    change _ ∈ (m.apply (.handle peer frames time)).1.outbox.drop m.outbox.length
    rw [← follow_plan, hp, outbox_follow, List.drop_left]
    refine List.mem_flatMap.mpr
      ⟨(m,.emit client (Wire.clientMessage (.ofText w.service) e.body)),?_,?_⟩
    · simp [replyPlan, forwardPlan, hc]
    · simp [emitted_emit]

/-- A worker that was given the first request of its service stays however late it answers. -/
theorem owing_workers_stay_first :
    let peer := Frame.ofText "w1"
    let ops := [.handle peer (Wire.ready "echo") 0,
      .handle (.ofText "c1") (Wire.clientMessage (.ofText "echo") [.ofText "one"]) 1]
    let m := (start 2500 12500 0).run ops
    (start 2500 12500 0).owes peer ops false = true ∧
    ∃ w, m.workers.get? peer.hex = some w ∧
      (∀ op, m.dismisses peer op = false → op.isReply peer = false →
        m.rewakes peer op = false → (m.apply op).1.workers.get? peer.hex = some w) ∧
      (∀ time, (m.sweep time).workers.get? peer.hex = some w) ∧
      ∀ frames time e, Wire.Inbound.ofFrames frames = .ok (.worker (.reply e)) →
        (m.handle peer frames time).2 = none ∧
        ∀ client, e.address? = some client →
          ⟨client,Wire.clientMessage (.ofText w.service) e.body⟩ ∈
            (m.handle peer frames time).1.outbox.drop m.outbox.length :=
  ⟨by decide,owing_workers_stay 2500 12500 0 _ _ (by decide)⟩

/-- A HEARTBEAT that crosses the next request makes the worker idle, and a sweep removes it before
its second REPLY comes. -/
theorem crossing_heartbeat_loses_reply :
    let peer := Frame.ofText "w1"
    let ask (client : String) (now : Nat) :=
      Operation.handle (.ofText client) (Wire.clientMessage (.ofText "echo") [.ofText client]) now
    let reply (client : String) := Wire.reply ⟨[.ofText client],[.ofText "done"]⟩
    let ops := [.handle peer (Wire.ready "echo") 0, ask "c1" 1, ask "c2" 2,
      .handle peer (reply "c1") 3, .handle peer Wire.heartbeat 4]
    let m := (start 2500 12500 0).run ops
    let swept := m.sweep 12504
    (ops.filterMap (·.time?)).Pairwise (· ≤ ·) ∧
    (m.outbox.filter (·.isRequestTo peer)).map (·.frames) =
      [Wire.request ⟨[.ofText "c1"],[.ofText "c1"]⟩, Wire.request ⟨[.ofText "c2"],[.ofText "c2"]⟩] ∧
    ops.countP (·.isReply peer) = 1 ∧
    m.workers.contains peer.hex = true ∧ swept.workers.contains peer.hex = false ∧
    (swept.handle peer (reply "c2") 12505).2 =
      some (.violation (.unregistered "REPLY" peer.hex)) := by
  decide

end Majordomo.Broker.Mediator
