import Majordomo.Proofs.Mediator.Sweep
import Majordomo.Proofs.Mediator.Moments
import Majordomo.Proofs.Mediator.Tally
import Mathlib.Data.List.Induction

/-! # How long a worker counts as alive

Every registered worker got its expiry from an operation that renewed it: a message of its own,
or a client's request that took it for ready again. A dispatch sweeps before it pairs, so a
request goes only to a worker whose last renewal is less than a life ago.
-/
namespace Majordomo.Broker.Mediator
variable {m : Mediator}

def hears (peer : Frame) (m : Mediator) (op : Operation) : Bool :=
  match op.from? peer with
  | some (.worker (.ready service)) =>
    !m.workers.contains peer.hex && !Wire.isInternal service
  | some (.worker (.reply _)) | some (.worker .heartbeat) => m.workers.contains peer.hex
  | _ => false

/-- The operation brings a client's request that takes the worker for ready again. It comes while
a reply of the worker's service is awaited, and the worker is the longest idle one of the service,
or it sends the request itself while the service has no idle worker. -/
def retries (peer : Frame) (m : Mediator) : Operation → Bool
  | .handle sender frames _ =>
    match Wire.Inbound.ofFrames frames with
    | .ok (.client service _) =>
      let s := m.service service.toText
      m.isBound service.toText peer.hex && s.reply = .awaiting &&
        (s.idle.head? = some peer.hex || s.idle.isEmpty && sender = peer)
    | _ => false
  | _ => false

/-! ## Whom a repeated request wakes -/

section
variable {name : String} {sender : Frame} (now : Nat)

theorem wakeForRetryPlan_of_not_awaiting (h : (m.service name).reply ≠ .awaiting) :
    m.wakeForRetryPlan name sender now = [] := by
  rw [wakeForRetryPlan, any_awaiting, if_neg (by simpa using h)]

theorem wakeForRetryPlan_of_idle {key : String} {keys : List String}
    (h : (m.service name).reply = .awaiting) (hi : (m.service name).idle = key :: keys) :
    m.wakeForRetryPlan name sender now = m.renewPlan key now := by
  rw [wakeForRetryPlan, any_awaiting, if_pos (by simpa using h), retryCandidate?, head?_idle, hi]
  rfl

theorem wakeForRetryPlan_of_bound (h : (m.service name).reply = .awaiting)
    (hi : (m.service name).idle = []) (hb : m.isBound name sender.hex = true) :
    m.wakeForRetryPlan name sender now = m.renewPlan sender.hex now := by
  obtain ⟨w,hw,hs⟩ := isBound_iff.mp hb
  rw [wakeForRetryPlan, any_awaiting, if_pos (by simpa using h), retryCandidate?, head?_idle, hi]
  simp [hw, hs]

theorem wakeForRetryPlan_of_not_bound (hi : (m.service name).idle = [])
    (hb : m.isBound name sender.hex = false) : m.wakeForRetryPlan name sender now = [] := by
  rw [wakeForRetryPlan, any_awaiting, retryCandidate?, head?_idle, hi]
  cases hw : m.workers.get? sender.hex with
  | none => simp
  | some w =>
    have hn : w.service ≠ name := by simpa [isBound, hw] using hb
    simp [hn]

theorem mem_renewPlan_wake {key k : String} {now t : Nat} (h : .wake k t ∈ m.renewPlan key now) :
    k = key ∧ t = now ∧ m.workers.contains key = true := by
  unfold renewPlan at h
  split at h
  · cases h
  · rename_i w hw
    rcases List.mem_cons.mp h with h | h
    · cases h
      exact ⟨rfl,rfl,(Table.contains_iff _ _).mpr ⟨w,hw⟩⟩
    · rcases List.mem_append.mp h with h | h
      · obtain ⟨_,_,h⟩ := List.mem_map.mp h
        cases h
      · cases List.eq_of_mem_replicate h

/-- Whom a repeated request wakes it takes for ready again. -/
theorem retries_of_mem_wakeForRetryPlan (h : m.Consistent) {key : String} {now t : Nat}
    (ha : .wake key t ∈ m.wakeForRetryPlan name sender now) {peer : Frame} (hp : key = peer.hex) :
    t = now ∧ m.isBound name peer.hex = true ∧ (m.service name).reply = .awaiting ∧
      ((m.service name).idle.head? = some peer.hex ∨
        (m.service name).idle = [] ∧ sender = peer) := by
  subst hp
  by_cases hr : (m.service name).reply = .awaiting
  · cases hi : (m.service name).idle with
    | cons k keys =>
      rw [wakeForRetryPlan_of_idle now hr hi] at ha
      obtain ⟨rfl,ht,_⟩ := mem_renewPlan_wake ha
      have hk : peer.hex ∈ m.idle.filter (m.isBound name) := by
        rw [← h.queues, hi]
        exact List.mem_cons_self ..
      exact ⟨ht,(List.mem_filter.mp hk).2,hr,.inl rfl⟩
    | nil =>
      cases hb : m.isBound name sender.hex with
      | true =>
        rw [wakeForRetryPlan_of_bound now hr hi hb] at ha
        obtain ⟨hk,ht,_⟩ := mem_renewPlan_wake ha
        obtain rfl := Frame.hex_inj hk
        exact ⟨ht,hb,hr,.inr ⟨rfl,rfl⟩⟩
      | false =>
        rw [wakeForRetryPlan_of_not_bound now hi hb] at ha
        cases ha
  · rw [wakeForRetryPlan_of_not_awaiting now hr] at ha
    cases ha

end

/-! ## What a plan does to the entries -/

@[simp] theorem lifetime_act (m : Mediator) (a : Action) : (m.act a).lifetime = m.lifetime := by
  cases a with
  | require n =>
    rw [act_require, require]
    split <;> rfl
  | wake key now =>
    rw [act_wake, awaken]
    split <;> rfl
  | remove key =>
    rw [act_remove, remove]
    split <;> rfl
  | pair n =>
    rw [act_pair, pairOldest]
    split
    · dsimp only
      split <;> rfl
    · rfl
  | emit | queue | enrol | settle | schedule => rfl

@[simp] theorem lifetime_follow (m : Mediator) (plan : List Action) :
    (m.follow plan).lifetime = m.lifetime := by
  induction plan generalizing m with
  | nil => rfl
  | cons a plan ih => rw [follow_cons, ih, lifetime_act]

@[simp] theorem lifetime_run (m : Mediator) (ops : List Operation) :
    (m.run ops).lifetime = m.lifetime := by
  induction ops generalizing m with
  | nil => rfl
  | cons op ops ih => rw [run_cons, ih, ← follow_plan, lifetime_follow]

/-- What holds of the entries that a plan finds and of those that it puts in holds of all. -/
theorem Consistent.entry_of_follow {P : Worker → Prop} (h : m.Consistent) {plan : List Action}
    (hl : m.LawfulPlan plan) (hstart : ∀ key w, m.workers.get? key = some w → P w)
    (henrol : ∀ identity service expiry, .enrol identity service expiry ∈ plan →
      P { identity, service, expiry })
    (hwake : ∀ (w : Worker) now, .wake w.identity.hex now ∈ plan →
      P { w with expiry := now + m.lifetime }) {key : String} {w : Worker}
    (hw : (m.follow plan).workers.get? key = some w) : P w := by
  induction plan generalizing m with
  | nil => exact hstart key w hw
  | cons a plan ih =>
    refine ih (h.act hl.1) hl.2 (fun k v hv => ?_)
      (fun i s x hi => henrol i s x (List.mem_cons_of_mem a hi)) (fun v now hv => ?_) hw
    · rcases get?_workers_act hv with hv | ⟨i,s,x,rfl,_,rfl⟩ | ⟨now,u,rfl,hu,rfl⟩
      · exact hstart k v hv
      · exact henrol i s x (List.mem_cons_self ..)
      · refine hwake u now ?_
        rw [← h.keyed k u hu]
        exact List.mem_cons_self ..
    · rw [lifetime_act]
      exact hwake v now (List.mem_cons_of_mem a hv)

/-! ## What an operation renews -/

def Renews (peer : Frame) (m : Mediator) (op : Operation) (time : Nat) : Prop :=
  op.time? = some time ∧ (m.hears peer op = true ∨ m.retries peer op = true)

theorem renews_of_command {sender peer : Frame} {frames : Message} {c : Wire.WorkerCommand}
    {now time : Nat} (hf : Wire.Inbound.ofFrames frames = .ok (.worker c))
    (ha : .wake peer.hex time ∈ m.commandPlan sender c now) :
    Renews peer m (.handle sender frames now) time := by
  have hrenew {t : Mediator} (ht : .wake peer.hex time ∈ t.renewPlan sender.hex now)
      (hh : sender = peer → m.hears peer (.handle sender frames now) = true) :
      Renews peer m (.handle sender frames now) time := by
    obtain ⟨hk,rfl,_⟩ := mem_renewPlan_wake ht
    exact ⟨rfl,.inl (hh (Frame.hex_inj hk).symm)⟩
  cases c with
  | ready service =>
    simp only [commandPlan, readyPlan] at ha
    split at ha
    · simp at ha
    · rename_i hw
      split at ha
      · simp at ha
      · rename_i hi
        rcases List.mem_append.mp ha with ha | ha
        · simp [enrolPlan] at ha
        · refine hrenew ha ?_
          rintro rfl
          simp [hears, Operation.from?, hf, Except.toOption, hw, hi]
  | reply e =>
    simp only [commandPlan] at ha
    cases hw : m.workers.get? sender.hex with
    | none => simp [hw, turnAwayPlan] at ha
    | some w =>
      rw [hw, Option.elim_some, replyPlan, List.append_assoc] at ha
      rcases List.mem_append.mp ha with ha | ha
      · obtain ⟨_,ha⟩ := mem_forwardPlan ha
        cases ha
      · refine hrenew (List.mem_of_ne_of_mem (by simp) ha) ?_
        rintro rfl
        simp [hears, Operation.from?, hf, Except.toOption, Table.contains, hw]
  | heartbeat =>
    simp only [commandPlan] at ha
    split at ha
    · rename_i hw
      refine hrenew ha ?_
      rintro rfl
      simp [hears, Operation.from?, hf, Except.toOption, hw]
    · simp [turnAwayPlan] at ha
  | disconnect | unknown => simp [commandPlan] at ha
  | shutdown e named =>
    simp only [commandPlan] at ha
    cases hs : ((m.workers.get? sender.hex).map (·.service)).or named with
    | none => simp [hs] at ha
    | some service =>
      rw [hs] at ha
      obtain ⟨_,ha⟩ := mem_forwardPlan ha
      cases ha

theorem Consistent.renews_of_request (h : m.Consistent) {sender service peer : Frame}
    {body frames : Message} {now time : Nat}
    (hf : Wire.Inbound.ofFrames frames = .ok (.client service body))
    (ha : .wake peer.hex time ∈ m.requestPlan sender service body now) :
    Renews peer m (.handle sender frames now) time := by
  unfold requestPlan at ha
  dsimp only at ha
  split at ha
  · simp at ha
  · rename_i hn
    have hd {t : Mediator} : .wake peer.hex time ∉ t.dispatchPlan service.toText now := by
      intro hd
      rcases List.mem_append.mp hd with hd | hd
      · simp [sweepPlan] at hd
      · cases List.eq_of_mem_replicate hd
    have hw : .wake peer.hex time ∈
        (m.require service.toText).wakeForRetryPlan service.toText sender now := by
      simpa [hd] using ha
    obtain ⟨rfl,hb,hr,hi⟩ :=
      retries_of_mem_wakeForRetryPlan (h.require (by simpa using hn)) hw rfl
    rw [isBound_require] at hb
    rw [service_require] at hr hi
    exact ⟨rfl,.inr (by simpa [retries, hf, hb, hr] using hi)⟩

/-- Whom an operation wakes it renews. -/
theorem Consistent.renews_of_wake (h : m.Consistent) {peer : Frame} {op : Operation} {time : Nat}
    (ha : .wake peer.hex time ∈ m.plan op) : Renews peer m op time := by
  cases op with
  | handle sender frames now =>
    simp only [plan] at ha
    split at ha
    · cases ha
    · rename_i hf
      exact h.renews_of_request hf ha
    · rename_i hf
      exact renews_of_command hf ha
  | sweep now => simp [plan, sweepPlan] at ha
  | probe now =>
    simp only [plan, probePlan] at ha
    split at ha <;> simp at ha
  | disconnectAll => simp [plan, disconnectAllPlan] at ha

/-- Whom an operation registers it renews. -/
theorem renews_of_enrol {op : Operation} {identity : Frame} {service : String} {expiry : Nat}
    (ha : .enrol identity service expiry ∈ m.plan op) :
    ∃ time, Renews identity m op time ∧ expiry = time + m.lifetime := by
  rcases plan_registers m op with hn | ⟨sender,frames,now,n,rfl,hf,hw,hi,hp⟩
  · cases hn _ ha
  · rw [hp] at ha
    rcases List.mem_append.mp ha with ha | ha
    · simp only [enrolPlan, List.mem_cons, reduceCtorEq, Action.enrol.injEq, List.not_mem_nil,
        or_false, false_or] at ha
      obtain ⟨rfl,rfl,rfl⟩ := ha
      exact ⟨now,⟨rfl,.inl (by simp [hears, Operation.from?, hf, Except.toOption, hw, hi])⟩,rfl⟩
    · cases renewPlan_dispatching _ _ _ _ ha

/-! ## Where a worker's time comes from -/

/-- The worker's time counts from one of these operations, which renewed it. -/
def Granted (s : Mediator) (ops : List Operation) (w : Worker) : Prop :=
  ∃ earlier cause later time, ops = earlier ++ cause :: later ∧
    Renews w.identity (s.run earlier) cause time ∧ w.expiry = time + s.lifetime

theorem Granted.append {s : Mediator} {ops : List Operation} {w : Worker}
    (h : Granted s ops w) (more : List Operation) : Granted s (ops ++ more) w := by
  obtain ⟨earlier,cause,later,time,rfl,hr,he⟩ := h
  exact ⟨earlier,cause,later ++ more,time,by simp,hr,he⟩

/-- Whoever is registered in the course of an operation was granted its time, if everybody was
who was registered before. -/
theorem Consistent.granted_of_follow {s : Mediator} {ops : List Operation} {op : Operation}
    (h : (s.run ops).Consistent)
    (hg : ∀ key w, (s.run ops).workers.get? key = some w → Granted s ops w)
    {plan rest : List Action} (hp : (s.run ops).plan op = plan ++ rest) {key : String} {w : Worker}
    (hw : ((s.run ops).follow plan).workers.get? key = some w) : Granted s (ops ++ [op]) w := by
  have hl := plan_lawful h op
  rw [hp] at hl
  have hm {a : Action} (ha : a ∈ plan) : a ∈ (s.run ops).plan op :=
    hp ▸ List.mem_append_left rest ha
  refine h.entry_of_follow (lawfulPlan_append.mp hl).1 (fun k v hv => (hg k v hv).append [op])
    (fun identity service expiry ha => ?_) (fun v now ha => ?_) hw
  · obtain ⟨time,hr,rfl⟩ := renews_of_enrol (hm ha)
    exact ⟨ops,op,[],time,rfl,hr,by rw [lifetime_run]⟩
  · exact ⟨ops,op,[],now,rfl,h.renews_of_wake (hm ha),by rw [lifetime_run]⟩

theorem Consistent.granted_run {s : Mediator} (h : s.Consistent) (hs : s.workers = .empty)
    (ops : List Operation) :
    ∀ key w, (s.run ops).workers.get? key = some w → Granted s ops w := by
  induction ops using List.reverseRecOn with
  | nil =>
    intro key w hw
    rw [run_nil, hs] at hw
    cases hw
  | append_singleton ops op ih =>
    intro key w hw
    rw [run_append, run_cons, run_nil, ← follow_plan] at hw
    exact (h.run ops).granted_of_follow ih (List.append_nil _).symm hw

/-! ## Pairings find the living -/

/-- Where a dispatch pairs, every idle worker is alive. -/
theorem throughout_dispatchPlan_fresh (now : Nat) (name : String) (m : Mediator) :
    Throughout (fun t a => ∀ n, a = .pair n → t.Fresh now) m (m.dispatchPlan name now) := by
  rw [dispatchPlan, throughout_append, follow_sweepPlan]
  refine ⟨throughout_of_forall ?_,fun x hx _ _ => ?_⟩
  · rintro a ha t n rfl
    simp [sweepPlan] at ha
  · exact fresh_of_mem_moments_replicate (fresh_sweep now m) hx

/-- An operation that pairs has a time, and whoever is idle then is alive at that time. -/
theorem Consistent.fresh_of_mem_moments_plan (h : m.Consistent) {op : Operation} {name : String}
    {t : Mediator} (ht : (t,.pair name) ∈ m.moments (m.plan op)) :
    ∃ now, op.time? = some now ∧ t.Fresh now := by
  suffices hq : Throughout
      (fun t a => ∀ n, a = .pair n → ∃ now, op.time? = some now ∧ t.Fresh now) m (m.plan op) from
    hq _ ht name rfl
  refine h.throughout_plan (fun t a ha n hp => ?_) (fun _ _ _ _ hp => nomatch hp)
    (fun t n now _ hn x hx k hk => ⟨now,hn,?_⟩) (fun _ _ _ _ hp => nomatch hp)
  · rw [hp] at ha
    cases ha
  · exact throughout_dispatchPlan_fresh now n t x hx k hk

/-! ## Requests go to the living -/

theorem Consistent.mem_idle_of_emitted (h : m.Consistent) {a : Action} (ha : a.Lawful m)
    {o : Outbound} (ho : o ∈ m.emitted a) (he : (Wire.requestOf? o.frames).isSome = true) :
    ∃ name w, a = .pair name ∧ m.workers.get? o.peer.hex = some w ∧ w.identity = o.peer ∧
      o.peer.hex ∈ m.idle := by
  obtain ⟨e,he⟩ := Option.isSome_iff_exists.mp he
  obtain ⟨name,w,rfl,hw,hi,_,hm⟩ := h.emitted_request ha ho he
  refine ⟨name,w,rfl,hw,hi,?_⟩
  rcases h.pairOldest_cases name with ⟨hq,_⟩ | ⟨f,es,key,keys,v,_,_,hv,_,hk,hq⟩
  · rw [emitted_eq_nil (a := .pair name) (congrArg Mediator.outbox hq)] at hm
    cases hm
  · rw [emitted_pair hq, List.cons.injEq] at hm
    rw [← hm.1]
    exact h.keyed key v hv ▸ hk

/-- Whoever is sent a request in the course of an operation was renewed less than a life ago: by
its READY, REPLY or HEARTBEAT, or by a client's request that took it for ready again. -/
theorem requests_reach_renewed_workers (interval lifetime now : Nat) (ops : List Operation)
    (op : Operation) :
    let s := start interval lifetime now
    let m := s.run ops
    ∀ o ∈ (m.apply op).1.outbox.drop m.outbox.length, (Wire.requestOf? o.frames).isSome = true →
      ∃ time, op.time? = some time ∧ ∃ earlier cause later renewed,
        ops ++ [op] = earlier ++ cause :: later ∧ Renews o.peer (s.run earlier) cause renewed ∧
          time < renewed + lifetime := by
  intro s m o ho he
  have hs : s.Consistent := consistent_start interval lifetime now
  have h : m.Consistent := hs.run ops
  rw [← follow_plan, outbox_follow, List.drop_left] at ho
  obtain ⟨⟨t,a⟩,hx,ho⟩ := List.mem_flatMap.mp ho
  obtain ⟨ht,ha⟩ := h.moments (plan_lawful h op) _ hx
  obtain ⟨name,w,rfl,hw,hi,hk⟩ := ht.mem_idle_of_emitted ha ho he
  obtain ⟨time,hn,hf⟩ := h.fresh_of_mem_moments_plan hx
  obtain ⟨v,hv,hlt⟩ := isLive_iff.mp (hf _ hk)
  obtain rfl := Option.some.inj (hw.symm.trans hv)
  -- the entry that is found alive is one of the operation up to there
  obtain ⟨before,after,hp,rfl⟩ := mem_moments hx
  obtain ⟨earlier,cause,later,renewed,hc,hr,hx⟩ :=
    h.granted_of_follow (hs.granted_run rfl ops) hp hw
  exact ⟨time,hn,earlier,cause,later,renewed,hc,hi ▸ hr,hx ▸ hlt⟩

/-- A worker that has just been accepted is sent the first request. -/
theorem requests_reach_renewed_workers_first :
    let s := start 2500 12500 0
    let ops := [Operation.handle (.ofText "w1") (Wire.ready "echo") 0]
    let op := Operation.handle (.ofText "c1") (Wire.clientMessage (.ofText "echo") [.ofText "one"]) 1
    let o := Outbound.mk (.ofText "w1") (Wire.request ⟨[.ofText "c1"],[.ofText "one"]⟩)
    o ∈ ((s.run ops).apply op).1.outbox.drop (s.run ops).outbox.length ∧
    (Wire.requestOf? o.frames).isSome = true ∧
    ∃ time, op.time? = some time ∧ ∃ earlier cause later renewed,
      ops ++ [op] = earlier ++ cause :: later ∧ Renews o.peer (s.run earlier) cause renewed ∧
        time < renewed + 12500 :=
  ⟨by decide,by decide,
    requests_reach_renewed_workers 2500 12500 0 _ _ _ (by decide) (by decide)⟩

/-- A worker that was last heard from a life and more ago is sent a request, since another
client's request has taken it for ready again. -/
theorem requests_reach_silent_worker :
    let s := start 2500 12500 0
    let ask (client : String) (now : Nat) :=
      Operation.handle (.ofText client) (Wire.clientMessage (.ofText "echo") [.ofText client]) now
    let ops := [.handle (.ofText "w1") (Wire.ready "echo") 0,
      .handle (.ofText "w2") (Wire.ready "echo") 0, .handle (.ofText "w3") (Wire.ready "echo") 0,
      ask "c1" 1, ask "c2" 12000]
    let op := ask "c3" 20000
    let peer := Frame.ofText "w2"
    ((ops ++ [op]).filterMap (·.time?)).Pairwise (· ≤ ·) ∧
    ((s.run ops).apply op).1.outbox.drop (s.run ops).outbox.length =
      [⟨peer,Wire.request ⟨[.ofText "c3"],[.ofText "c3"]⟩⟩] ∧
    ∀ x ∈ ops ++ [op], (x.from? peer).isSome = true → x.time? = some 0 := by
  decide

end Majordomo.Broker.Mediator
