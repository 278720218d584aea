import Majordomo.Proofs.Mediator.Handover

/-! # Whose turn it is

An operation sends one request at most. It is the oldest that waits for its service, and it goes
to the first idle worker of the service that is alive, in the order in which the operation finds
the queue.
-/
namespace Majordomo.Broker.Mediator
variable {m : Mediator}

def repeats (name : String) (m : Mediator) : Operation → Bool
  | .handle _ frames _ =>
    match Wire.Inbound.ofFrames frames with
    | .ok (.client service _) =>
      service.toText = name && decide ((m.service name).reply = .awaiting)
    | _ => false
  | _ => false

/-- The order in which the idle workers of the service have their turn: a repeated request first
makes the longest idle one the last. -/
def line (name : String) (m : Mediator) (op : Operation) : List String :=
  let queue := (m.service name).idle
  if m.repeats name op then queue.drop 1 ++ queue.take 1 else queue

/-- It is the turn of this request of the service and of this worker. -/
structure InTurn (m : Mediator) (op : Operation) (name : String) (peer : Frame) (e : Envelope) :
    Prop where
  /-- The worker is one of the service, or becomes one by its READY. -/
  bound : m.isBound name peer.hex = true ∨ op.from? peer = some (.worker (.ready name))
  /-- The request has waited longest, that which the operation brings being the last. -/
  oldest : ((m.service name).pending ++ op.requestFor name).head? = some e
  /-- The worker is the first in line that is alive. -/
  first : ∀ now key, op.time? = some now → (m.line name op).find? (m.isLive now) = some key →
    peer.hex = key
  /-- It is the sender if nobody in line is alive; this says nothing of a repeated request that
  finds idle workers. -/
  sender : ∀ now, op.time? = some now → (m.line name op).find? (m.isLive now) = none →
    (m.repeats name op = true → (m.service name).idle = []) →
    ∃ frames, op = .handle peer frames now

/-- The operation sends at most this one request, whose turn it is. -/
structure Serves (m : Mediator) (op : Operation) (name : String)
    (r : Option (Frame × Envelope)) : Prop where
  sends : Sends m (m.apply op).1 r.toList
  turn : ∀ x ∈ r, InTurn m op name x.1 x.2

/-! ## Operations that give nobody anything to do -/

/-- The action neither queues a request nor wakes a worker, and it pairs nobody. -/
def Action.isQuiet : Action → Bool
  | .queue .. | .wake .. | .pair _ => false
  | _ => true

namespace Settled

theorem act_of_isQuiet (h : m.Settled) {a : Action} (hl : a.Lawful m) (hq : a.isQuiet = true) :
    (m.act a).Settled ∧ Sends m (m.act a) [] ∧
      ∀ name, ((m.act a).service name).pending = (m.service name).pending := by
  have hs : Sends m (m.act a) [] := by
    refine ⟨m.emitted a,outbox_act m a,List.filterMap_eq_nil_iff.mpr fun o ho => ?_⟩
    cases he : Wire.requestOf? o.frames with
    | none => simp [Outbound.request?, he]
    | some e =>
      obtain ⟨name,w,rfl,_⟩ := h.consistent.emitted_request hl ho he
      cases hq
  have hv : ∀ name, ((m.act a).service name).pending = (m.service name).pending ∧
      ((m.act a).service name).idle ⊆ (m.service name).idle := by
    intro name
    cases a with
    | emit | enrol | schedule => exact ⟨rfl,List.Subset.refl _⟩
    | require n => simp
    | settle n =>
      rw [act_settle, service_updateService]
      split
      · rename_i hn
        subst hn
        exact ⟨rfl,List.Subset.refl _⟩
      · exact ⟨rfl,List.Subset.refl _⟩
    | remove key =>
      rw [act_remove, h.consistent.service_remove]
      exact ⟨rfl,List.filter_subset_self _⟩
    | queue | wake | pair => cases hq
  exact ⟨h.mono (h.consistent.act hl) (fun name => (hv name).1) (fun name => (hv name).2)
    (lifetime_act m a),hs,fun name => (hv name).1⟩

theorem follow_of_isQuiet (h : m.Settled) {plan : List Action} (hl : m.LawfulPlan plan)
    (hq : ∀ a ∈ plan, a.isQuiet = true) :
    (m.follow plan).Settled ∧ Sends m (m.follow plan) [] ∧
      ∀ name, ((m.follow plan).service name).pending = (m.service name).pending := by
  induction plan generalizing m with
  | nil => exact ⟨h,sends_nil rfl,fun _ => rfl⟩
  | cons a plan ih =>
    obtain ⟨h',hs,hp⟩ := h.act_of_isQuiet hl.1 (hq a (List.mem_cons_self ..))
    obtain ⟨h'',hs',hp'⟩ := ih h' hl.2 fun b hb => hq b (List.mem_cons_of_mem a hb)
    exact ⟨h'',hs.trans hs',fun name => (hp' name).trans (hp name)⟩

end Settled

/-- A command is quiet, or it makes its sender idle after something quiet. -/
theorem commandPlan_forms (m : Mediator) (sender : Frame) (c : Wire.WorkerCommand) (now : Nat) :
    (∀ a ∈ m.commandPlan sender c now, a.isQuiet = true) ∨
    ∃ front, (∀ a ∈ front, a.isQuiet = true) ∧
      m.commandPlan sender c now = front ++ (m.follow front).renewPlan sender.hex now ∧
      ∀ w, (m.follow front).workers.get? sender.hex = some w →
        m.isBound w.service sender.hex = true ∨ c = .ready w.service := by
  have hforward (service : String) (e : Envelope) :
      ∀ a ∈ forwardPlan service e, a.isQuiet = true := by
    intro a ha
    obtain ⟨_,rfl⟩ := mem_forwardPlan ha
    rfl
  cases c with
  | ready service =>
    by_cases hw : m.workers.contains sender.hex = true
    · exact .inl (by simp [commandPlan, readyPlan, hw, Action.isQuiet])
    · cases hn : Wire.isInternal service with
      | true => exact .inl (by simp [commandPlan, readyPlan, hw, hn, Action.isQuiet])
      | false =>
        refine .inr ⟨m.enrolPlan sender service now,by simp [enrolPlan, Action.isQuiet],
          by simp [commandPlan, readyPlan, hw, hn],fun w hg => .inr ?_⟩
        rw [workers_follow_enrolPlan, Table.get?_set, if_pos rfl] at hg
        rw [← Option.some.inj hg]
  | reply e =>
    cases hw : m.workers.get? sender.hex with
    | none => exact .inl (by simp [commandPlan, hw, turnAwayPlan, Action.isQuiet])
    | some v =>
      refine .inr ⟨forwardPlan v.service e ++ [.settle v.service],fun a ha => ?_,
        by simp [commandPlan, hw, replyPlan],fun w hg => .inl ?_⟩
      · rcases List.mem_append.mp ha with ha | ha
        · exact hforward _ e a ha
        · exact List.mem_singleton.mp ha ▸ rfl
      · rw [workers_follow_settled] at hg
        exact isBound_iff.mpr ⟨w,hg,rfl⟩
  | heartbeat =>
    by_cases hw : m.workers.contains sender.hex = true
    · exact .inr ⟨[],by simp,by simp [commandPlan, hw],
        fun w hg => .inl (isBound_iff.mpr ⟨w,hg,rfl⟩)⟩
    · exact .inl (by simp [commandPlan, hw, turnAwayPlan, Action.isQuiet])
  | disconnect | unknown => exact .inl (by simp [commandPlan, Action.isQuiet])
  | shutdown e named =>
    refine .inl ?_
    simp only [commandPlan]
    cases ((m.workers.get? sender.hex).map (·.service)).or named with
    | none => simp
    | some service => exact hforward service e

/-- What an operation is, as far as work is given out: it gives none, it brings a request, or it
makes its sender idle after something quiet. -/
theorem plan_forms (m : Mediator) (op : Operation) :
    (∀ a ∈ m.plan op, a.isQuiet = true) ∨
    (∃ sender frames now service body, op = .handle sender frames now ∧
      Wire.Inbound.ofFrames frames = .ok (.client service body) ∧
      Wire.isInternal service.toText = false) ∨
    ∃ sender frames now c front, op = .handle sender frames now ∧
      Wire.Inbound.ofFrames frames = .ok (.worker c) ∧ (∀ a ∈ front, a.isQuiet = true) ∧
      m.plan op = front ++ (m.follow front).renewPlan sender.hex now ∧
      ∀ w, (m.follow front).workers.get? sender.hex = some w →
        m.isBound w.service sender.hex = true ∨ c = .ready w.service := by
  cases op with
  | handle sender frames now =>
    simp only [plan]
    cases hf : Wire.Inbound.ofFrames frames with
    | error v => exact .inl (by simp)
    | ok i =>
      cases i with
      | client service body =>
        cases hn : Wire.isInternal service.toText with
        | true => exact .inl (by simp [requestPlan, hn, Action.isQuiet])
        | false => exact .inr (.inl ⟨sender,frames,now,service,body,rfl,hf,hn⟩)
      | worker c =>
        rcases commandPlan_forms m sender c now with h | ⟨front,h⟩
        · exact .inl h
        · exact .inr (.inr ⟨sender,frames,now,c,front,rfl,hf,h⟩)
  | sweep now =>
    refine .inl fun a ha => ?_
    obtain ⟨key,_,rfl⟩ := List.mem_map.mp ha
    rfl
  | probe now =>
    refine .inl fun a ha => ?_
    simp only [plan, probePlan] at ha
    split at ha
    · cases ha
    · rcases List.mem_append.mp ha with ha | ha
      · obtain ⟨w,_,rfl⟩ := List.mem_map.mp ha
        rfl
      · exact List.mem_singleton.mp ha ▸ rfl
  | disconnectAll =>
    refine .inl fun a ha => ?_
    obtain ⟨_,_,ha⟩ := List.mem_flatMap.mp ha
    simp only [List.mem_cons, List.not_mem_nil, or_false] at ha
    rcases ha with rfl | rfl <;> rfl

/-! ## Requests -/

section
variable {sender service : Frame} {frames body : Message} {now : Nat}

theorem isLive_require (now : Nat) (name : String) (m : Mediator) :
    (m.require name).isLive now = m.isLive now :=
  funext fun key => isLive_congr now (congrArg (·.get? key) (workers_require m name))

theorem Settled.require (h : m.Settled) {name : String} (hn : Wire.isInternal name = false) :
    (m.require name).Settled :=
  h.mono (h.consistent.require hn) (by simp) (by simp) (lifetime_act m (.require name))

theorem apply_request (hf : Wire.Inbound.ofFrames frames = .ok (.client service body))
    (hn : Wire.isInternal service.toText = false) :
    (m.apply (.handle sender frames now)).1 =
      (((m.require service.toText).wakeForRetry service.toText sender now).act
        (.queue service.toText ⟨[sender],body⟩)).dispatch service.toText now := by
  simp only [apply, handle, hf, request, hn, Bool.false_eq_true, if_false]
  rfl

theorem repeats_request (hf : Wire.Inbound.ofFrames frames = .ok (.client service body)) :
    m.repeats service.toText (.handle sender frames now) =
      decide ((m.service service.toText).reply = .awaiting) := by
  simp [repeats, hf]

theorem requestFor_request (hf : Wire.Inbound.ofFrames frames = .ok (.client service body)) :
    (Operation.handle sender frames now).requestFor service.toText = [⟨[sender],body⟩] := by
  simp [Operation.requestFor, hf]

theorem contains_wakeForRetry (name : String) (sender : Frame) (now : Nat) (m : Mediator) :
    ((m.require name).wakeForRetry name sender now).services.contains name = true := by
  rw [← follow_wakeForRetryPlan]
  exact contains_follow ((contains_require ..).trans (by simp)) _

theorem Settled.wakeForRetry (h : m.Settled) (name : String) (sender : Frame) (now : Nat) :
    (m.wakeForRetry name sender now).Settled := by
  unfold Mediator.wakeForRetry
  split
  · split
    · exact h.renew _ now
    · exact h
  · exact h

/-- A request is queued once a worker has been woken for its repetition, and then given out. -/
theorem Settled.apply_request (h : m.Settled)
    (hf : Wire.Inbound.ofFrames frames = .ok (.client service body))
    (hn : Wire.isInternal service.toText = false) {t : Mediator}
    (hw : (m.require service.toText).wakeForRetry service.toText sender now = t) :
    t.Settled ∧ t.services.contains service.toText = true ∧
      (m.apply (.handle sender frames now)).1 =
        (t.act (.queue service.toText ⟨[sender],body⟩)).dispatch service.toText now := by
  subst hw
  exact ⟨(h.require hn).wakeForRetry _ sender now,contains_wakeForRetry ..,
    Mediator.apply_request hf hn⟩

theorem Settled.apply_request_settled (h : m.Settled)
    (hf : Wire.Inbound.ofFrames frames = .ok (.client service body))
    (hn : Wire.isInternal service.toText = false) :
    (m.apply (.handle sender frames now)).1.Settled := by
  obtain ⟨ht,hc,ha⟩ := h.apply_request hf hn rfl
  exact ha ▸ ht.enqueue hc rfl now

theorem Consistent.isBound_of_mem (h : m.Consistent) {name key : String}
    (hk : key ∈ (m.service name).idle) : m.isBound name key = true := by
  rw [h.queues] at hk
  exact (List.mem_filter.mp hk).2

/-- A request that wakes nobody goes to the first in the queue that is alive. -/
theorem Settled.serves_of_not_woken (h : m.Settled)
    (hf : Wire.Inbound.ofFrames frames = .ok (.client service body))
    (hn : Wire.isInternal service.toText = false)
    (hw : (m.require service.toText).wakeForRetry service.toText sender now =
      m.require service.toText)
    (hl : m.line service.toText (.handle sender frames now) = (m.service service.toText).idle) :
    ∃ r, Serves m (.handle sender frames now) service.toText r ∧
      ((∃ key ∈ (m.service service.toText).idle, m.isLive now key = true) → r.isSome = true) := by
  obtain ⟨ht,hc,ha⟩ := h.apply_request hf hn hw
  have hs : Sends m (m.require service.toText) [] := sends_nil (by simp)
  cases hk : (m.service service.toText).idle.find? (m.isLive now) with
  | none =>
    refine ⟨none,⟨?_,by simp⟩,fun ⟨key,hm,hlive⟩ => ?_⟩
    · rw [ha]
      exact hs.trans (ht.sends_enqueue_nil hc rfl (by rwa [service_require, isLive_require]))
    · exact absurd hlive (by simpa using List.find?_eq_none.mp hk key hm)
  | some key =>
    obtain ⟨w,_,hx,hp,hsend⟩ := ht.sends_enqueue (e := ⟨[sender],body⟩) hc rfl
      (by rwa [service_require, isLive_require])
    rw [service_require] at hp
    refine ⟨some (w.identity,⟨[sender],body⟩),⟨ha ▸ hs.trans hsend,?_⟩,fun _ => rfl⟩
    rintro _ ⟨⟩
    refine ⟨.inl ?_,by rw [hp, requestFor_request hf]; rfl,fun _ k ht hk' => ?_,fun _ ht hk' => ?_⟩
    · rw [hx]
      exact h.consistent.isBound_of_mem (List.mem_of_find?_eq_some hk)
    · cases ht
      rw [hl, hk] at hk'
      exact hx.trans (Option.some.inj hk')
    · cases ht
      rw [hl, hk] at hk'
      cases hk'

/-- The one who was longest idle and has been put last takes the request if the others are dead. -/
theorem find?_rotate_awaken {keys : List String} {key : String} {w : Worker}
    (hw : m.workers.get? key = some w) (hl : 0 < m.lifetime) (hn : key ∉ keys) (now : Nat) :
    (keys ++ [key]).find? ((m.awaken key now).isLive now) =
      some ((keys.find? (m.isLive now)).getD key) := by
  have hc : keys.find? ((m.awaken key now).isLive now) = keys.find? (m.isLive now) := by
    induction keys with
    | nil => rfl
    | cons k keys ih =>
      have hk : k ≠ key := fun e => hn (e ▸ List.mem_cons_self ..)
      rw [List.find?_cons, List.find?_cons, isLive_awaken now hw, if_neg hk,
        ih fun hm => hn (List.mem_cons_of_mem k hm)]
  rw [List.find?_append, hc, List.find?_singleton, isLive_awaken now hw, if_pos rfl]
  cases keys.find? (m.isLive now) <;> simp [hl]

/-- The longest idle worker of a service is woken: then the first in the rest of the queue that is
alive has its turn, and after the others the woken one. -/
theorem Consistent.find?_awaken (h : m.Consistent) {name key : String} {keys : List String}
    {w : Worker} (hw : m.workers.get? key = some w) (hs : w.service = name)
    (hi : (m.service name).idle = key :: keys) (hl : 0 < m.lifetime) (now : Nat) :
    ((m.awaken key now).service name).idle.find? ((m.awaken key now).isLive now) =
      some ((keys.find? (m.isLive now)).getD key) := by
  have hd : (key :: keys).Nodup := by
    rw [← hi, h.queues]
    exact h.idle_nodup.filter _
  have hk : key ∉ keys := (List.nodup_cons.mp hd).1
  have hf : (key :: keys).filter (· ≠ key) = keys := by
    rw [List.filter_cons_of_neg (by simp)]
    exact List.filter_eq_self.mpr fun k hm => decide_eq_true fun e => hk (e ▸ hm)
  rw [service_awaken_of_get? now hw, if_pos hs, hs, hi, hf]
  exact find?_rotate_awaken hw hl hk now

/-- The longest idle worker that a repeated request wakes is given nothing yet, since nothing
waits. -/
theorem Settled.wakeForRetry_of_idle (h : m.Settled) {name key : String} {keys : List String}
    (hr : (m.service name).reply = .awaiting) (hi : (m.service name).idle = key :: keys)
    (sender : Frame) (now : Nat) :
    ∃ w, m.workers.get? key = some w ∧ w.service = name ∧
      m.wakeForRetry name sender now = (m.awaken key now).sweep now := by
  have hmem : key ∈ (m.service name).idle := hi ▸ List.mem_cons_self ..
  obtain ⟨w,hw,hs⟩ := isBound_iff.mp (h.consistent.isBound_of_mem hmem)
  refine ⟨w,hw,hs,?_⟩
  rw [← follow_wakeForRetryPlan, wakeForRetryPlan_of_idle now hr hi, follow_renewPlan,
    h.renew_eq_sweep hw now (hs ▸ h.pending_eq_nil hmem)]

/-- A repeated request that finds idle workers goes to the first in line that is alive, or to the
one that was longest idle. -/
theorem Settled.serves_of_idle (h : m.Settled)
    (hf : Wire.Inbound.ofFrames frames = .ok (.client service body))
    (hn : Wire.isInternal service.toText = false)
    (hr : (m.service service.toText).reply = .awaiting) {key : String} {keys : List String}
    (hi : (m.service service.toText).idle = key :: keys) :
    ∃ x, Serves m (.handle sender frames now) service.toText (some x) ∧
      x.1.hex = (keys.find? (m.isLive now)).getD key := by
  have hmem : key ∈ (m.service service.toText).idle := hi ▸ List.mem_cons_self ..
  have ht := h.require hn
  have hi' : ((m.require service.toText).service service.toText).idle = key :: keys := by
    rwa [service_require]
  obtain ⟨v,hv,hs,hw⟩ := ht.wakeForRetry_of_idle (by rwa [service_require]) hi' sender now
  have hlt : 0 < (m.require service.toText).lifetime := by
    refine ht.lasting key ?_
    rw [h.consistent.queues] at hmem
    rw [idle_require]
    exact (List.mem_filter.mp hmem).1
  have hfind := ht.consistent.find?_awaken hv hs hi' hlt now
  rw [isLive_require, ← (ht.consistent.awaken key now).find?_sweep] at hfind
  obtain ⟨ht',hc,ha⟩ := h.apply_request hf hn hw
  obtain ⟨w,_,hx,_,hsend⟩ := ht'.sends_enqueue (e := ⟨[sender],body⟩) hc rfl hfind
  have hq : Sends m (((m.require service.toText).awaken key now).sweep now) [] :=
    sends_nil (by simp)
  have hrep : m.repeats service.toText (.handle sender frames now) = true := by
    rw [repeats_request hf, decide_eq_true hr]
  have hline : m.line service.toText (.handle sender frames now) = keys ++ [key] := by
    rw [line, if_pos hrep, hi]
    rfl
  refine ⟨(w.identity,⟨[sender],body⟩),⟨ha ▸ hq.trans hsend,?_⟩,hx⟩
  rintro _ ⟨⟩
  refine ⟨.inl ?_,by rw [h.pending_eq_nil hmem, requestFor_request hf]; rfl,
    fun _ k ht hk => ?_,fun _ _ _ he => ?_⟩
  · rw [hx]
    refine h.consistent.isBound_of_mem ?_
    cases hk : keys.find? (m.isLive now) with
    | none => exact hmem
    | some k => exact hi ▸ List.mem_cons_of_mem key (List.mem_of_find?_eq_some hk)
  · cases ht
    rw [hline, List.find?_append] at hk
    rw [hx]
    cases hf : keys.find? (m.isLive now) with
    | none =>
      rw [hf, Option.none_or] at hk
      exact (List.mem_singleton.mp (List.mem_of_find?_eq_some hk)).symm
    | some k' =>
      rw [hf, Option.some_or] at hk
      exact Option.some.inj hk
  · cases hi.symm.trans (he hrep)

/-- It is the sender's turn if it is a worker of the service and nobody of the service is idle. -/
theorem inTurn_of_bound (hf : Wire.Inbound.ofFrames frames = .ok (.client service body))
    (hi : (m.service service.toText).idle = [])
    (hb : m.isBound service.toText sender.hex = true) {e : Envelope}
    (he : ((m.service service.toText).pending ++ [Envelope.mk [sender] body]).head? = some e) :
    InTurn m (.handle sender frames now) service.toText sender e := by
  have hline : m.line service.toText (.handle sender frames now) = [] := by simp [line, hi]
  refine ⟨.inl hb,by rwa [requestFor_request hf],fun _ k _ hk => ?_,fun _ ht _ _ => ?_⟩
  · rw [hline] at hk
    cases hk
  · cases ht
    exact ⟨frames,rfl⟩

/-- A repeated request of a worker of the service, while nobody is idle, gives the worker the
oldest one. -/
theorem Settled.serves_of_bound (h : m.Settled)
    (hf : Wire.Inbound.ofFrames frames = .ok (.client service body))
    (hn : Wire.isInternal service.toText = false)
    (hr : (m.service service.toText).reply = .awaiting)
    (hi : (m.service service.toText).idle = [])
    (hb : m.isBound service.toText sender.hex = true) :
    ∃ r, Serves m (.handle sender frames now) service.toText r := by
  obtain ⟨v,hv,hs⟩ := isBound_iff.mp hb
  have hid : v.identity = sender := h.consistent.identity_eq hv
  have ht := h.require hn
  rw [← workers_require m service.toText] at hv
  have hw : (m.require service.toText).wakeForRetry service.toText sender now =
      (m.require service.toText).renew sender.hex now := by
    rw [← follow_wakeForRetryPlan, wakeForRetryPlan_of_bound now (by rwa [service_require])
      (by rwa [service_require]) (by rwa [isBound_require]), follow_renewPlan]
  obtain ⟨ht',hc,ha⟩ := h.apply_request hf hn hw
  have hq : Sends m (m.require service.toText) [] := sends_nil (by simp)
  cases hp : (m.service service.toText).pending with
  | nil =>
    -- nothing was waiting, so the worker takes the request that it brings itself
    have hr := ht.renew_eq_sweep hv now (by rwa [hs, service_require])
    have hfind := find?_awaken_of_idle_eq_nil now hv (by rwa [hs, service_require])
    rw [← (ht.consistent.awaken _ now).find?_sweep, hs, ← hr] at hfind
    have hq : Sends m ((m.require service.toText).renew sender.hex now) [] :=
      sends_nil (by simp [hr])
    by_cases hl : 0 < (m.require service.toText).lifetime
    · rw [if_pos hl] at hfind
      obtain ⟨w,_,hx,_,hsend⟩ := ht'.sends_enqueue (e := ⟨[sender],body⟩) hc rfl hfind
      obtain rfl := Frame.hex_inj hx
      refine ⟨some (w.identity,⟨[w.identity],body⟩),ha ▸ hq.trans hsend,?_⟩
      rintro _ ⟨⟩
      exact inTurn_of_bound hf hi hb (by rw [hp]; rfl)
    · rw [if_neg hl] at hfind
      exact ⟨none,ha ▸ hq.trans (ht'.sends_enqueue_nil hc rfl hfind),by simp⟩
  | cons e es =>
    have hp' : ((m.require service.toText).service v.service).pending = e :: es := by
      rwa [hs, service_require]
    -- the worker takes an older request, and its own waits
    obtain ⟨hsend,hidle⟩ := ht.sends_renew hv now hp'
    rw [hs] at hidle
    have hfind : (((m.require service.toText).renew sender.hex now).service
        service.toText).idle.find?
          (((m.require service.toText).renew sender.hex now).isLive now) = none := by
      rw [hidle]
      rfl
    have hlast := ht'.sends_enqueue_nil (e := ⟨[sender],body⟩) hc rfl hfind
    rcases hsend with hsend | hsend
    · exact ⟨none,ha ▸ (hq.trans hsend).trans hlast,by simp⟩
    · refine ⟨some (sender,e),?_,?_⟩
      · rw [ha]
        simpa [hid] using (hq.trans hsend).trans hlast
      · rintro _ ⟨⟩
        exact inTurn_of_bound hf hi hb (by rw [hp]; rfl)

/-- A request goes to the first in line that is alive, at once if there is one. -/
theorem Settled.serves_request (h : m.Settled)
    (hf : Wire.Inbound.ofFrames frames = .ok (.client service body))
    (hn : Wire.isInternal service.toText = false) :
    ∃ r, Serves m (.handle sender frames now) service.toText r ∧
      ((∃ key ∈ (m.service service.toText).idle, m.isLive now key = true) → r.isSome = true) := by
  have hwake
      (hp : (m.require service.toText).wakeForRetryPlan service.toText sender now = []) :
      (m.require service.toText).wakeForRetry service.toText sender now =
        m.require service.toText := by
    rw [← follow_wakeForRetryPlan, hp, follow_nil]
  by_cases hr : (m.service service.toText).reply = .awaiting
  · cases hi : (m.service service.toText).idle with
    | cons key keys =>
      obtain ⟨x,hx,_⟩ := h.serves_of_idle hf hn hr hi
      exact ⟨some x,hx,fun _ => rfl⟩
    | nil =>
      cases hb : m.isBound service.toText sender.hex with
      | true =>
        obtain ⟨r,hs⟩ := h.serves_of_bound hf hn hr hi hb
        exact ⟨r,hs,by simp⟩
      | false =>
        rw [← hi]
        refine h.serves_of_not_woken hf hn (hwake ?_) (by simp [line, hi])
        exact wakeForRetryPlan_of_not_bound now (by rwa [service_require])
          (by rwa [isBound_require])
  · refine h.serves_of_not_woken hf hn (hwake ?_) (by simp [line, repeats_request hf, hr])
    exact wakeForRetryPlan_of_not_awaiting now (by rwa [service_require])

end

/-! ## Operations -/

/-- A worker that becomes idle is given the oldest request of its service. -/
theorem Settled.serves_of_renew (h : m.Settled) {sender : Frame} {frames : Message} {now : Nat}
    {c : Wire.WorkerCommand} {front : List Action}
    (hf : Wire.Inbound.ofFrames frames = .ok (.worker c)) (hq : ∀ a ∈ front, a.isQuiet = true)
    (hp : m.plan (.handle sender frames now) =
      front ++ (m.follow front).renewPlan sender.hex now)
    (hb : ∀ w, (m.follow front).workers.get? sender.hex = some w →
      m.isBound w.service sender.hex = true ∨ c = .ready w.service) :
    (m.apply (.handle sender frames now)).1.Settled ∧
      ∃ name r, Serves m (.handle sender frames now) name r := by
  have hl := plan_lawful h.consistent (.handle sender frames now)
  rw [hp] at hl
  obtain ⟨hu,hsend,hpend⟩ := h.follow_of_isQuiet (lawfulPlan_append.mp hl).1 hq
  have ha : (m.apply (.handle sender frames now)).1 = (m.follow front).renew sender.hex now := by
    rw [← follow_plan, hp, follow_append, follow_renewPlan]
  refine ⟨ha ▸ hu.renew sender.hex now,?_⟩
  cases hw : (m.follow front).workers.get? sender.hex with
  | none =>
    refine ⟨"",none,?_,by simp⟩
    rw [ha, renew_of_get?_eq_none now hw]
    exact hsend
  | some w =>
    cases hp : ((m.follow front).service w.service).pending with
    | nil =>
      refine ⟨w.service,none,?_,by simp⟩
      rw [ha, hu.renew_eq_sweep hw now hp]
      exact hsend.trans (sends_nil (by simp))
    | cons e es =>
      have hid : w.identity = sender := hu.consistent.identity_eq hw
      rcases (hu.sends_renew hw now hp).1 with hs | hs
      · exact ⟨w.service,none,ha ▸ hsend.trans hs,by simp⟩
      · refine ⟨w.service,some (w.identity,e),ha ▸ hsend.trans hs,?_⟩
        rw [hpend] at hp
        have hi : (m.service w.service).idle = [] :=
          (h.matched _).resolve_left (by simp [hp])
        rintro _ ⟨⟩
        rw [hid]
        refine ⟨(hb w hw).imp_right ?_,by rw [hp]; rfl,fun _ k _ hk => ?_,fun _ ht _ _ => ?_⟩
        · rintro rfl
          simp [Operation.from?, hf, Except.toOption]
        · simp [line, repeats, hf, hi] at hk
        · cases ht
          exact ⟨frames,rfl⟩

theorem Settled.serves (h : m.Settled) (op : Operation) :
    (m.apply op).1.Settled ∧ ∃ name r, Serves m op name r := by
  rcases plan_forms m op with hq | ⟨sender,frames,now,service,body,rfl,hf,hn⟩ |
    ⟨sender,frames,now,c,front,rfl,hf,hq,hp,hb⟩
  · obtain ⟨hs,hsend,_⟩ := h.follow_of_isQuiet (plan_lawful h.consistent op) hq
    rw [follow_plan] at hs hsend
    exact ⟨hs,"",none,hsend,by simp⟩
  · obtain ⟨r,hr,_⟩ := h.serves_request hf hn
    exact ⟨h.apply_request_settled hf hn,service.toText,r,hr⟩
  · exact h.serves_of_renew hf hq hp hb

theorem Settled.run (h : m.Settled) (ops : List Operation) : (m.run ops).Settled := by
  induction ops generalizing m with
  | nil => exact h
  | cons op ops ih => exact ih (h.serves op).1

/-- After every run no service has both requests and idle workers that wait: where a request
waits, none of the idle workers is bound to its service. So what a message brings about is one
request at most. -/
theorem no_request_waits_beside_idle_worker (interval lifetime now : Nat) (ops : List Operation) :
    let m := (start interval lifetime now).run ops
    (∀ name s, m.services.get? name = some s → s.pending = [] ∨ s.idle = []) ∧
    (∀ name s, m.services.get? name = some s → s.pending ≠ [] →
      ∀ key ∈ m.idle, m.isBound name key = false) ∧
    ∀ sender frames time, (((m.handle sender frames time).1.outbox.drop
      m.outbox.length).filterMap Outbound.request?).length ≤ 1 := by
  intro m
  have h : m.Settled := (settled_start interval lifetime now).run ops
  refine ⟨fun name s hs => ?_,fun name s hs hp key hk => ?_,fun sender frames time => ?_⟩
  · rw [← service_of_get? hs]
    exact h.matched name
  · rw [← service_of_get? hs] at hp
    have hi : m.idle.filter (m.isBound name) = [] := by
      rw [← h.consistent.queues]
      exact (h.matched name).resolve_left hp
    exact Bool.not_eq_true _ ▸ List.filter_eq_nil_iff.mp hi key hk
  · obtain ⟨_,name,r,hr⟩ := h.serves (.handle sender frames time)
    have hsent : ((m.handle sender frames time).1.outbox.drop
        m.outbox.length).filterMap Outbound.request? = r.toList := hr.sends.eq
    rw [hsent]
    cases r <;> simp

/-- After every run the next operation sends one request at most, and it is its turn. A client's
request that finds an idle worker of its service alive is itself sent at once. -/
theorem requests_sent_in_turn (interval lifetime now : Nat) (ops : List Operation)
    (op : Operation) :
    let m := (start interval lifetime now).run ops
    let sent := ((m.apply op).1.outbox.drop m.outbox.length).filterMap Outbound.request?
    sent.length ≤ 1 ∧ (∀ peer e, (peer,e) ∈ sent → ∃ name, InTurn m op name peer e) ∧
    ∀ sender frames time service body, op = .handle sender frames time →
      Wire.Inbound.ofFrames frames = .ok (.client service body) →
      Wire.isInternal service.toText = false →
      (∃ key ∈ (m.service service.toText).idle, m.isLive time key = true) →
      ∃ peer, sent = [(peer,⟨[sender],body⟩)] ∧
        InTurn m op service.toText peer ⟨[sender],body⟩ := by
  intro m sent
  have h : m.Settled := (settled_start interval lifetime now).run ops
  obtain ⟨_,name,r,hsend,hturn⟩ := h.serves op
  have hs : sent = r.toList := hsend.eq
  refine ⟨by rw [hs]; cases r <;> simp,fun peer e hm => ?_,?_⟩
  · rw [hs, Option.mem_toList] at hm
    exact ⟨name,hturn _ hm⟩
  · rintro sender frames time service body rfl hf hn hlive
    obtain ⟨r',hr,hsome⟩ := h.serves_request hf hn
    obtain ⟨⟨peer,e⟩,rfl⟩ := Option.isSome_iff_exists.mp (hsome hlive)
    have hturn : InTurn m _ service.toText peer e := hr.turn _ rfl
    obtain ⟨key,hk,_⟩ := hlive
    have he := hturn.oldest
    rw [h.pending_eq_nil hk, requestFor_request hf] at he
    obtain rfl : ⟨[sender],body⟩ = e := Option.some.inj he
    exact ⟨peer,hr.sends.eq,hturn⟩

/-- A repeated request passes over the front one of two live idle workers. -/
theorem repeated_request_passes_front_worker :
    let ask (client : String) (now : Nat) :=
      Operation.handle (.ofText client) (Wire.clientMessage (.ofText "echo") [.ofText client]) now
    let m := (start 2500 12500 0).run [.handle (.ofText "w1") (Wire.ready "echo") 0,
      .handle (.ofText "w2") (Wire.ready "echo") 0, .handle (.ofText "w3") (Wire.ready "echo") 0,
      ask "c1" 1]
    (m.service "echo").idle = [(Frame.ofText "w2").hex, (Frame.ofText "w3").hex] ∧
    (m.service "echo").idle.all (m.isLive 2) = true ∧
    ((m.apply (ask "c2" 2)).1.outbox.drop m.outbox.length).filterMap Outbound.request? =
      [(.ofText "w3",⟨[.ofText "c2"],[.ofText "c2"]⟩)] := by
  decide

/-- Where the time of the others has run out, a repeated request renews the worker that was longest
idle, though its own may have run out too, and is sent to it. -/
theorem Settled.revives_front_worker (h : m.Settled) {sender service : Frame}
    {frames body : Message} {now : Nat} {key : String} {keys : List String}
    (hf : Wire.Inbound.ofFrames frames = .ok (.client service body))
    (hr : (m.service service.toText).reply = .awaiting)
    (hi : (m.service service.toText).idle = key :: keys)
    (hx : ∀ k ∈ keys, m.isLive now k = false) :
    ∃ peer : Frame, peer.hex = key ∧ Renews peer m (.handle sender frames now) now ∧
      ((m.handle sender frames now).1.outbox.drop m.outbox.length).filterMap Outbound.request? =
        [(peer,⟨[sender],body⟩)] := by
  have hmem : key ∈ (m.service service.toText).idle := hi ▸ List.mem_cons_self ..
  have hb : m.isBound service.toText key = true := h.consistent.isBound_of_mem hmem
  have hn : Wire.isInternal service.toText = false := by
    obtain ⟨w,hw,hs⟩ := isBound_iff.mp hb
    exact h.consistent.external _ (hs ▸ h.consistent.served key w hw)
  obtain ⟨⟨peer,e⟩,hserves,hpeer⟩ :
      ∃ x : Frame × Envelope, Serves m (.handle sender frames now) service.toText (some x) ∧
        x.1.hex = (keys.find? (m.isLive now)).getD key :=
    h.serves_of_idle hf hn hr hi
  have hnone : keys.find? (m.isLive now) = none :=
    List.find?_eq_none.mpr fun k hk => by simp [hx k hk]
  obtain rfl : peer.hex = key := by simpa [hnone] using hpeer
  have he := (hserves.turn _ rfl).oldest
  rw [h.pending_eq_nil hmem, requestFor_request hf] at he
  obtain rfl : ⟨[sender],body⟩ = e := Option.some.inj he
  exact ⟨peer,rfl,⟨rfl,.inr (by simp [retries, hf, hb, hr, hi])⟩,hserves.sends.eq⟩

end Majordomo.Broker.Mediator
