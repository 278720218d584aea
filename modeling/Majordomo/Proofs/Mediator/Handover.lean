import Majordomo.Proofs.Mediator.Lifetimes

/-! # What a dispatch hands over

Between two operations no service has both a request and an idle worker that wait. So a dispatch
has one pair to make at most: the oldest request goes to the first of the idle workers that is
alive.
-/
namespace Majordomo.Broker

def Outbound.request? (o : Outbound) : Option (Frame × Envelope) :=
  (Wire.requestOf? o.frames).map (o.peer,·)

namespace Mediator
variable {m : Mediator}

/-- On the way from `m` to `m'` these requests are sent. -/
def Sends (m m' : Mediator) (rs : List (Frame × Envelope)) : Prop :=
  ∃ os, m'.outbox = m.outbox ++ os ∧ os.filterMap Outbound.request? = rs

theorem sends_nil {m' : Mediator} (h : m'.outbox = m.outbox) : Sends m m' [] :=
  ⟨[],by rw [h, List.append_nil],rfl⟩

namespace Sends
variable {m' : Mediator} {rs : List (Frame × Envelope)}

theorem trans {m'' : Mediator} {rs' : List (Frame × Envelope)} (h : Sends m m' rs)
    (h' : Sends m' m'' rs') : Sends m m'' (rs ++ rs') := by
  obtain ⟨os,ho,rfl⟩ := h
  obtain ⟨os',ho',rfl⟩ := h'
  exact ⟨os ++ os',by rw [ho', ho, List.append_assoc],List.filterMap_append⟩

theorem eq (h : Sends m m' rs) :
    (m'.outbox.drop m.outbox.length).filterMap Outbound.request? = rs := by
  obtain ⟨os,ho,rfl⟩ := h
  rw [ho, List.drop_left]

end Sends

/-! ## One pair -/

namespace Consistent

/-- Once a service has given what one request or one worker allows, it has no more to give. -/
theorem pairOldest_pairOldest (h : m.Consistent) {name : String}
    (hle : (m.service name).pending.length ≤ 1 ∨ (m.service name).idle.length ≤ 1) :
    (m.pairOldest name).pairOldest name = m.pairOldest name := by
  rcases h.pairOldest_cases name with ⟨hm,_⟩ | ⟨e,es,key,keys,w,hp,hi,_,_,_,hm⟩
  · rw [hm, hm]
  · have hs : (m.given name key e w).service name = ⟨es,keys,.awaiting⟩ := by
      rw [service_given, if_pos rfl, hp, hi]
      rfl
    rw [hm]
    rcases hle with hle | hle
    · have he : es = [] := by simpa [hp] using hle
      exact pairOldest_of_pending_eq_nil (by rw [hs, he])
    · have hk : keys = [] := by simpa [hi] using hle
      exact pairOldest_of_idle_eq_nil (by rw [hs, hk])

theorem dispatch_eq_pairOldest (h : m.Consistent) {name : String} (now : Nat)
    (hle : (m.service name).pending.length ≤ 1 ∨ (m.service name).idle.length ≤ 1) :
    m.dispatch name now = (m.sweep now).pairOldest name := by
  have hs : (m.sweep now).service name = (m.service name).retain (m.isLive now) :=
    h.service_sweep now name
  have hle : ((m.sweep now).service name).pending.length ≤ 1 ∨
      ((m.sweep now).service name).idle.length ≤ 1 := by
    rw [hs]
    exact hle.imp_right (Nat.le_trans (List.length_filter_le ..))
  have hn : ((m.sweep now).services.get? name).elim 0 (·.pending.length) =
      ((m.sweep now).service name).pending.length := by
    cases hg : (m.sweep now).services.get? name <;> simp [service, hg]
  rw [dispatch, pairAll, hn]
  have hc := h.sweep now
  -- the loop turns once for every request that waits, and only its first turn changes anything
  generalize m.sweep now = t at hle hc
  cases hp : (t.service name).pending with
  | nil => exact (pairOldest_of_pending_eq_nil hp).symm
  | cons e es =>
    rw [List.length_cons]
    induction es.length with
    | zero => rfl
    | succ n ih => rw [Nat.repeat, ih, hc.pairOldest_pairOldest hle]

end Consistent

/-! ## Between two operations -/

/-- What holds between two operations. -/
structure Settled (m : Mediator) : Prop where
  consistent : m.Consistent
  /-- No service has both a request and an idle worker that wait. -/
  matched : ∀ name, (m.service name).pending = [] ∨ (m.service name).idle = []
  /-- Nobody is idle where a life is over at once. -/
  lasting : ∀ key ∈ m.idle, 0 < m.lifetime

theorem Settled.pending_eq_nil (h : m.Settled) {name key : String}
    (hk : key ∈ (m.service name).idle) : (m.service name).pending = [] :=
  (h.matched name).resolve_right (List.ne_nil_of_mem hk)

theorem settled_start (interval lifetime now : Nat) : (start interval lifetime now).Settled where
  consistent := consistent_start interval lifetime now
  matched _ := .inl rfl
  lasting := by simp [start]

theorem Settled.mono {m' : Mediator} (h : m.Settled) (hc : m'.Consistent)
    (hp : ∀ name, (m'.service name).pending = (m.service name).pending)
    (hi : ∀ name, (m'.service name).idle ⊆ (m.service name).idle)
    (hl : m'.lifetime = m.lifetime) : m'.Settled where
  consistent := hc
  matched name := by
    rw [hp]
    refine (h.matched name).imp_right fun hn => ?_
    exact List.subset_nil.mp (hn ▸ hi name)
  lasting key hk := by
    obtain ⟨w,hw⟩ := hc.get?_of_mem_idle hk
    have hm : key ∈ (m'.service w.service).idle := by
      rw [hc.queues]
      exact List.mem_filter.mpr ⟨hk,isBound_iff.mpr ⟨w,hw,rfl⟩⟩
    have hm := hi w.service hm
    rw [h.consistent.queues] at hm
    exact hl ▸ h.lasting key (List.mem_filter.mp hm).1

@[simp] theorem lifetime_sweep (now : Nat) (m : Mediator) : (m.sweep now).lifetime = m.lifetime := by
  rw [← follow_sweepPlan, lifetime_follow]

/-! ## Dispatches -/

namespace Consistent
variable {name : String} {now : Nat}

/-- A dispatch settles its service. -/
theorem settled_dispatch (h : m.Consistent)
    (hle : (m.service name).pending.length ≤ 1 ∨ (m.service name).idle.length ≤ 1)
    (hm : ∀ n, n ≠ name → (m.service n).pending = [] ∨ (m.service n).idle = [])
    (hl : ∀ key ∈ m.idle, m.isLive now key = true → 0 < m.lifetime) :
    (m.dispatch name now).Settled := by
  rw [h.dispatch_eq_pairOldest now hle]
  have hc := (h.sweep now).act (a := .pair name) trivial
  have hothers (n : String) (hn : n ≠ name) : ((m.sweep now).service n).pending = [] ∨
      ((m.sweep now).service n).idle = [] := by
    rw [h.service_sweep]
    exact (hm n hn).imp_right fun hi => by simp [hi]
  have hlast (key : String) (hk : key ∈ (m.sweep now).idle) : 0 < (m.sweep now).lifetime := by
    rw [idle_sweep] at hk
    obtain ⟨hk,hlive⟩ := List.mem_filter.mp hk
    exact lifetime_sweep now m ▸ hl key hk hlive
  refine ⟨hc,fun n => ?_,fun key hk => ?_⟩
  · rcases (h.sweep now).pairOldest_cases name with ⟨hq,hd⟩ | ⟨e,es,key,keys,w,hp,hi,_,_,_,hq⟩
    · rw [hq]
      by_cases hn : n = name
      · exact hn ▸ hd
      · exact hothers n hn
    · rw [hq, service_given]
      split
      · rw [h.service_sweep] at hp hi ⊢
        rw [Service.pending_retain] at hp ⊢
        rw [Service.idle_retain] at hi ⊢
        rcases hle with hle | hle
        · have he : es = [] := by simpa [hp] using hle
          exact .inl (by rw [hp, he]; rfl)
        · have hle := Nat.le_trans (List.length_filter_le (m.isLive now) _) hle
          have hk : keys = [] := by simpa [hi] using hle
          exact .inr (by rw [hi, hk]; rfl)
      · rename_i hn
        exact hothers n (Ne.symm hn)
  · have ht : (m.sweep now |>.pairOldest name).lifetime = (m.sweep now).lifetime :=
      lifetime_act (m.sweep now) (.pair name)
    exact ht ▸ hlast key (idle_pairOldest_subset name _ hk)

theorem find?_sweep (h : m.Consistent) (name : String) (now : Nat) :
    ((m.sweep now).service name).idle.find? ((m.sweep now).isLive now) =
      (m.service name).idle.find? (m.isLive now) := by
  have hlive : (m.sweep now).isLive now = m.isLive now := funext (isLive_sweep now m)
  rw [h.service_sweep, Service.idle_retain, hlive, List.find?_filter]
  simp

/-- A dispatch of a service that has no request, or nobody alive to take one, only sweeps. -/
theorem dispatch_eq_sweep (h : m.Consistent)
    (hn : (m.service name).pending = [] ∨ (m.service name).idle.find? (m.isLive now) = none) :
    m.dispatch name now = m.sweep now := by
  have hs := h.service_sweep now name
  rcases hn with hp | hi
  · rw [h.dispatch_eq_pairOldest now (.inl (by simp [hp]))]
    exact pairOldest_of_pending_eq_nil (by rw [hs, Service.pending_retain, hp])
  · have hi : (m.sweep now |>.service name).idle = [] := by
      rw [hs, Service.idle_retain]
      exact List.filter_eq_nil_iff.mpr (by simpa using hi)
    rw [dispatch, pairAll]
    induction ((m.sweep now).services.get? name).elim 0 (·.pending.length) with
    | zero => rfl
    | succ n ih => rw [Nat.repeat, ih, pairOldest_of_idle_eq_nil hi]

/-- A dispatch with one pair to make gives the oldest request to the first that is alive. -/
theorem dispatch_eq_given (h : m.Consistent)
    (hle : (m.service name).pending.length ≤ 1 ∨ (m.service name).idle.length ≤ 1)
    {e : Envelope} {es : List Envelope} {key : String} (hp : (m.service name).pending = e :: es)
    (hk : (m.service name).idle.find? (m.isLive now) = some key) :
    ∃ w, m.workers.get? key = some w ∧ w.identity.hex = key ∧
      m.dispatch name now = (m.sweep now).given name key e w ∧
      Sends m (m.dispatch name now) [(w.identity,e)] := by
  have hs := h.service_sweep now name
  obtain ⟨w,hw,hlt⟩ := isLive_iff.mp (List.find?_some hk)
  have hw' : (m.sweep now).workers.get? key = some w := by
    rw [get?_workers_sweep_of_isLive (List.find?_some hk), hw]
  rw [← List.head?_filter, List.head?_eq_some_iff] at hk
  obtain ⟨keys,hi⟩ := hk
  have hq : m.dispatch name now = (m.sweep now).given name key e w := by
    rw [h.dispatch_eq_pairOldest now hle]
    exact pairOldest_eq_given (by rw [hs, Service.pending_retain, hp]) (by rw [hs, ← hi]; rfl) hw'
  refine ⟨w,hw,(h.keyed key w hw).symm,hq,[⟨w.identity,Wire.request e⟩],?_,?_⟩
  · rw [hq, Mediator.given, emit, outbox_sweep]
  · have he : Wire.requestOf? (Wire.request e) = some e :=
      Wire.requestOf?_request (h.addressed name e (hp ▸ List.mem_cons_self ..))
    simp [Outbound.request?, he]

end Consistent

/-! ## Renewals -/

theorem renew_of_get?_eq_none {key : String} (now : Nat) (h : m.workers.get? key = none) :
    m.renew key now = m := by
  simp only [renew, h]

theorem renew_of_get? {key : String} {w : Worker} (now : Nat) (h : m.workers.get? key = some w) :
    m.renew key now = (m.awaken key now).dispatch w.service now := by
  simp only [renew, awaken, h]

theorem service_awaken_of_get? {key : String} {w : Worker} (now : Nat)
    (h : m.workers.get? key = some w) (name : String) :
    (m.awaken key now).service name =
      if w.service = name then
        { m.service w.service with
          idle := (m.service w.service).idle.filter (· ≠ key) ++ [key] }
      else m.service name := by
  rw [awaken_of_get? now h, service_updateService]
  rfl

theorem isLive_awaken {key : String} {w : Worker} (now : Nat) (h : m.workers.get? key = some w)
    (k : String) :
    (m.awaken key now).isLive now k =
      if k = key then decide (0 < m.lifetime) else m.isLive now k := by
  by_cases hk : k = key
  · subst hk
    have hg : (m.awaken k now).workers.get? k = some { w with expiry := now + m.lifetime } := by
      rw [awaken_of_get? now h, workers_updateService, Table.get?_set, if_pos rfl]
    simp only [isLive, isExpired, hg, if_true, ← decide_not]
    exact decide_eq_decide.mpr (by omega)
  · have hne : key ≠ k := fun e => hk e.symm
    rw [if_neg hk]
    refine isLive_congr now ?_
    rw [awaken_of_get? now h, workers_updateService, Table.get?_set, if_neg hne]

/-- A worker that is alone in the queue of its service when it is woken. -/
theorem find?_awaken_of_idle_eq_nil {key : String} {w : Worker} (now : Nat)
    (h : m.workers.get? key = some w) (hi : (m.service w.service).idle = []) :
    ((m.awaken key now).service w.service).idle.find? ((m.awaken key now).isLive now) =
      if 0 < m.lifetime then some key else none := by
  rw [service_awaken_of_get? now h, if_pos rfl, hi]
  by_cases hl : 0 < m.lifetime <;> simp [isLive_awaken now h, hl]

namespace Settled
variable {key : String} {w : Worker}

theorem length_le_one (h : m.Settled) (hw : m.workers.get? key = some w) (now : Nat) :
    ((m.awaken key now).service w.service).pending.length ≤ 1 ∨
      ((m.awaken key now).service w.service).idle.length ≤ 1 := by
  rw [service_awaken_of_get? now hw, if_pos rfl]
  exact (h.matched w.service).imp (fun hp => by simp [hp]) fun hi => by simp [hi]

theorem renew (h : m.Settled) (key : String) (now : Nat) : (m.renew key now).Settled := by
  cases hw : m.workers.get? key with
  | none => rwa [renew_of_get?_eq_none now hw]
  | some w =>
    rw [renew_of_get? now hw]
    refine (h.consistent.awaken key now).settled_dispatch (h.length_le_one hw now)
      (fun n hn => ?_) fun k hk hlive => ?_
    · rw [service_awaken_of_get? now hw, if_neg (Ne.symm hn)]
      exact h.matched n
    · have ht : (m.awaken key now).lifetime = m.lifetime := lifetime_act m (.wake key now)
      rw [ht]
      rcases (mem_idle_awaken now hw k).mp hk with rfl | hk
      · rw [isLive_awaken now hw, if_pos rfl] at hlive
        exact of_decide_eq_true hlive
      · exact h.lasting k hk

/-- A worker that is woken while nothing waits for it is given nothing. -/
theorem renew_eq_sweep (h : m.Settled) (hw : m.workers.get? key = some w) (now : Nat)
    (hp : (m.service w.service).pending = []) :
    m.renew key now = (m.awaken key now).sweep now := by
  rw [renew_of_get? now hw]
  apply (h.consistent.awaken key now).dispatch_eq_sweep
  rw [service_awaken_of_get? now hw, if_pos rfl]
  exact .inl hp

/-- A worker that is woken is given the oldest request of its service, if it lives at all; then
nobody of the service is idle. -/
theorem sends_renew (h : m.Settled) (hw : m.workers.get? key = some w) (now : Nat)
    {e : Envelope} {es : List Envelope} (hp : (m.service w.service).pending = e :: es) :
    (Sends m (m.renew key now) [] ∨ Sends m (m.renew key now) [(w.identity,e)]) ∧
      ((m.renew key now).service w.service).idle = [] := by
  have hc := h.consistent.awaken key now
  have hi : (m.service w.service).idle = [] :=
    (h.matched w.service).resolve_left (by simp [hp])
  have hf := find?_awaken_of_idle_eq_nil now hw hi
  have hs := service_awaken_of_get? now hw w.service
  rw [if_pos rfl, hi] at hs
  have hp' : ((m.awaken key now).service w.service).pending = e :: es := by rw [hs]; exact hp
  rw [renew_of_get? now hw]
  by_cases hl : 0 < m.lifetime
  · rw [if_pos hl] at hf
    obtain ⟨v,hv,hk,hq,hsend⟩ := hc.dispatch_eq_given (h.length_le_one hw now) hp' hf
    have hwv : v.identity = w.identity := Frame.hex_inj (hk.trans (h.consistent.keyed key w hw))
    refine ⟨.inr ?_,?_⟩
    · rw [← hwv]
      obtain ⟨os,ho,hr⟩ := hsend
      exact ⟨os,by rw [ho, outbox_awaken],hr⟩
    · rw [hq, service_given, if_pos rfl, hc.service_sweep, hs]
      simp [isLive_awaken now hw, hl]
  · rw [if_neg hl] at hf
    rw [hc.dispatch_eq_sweep (.inr hf)]
    refine ⟨.inl (sends_nil (by simp)),?_⟩
    rw [hc.service_sweep, hs]
    simp [isLive_awaken now hw, hl]

/-! ## New requests -/

variable {name : String} {e : Envelope}

theorem length_le_one_queue (h : m.Settled) (name : String) (e : Envelope) :
    ((m.act (.queue name e)).service name).pending.length ≤ 1 ∨
      ((m.act (.queue name e)).service name).idle.length ≤ 1 := by
  rw [act_queue, service_updateService, if_pos rfl]
  exact (h.matched name).imp (fun hp => by simp [hp]) fun hi => by simp [hi]

theorem enqueue (h : m.Settled) (hn : m.services.contains name = true) (he : e.depth = 1)
    (now : Nat) : ((m.act (.queue name e)).dispatch name now).Settled := by
  refine (h.consistent.act (a := .queue name e) ⟨hn,he⟩).settled_dispatch
    (h.length_le_one_queue name e) (fun n hn => ?_) fun k hk _ => h.lasting k hk
  rw [act_queue, service_updateService, if_neg (Ne.symm hn)]
  exact h.matched n

/-- A new request goes to the first idle worker that is alive. -/
theorem sends_enqueue (h : m.Settled) (hn : m.services.contains name = true) (he : e.depth = 1)
    {now : Nat} {key : String} (hk : (m.service name).idle.find? (m.isLive now) = some key) :
    ∃ w, m.workers.get? key = some w ∧ w.identity.hex = key ∧ (m.service name).pending = [] ∧
      Sends m ((m.act (.queue name e)).dispatch name now) [(w.identity,e)] := by
  have hp : (m.service name).pending = [] := h.pending_eq_nil (List.mem_of_find?_eq_some hk)
  have hs : (m.act (.queue name e)).service name = { m.service name with pending := [e] } := by
    rw [act_queue, service_updateService, if_pos rfl, hp]
    rfl
  have hp' : ((m.act (.queue name e)).service name).pending = [e] := by rw [hs]
  obtain ⟨w,hw,hx,_,hsend⟩ :=
    (h.consistent.act (a := .queue name e) ⟨hn,he⟩).dispatch_eq_given
      (h.length_le_one_queue name e) hp' (by rw [hs]; exact hk)
  exact ⟨w,hw,hx,hp,hsend⟩

/-- A new request waits if no idle worker is alive. -/
theorem sends_enqueue_nil (h : m.Settled) (hn : m.services.contains name = true)
    (he : e.depth = 1) {now : Nat} (hk : (m.service name).idle.find? (m.isLive now) = none) :
    Sends m ((m.act (.queue name e)).dispatch name now) [] := by
  have hs : ((m.act (.queue name e)).service name).idle = (m.service name).idle := by
    rw [act_queue, service_updateService, if_pos rfl]
  rw [(h.consistent.act (a := .queue name e) ⟨hn,he⟩).dispatch_eq_sweep
    (.inr (by rw [hs]; exact hk))]
  exact sends_nil (by rw [outbox_sweep, act_queue, outbox_updateService])

end Settled

end Mediator
end Majordomo.Broker
