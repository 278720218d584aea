import Majordomo.Proofs.Mediator.Lifetimes

/-! # The order in which time runs out

A sweep takes the idle workers whose time has run out from wherever they stand, and nothing else
changes. Whoever becomes idle becomes the last of the queue with a whole life before it; so if no
clock goes back, the queue is in the order in which the times run out.
-/
namespace Majordomo.Broker.Mediator
variable {m : Mediator} {now : Nat}

def expiry (m : Mediator) (key : String) : Nat := (m.workers.get? key).elim 0 (·.expiry)

theorem expiry_congr {m' : Mediator} {key : String}
    (h : m'.workers.get? key = m.workers.get? key) : m'.expiry key = m.expiry key := by
  simp only [expiry, h]

theorem expiry_of_get? {key : String} {w : Worker} (h : m.workers.get? key = some w) :
    m.expiry key = w.expiry := by
  simp only [expiry, h, Option.elim_some]

theorem isExpired_eq (now : Nat) (m : Mediator) (key : String) :
    m.isExpired now key = decide (m.expiry key ≤ now) := by
  cases hw : m.workers.get? key <;> simp [isExpired, expiry, hw]

theorem isLive_eq (now : Nat) (m : Mediator) (key : String) :
    m.isLive now key = decide (now < m.expiry key) := by
  rw [isLive, isExpired_eq, ← decide_not, decide_eq_decide, Nat.not_le]

theorem isLive_eq_false_of_le {t₁ t₂ : Nat} (hle : t₁ ≤ t₂) {key : String}
    (hd : m.isLive t₁ key = false) : m.isLive t₂ key = false := by
  rw [isLive_eq, decide_eq_false_iff_not] at hd ⊢
  omega

theorem expiry_awaken {key : String} {w : Worker} (h : m.workers.get? key = some w) (k : String) :
    (m.awaken key now).expiry k = if key = k then now + m.lifetime else m.expiry k := by
  rw [awaken_of_get? now h, expiry, workers_updateService, Table.get?_set]
  split <;> rfl

/-! ## Keeping some of the workers -/

def retain (kept : String → Bool) (m : Mediator) : Mediator :=
  { m with
    idle := m.idle.filter kept
    workers := m.workers.keep kept
    services := m.services.mapValues (·.retain kept) }

theorem retain_retain (kept kept' : String → Bool) (m : Mediator) :
    (m.retain kept).retain kept' = m.retain fun key => kept' key && kept key := by
  simp only [retain, List.filter_filter, Table.keep_keep, Table.mapValues_mapValues,
    Service.retain_retain]

namespace Consistent

theorem retain_eq_self (h : m.Consistent) {kept : String → Bool}
    (hk : ∀ key, m.workers.contains key = true → kept key = true) : m.retain kept = m := by
  have hi : m.idle.filter kept = m.idle :=
    List.filter_eq_self.mpr fun key hm => hk key (h.registered key hm)
  have hs : m.services.mapValues (·.retain kept) = m.services := by
    refine h.services_unique.mapValues_eq_self fun name s hs => ?_
    refine Service.retain_eq_self fun key hm => ?_
    rw [← service_of_get? hs, h.queues] at hm
    exact hk key (h.registered key (List.mem_filter.mp hm).1)
  rw [retain, hi, hs, Table.keep_eq_self hk]

/-- Taking out a worker keeps all others, whatever service it is bound to. -/
theorem remove_eq_retain (h : m.Consistent) (key : String) : m.remove key = m.retain (· ≠ key) := by
  cases hw : m.workers.get? key with
  | none =>
    have hc : m.workers.contains key = false := by simp [Table.contains, hw]
    rw [h.remove_eq_self hc]
    refine (h.retain_eq_self fun k hk => decide_eq_true ?_).symm
    rintro rfl
    rw [hc] at hk
    cases hk
  | some w =>
    rw [remove_of_get? hw, retain, Table.erase_eq_keep]
    congr 1
    refine h.services_unique.modify_eq_mapValues fun name s hs hn => ?_
    refine Service.retain_eq_self fun k hk => decide_eq_true ?_
    rintro rfl
    rw [← service_of_get? hs, h.queues] at hk
    obtain ⟨v,hv,hvs⟩ := isBound_iff.mp (List.mem_filter.mp hk).2
    obtain rfl := Option.some.inj (hw.symm.trans hv)
    exact hn hvs.symm

theorem follow_remove_eq_retain (h : m.Consistent) (keys : List String) :
    m.follow (keys.map .remove) = m.retain (· ∉ keys) := by
  induction keys generalizing m with
  | nil => exact (h.retain_eq_self (by simp)).symm
  | cons key keys ih =>
    rw [List.map_cons, follow_cons, act_remove, ih (h.remove key), h.remove_eq_retain,
      retain_retain]
    congr 1
    funext k
    by_cases hk : k = key <;> simp [hk]

/-- A sweep keeps who is busy or alive. -/
theorem sweep_eq_retain (h : m.Consistent) (now : Nat) :
    m.sweep now = m.retain fun key => key ∉ m.idle || m.isLive now key := by
  rw [← follow_sweepPlan, sweepPlan, h.follow_remove_eq_retain]
  congr 1
  funext key
  by_cases hk : key ∈ m.idle <;> simp [isLive, hk]

end Consistent

/-! ## Sweeping twice -/

/-- Who is alive later was kept by the earlier sweep. -/
theorem isLive_sweep_of_le {t₁ t₂ : Nat} (hle : t₁ ≤ t₂) (m : Mediator) (key : String) :
    (m.sweep t₁).isLive t₂ key = m.isLive t₂ key := by
  cases hl : m.isLive t₁ key with
  | true => exact isLive_congr t₂ (get?_workers_sweep_of_isLive hl)
  | false =>
    have hd : (m.sweep t₁).isLive t₁ key = false := (isLive_sweep t₁ m key).trans hl
    rw [isLive_eq_false_of_le hle hl, isLive_eq_false_of_le hle hd]

/-- An earlier sweep makes no difference to a later one. -/
theorem Consistent.sweep_sweep (h : m.Consistent) {t₁ t₂ : Nat} (hle : t₁ ≤ t₂) :
    (m.sweep t₁).sweep t₂ = m.sweep t₂ := by
  rw [(h.sweep t₁).sweep_eq_retain, h.sweep_eq_retain t₂, idle_sweep]
  simp only [isLive_sweep_of_le hle]
  rw [h.sweep_eq_retain t₁, retain_retain]
  congr 1
  funext key
  cases hl : m.isLive t₁ key with
  | true => by_cases hk : key ∈ m.idle <;> simp [hk, hl]
  | false => simp [hl, isLive_eq_false_of_le hle hl]

/-! ## The order of the queue -/

/-- The idle workers stand in the order in which their times run out, none of them later than
`latest`. -/
structure Ordered (latest : Nat) (m : Mediator) : Prop where
  sorted : m.idle.Pairwise fun key next => m.expiry key ≤ m.expiry next
  bounded : ∀ key ∈ m.idle, m.expiry key ≤ latest

theorem ordered_start (interval lifetime now latest : Nat) :
    (start interval lifetime now).Ordered latest where
  sorted := List.Pairwise.nil
  bounded := by simp [start]

namespace Ordered
variable {latest : Nat}

theorem mono (h : m.Ordered latest) {later : Nat} (hle : latest ≤ later) : m.Ordered later :=
  ⟨h.sorted,fun key hk => Nat.le_trans (h.bounded key hk) hle⟩

/-- Whoever stays idle keeps its place and its time. -/
theorem of_sublist {m' : Mediator} (h : m.Ordered latest) (hi : m'.idle.Sublist m.idle)
    (he : ∀ key ∈ m'.idle, m'.expiry key = m.expiry key) : m'.Ordered latest := by
  refine ⟨(h.sorted.sublist hi).imp_of_mem fun ha hb hab => ?_,fun key hk => ?_⟩
  · rwa [he _ ha, he _ hb]
  · rw [he key hk]
    exact h.bounded key (hi.subset hk)

/-- Whoever is woken has the most time, and is the last. -/
theorem awaken (h : m.Ordered (now + m.lifetime)) (key : String) :
    (m.awaken key now).Ordered (now + m.lifetime) := by
  cases hw : m.workers.get? key with
  | none => rwa [awaken_of_get?_eq_none now hw]
  | some w =>
    have hi : (m.awaken key now).idle = m.idle.filter (· ≠ key) ++ [key] := by
      rw [awaken_of_get? now hw, idle_updateService]
    have hkey : (m.awaken key now).expiry key = now + m.lifetime := by
      rw [expiry_awaken hw, if_pos rfl]
    have hother (k : String) (hk : k ∈ m.idle.filter (· ≠ key)) :
        (m.awaken key now).expiry k = m.expiry k ∧ m.expiry k ≤ now + m.lifetime := by
      obtain ⟨hm,hne⟩ := List.mem_filter.mp hk
      have hne : key ≠ k := fun e => of_decide_eq_true hne e.symm
      rw [expiry_awaken hw, if_neg hne]
      exact ⟨rfl,h.bounded k hm⟩
    constructor
    · rw [hi]
      refine List.pairwise_append.mpr ⟨?_,List.pairwise_singleton ..,fun k hk l hl => ?_⟩
      · refine (h.sorted.filter _).imp_of_mem fun ha hb hab => ?_
        rwa [(hother _ ha).1, (hother _ hb).1]
      · rw [List.mem_singleton.mp hl, hkey, (hother k hk).1]
        exact (hother k hk).2
    · intro k hk
      rw [hi] at hk
      rcases List.mem_append.mp hk with hk | hk
      · rw [(hother k hk).1]
        exact (hother k hk).2
      · rw [List.mem_singleton.mp hk]
        exact Nat.le_of_eq hkey

end Ordered

namespace Consistent

/-- Only whom an action wakes gets another place, and that is the last one. -/
theorem ordered_act (h : m.Consistent) {a : Action} (hl : a.Lawful m)
    (ha : ∀ (peer : Frame) time, a = .wake peer.hex time → time = now)
    (ho : m.Ordered (now + m.lifetime)) : (m.act a).Ordered (now + m.lifetime) := by
  cases a with
  | emit | queue | settle | schedule => exact ho.of_sublist (.refl _) fun _ _ => rfl
  | require n =>
    rw [act_require]
    exact ho.of_sublist (by rw [idle_require]) fun key _ => expiry_congr (by rw [workers_require])
  | enrol identity service expiry =>
    refine ho.of_sublist (.refl _) fun key hk => expiry_congr ((Table.get?_set ..).trans ?_)
    -- nobody who is idle is a newcomer
    refine if_neg ?_
    rintro rfl
    have hf := hl.1
    rw [h.registered _ hk] at hf
    cases hf
  | wake key time =>
    rw [act_wake]
    cases hw : m.workers.get? key with
    | none => rwa [awaken_of_get?_eq_none time hw]
    | some w =>
      obtain rfl := ha w.identity time (by rw [h.keyed key w hw])
      exact ho.awaken key
  | remove key =>
    rw [act_remove]
    refine ho.of_sublist (by rw [idle_remove]; exact List.filter_sublist) fun k hk => ?_
    rw [idle_remove] at hk
    have hne : key ≠ k := fun e => of_decide_eq_true (List.mem_filter.mp hk).2 e.symm
    exact expiry_congr (by rw [get?_workers_remove, if_neg hne])
  | pair n =>
    rw [act_pair]
    refine ho.of_sublist ?_ fun key _ => expiry_congr (by rw [workers_pairOldest])
    rcases h.pairOldest_cases n with ⟨hm,_⟩ | ⟨_,_,_,_,_,_,_,_,_,_,hm⟩
    · rw [hm]
    · rw [hm]
      exact List.filter_sublist

theorem ordered_follow (h : m.Consistent) {plan : List Action} (hl : m.LawfulPlan plan)
    (ha : ∀ (peer : Frame) time, .wake peer.hex time ∈ plan → time = now)
    (ho : m.Ordered (now + m.lifetime)) : (m.follow plan).Ordered (now + m.lifetime) := by
  induction plan generalizing m with
  | nil => exact ho
  | cons a plan ih =>
    have hfirst (peer : Frame) (time : Nat) (hw : a = .wake peer.hex time) : time = now :=
      ha peer time (hw ▸ List.mem_cons_self ..)
    have hstep := h.ordered_act hl.1 hfirst ho
    rw [← lifetime_act m a] at hstep ⊢
    exact ih (h.act hl.1) hl.2 (fun peer time hw => ha peer time (List.mem_cons_of_mem a hw)) hstep

/-- An operation wakes workers at its own time, which no earlier one has passed. -/
theorem ordered_apply (h : m.Consistent) {op : Operation} {clock : Nat}
    (hc : ∀ time, op.time? = some time → clock ≤ time) (ho : m.Ordered (clock + m.lifetime)) :
    (m.apply op).1.Ordered (op.time?.getD clock + (m.apply op).1.lifetime) := by
  have hle : clock ≤ op.time?.getD clock := by
    cases ht : op.time? with
    | none => exact Nat.le_refl _
    | some time => exact hc time ht
  rw [← follow_plan, lifetime_follow]
  refine h.ordered_follow (plan_lawful h op) (fun peer time hw => ?_) (ho.mono (by omega))
  rw [(h.renews_of_wake hw).1]
  rfl

theorem ordered_run (h : m.Consistent) {ops : List Operation} {clock : Nat}
    (ht : (clock :: ops.filterMap (·.time?)).Pairwise (· ≤ ·))
    (ho : m.Ordered (clock + m.lifetime)) : ∃ latest, (m.run ops).Ordered latest := by
  induction ops generalizing m clock with
  | nil => exact ⟨_,ho⟩
  | cons op ops ih =>
    have hc : ∀ time, op.time? = some time → clock ≤ time := fun time htime =>
      (List.pairwise_cons.mp ht).1 time (by simp [htime])
    refine ih (h.apply op) ?_ (h.ordered_apply hc ho)
    cases htime : op.time? with
    | none => rwa [List.filterMap_cons_none htime] at ht
    | some time =>
      rw [List.filterMap_cons_some htime] at ht
      exact (List.pairwise_cons.mp ht).2

end Consistent

/-- In a sorted list what does not exceed a bound stands in front. -/
theorem filter_append_filter_of_pairwise {f : String → Nat} {l : List String}
    (h : l.Pairwise fun a b => f a ≤ f b) (n : Nat) :
    l.filter (f · ≤ n) ++ l.filter (n < f ·) = l := by
  induction l with
  | nil => rfl
  | cons a l ih =>
    obtain ⟨ha,hl⟩ := List.pairwise_cons.mp h
    by_cases hn : f a ≤ n
    · simp [hn, ih hl]
    · have hlate : ∀ b ∈ a :: l, n < f b := by
        intro b hb
        rcases List.mem_cons.mp hb with rfl | hb
        · omega
        · have hab := ha b hb
          omega
      have hnone : (a :: l).filter (f · ≤ n) = [] :=
        List.filter_eq_nil_iff.mpr fun b hb => by simpa using hlate b hb
      rw [hnone, List.filter_eq_self.mpr fun b hb => decide_eq_true (hlate b hb), List.nil_append]

/-- So a sweep takes the front of the queue. -/
theorem Ordered.idle_eq {latest : Nat} (h : m.Ordered latest) (now : Nat) :
    m.idle = m.idle.filter (m.isExpired now) ++ (m.sweep now).idle := by
  have hexpired : m.isExpired now = (m.expiry · ≤ now) := funext (isExpired_eq now m)
  have hlive : m.isLive now = (now < m.expiry ·) := funext (isLive_eq now m)
  rw [idle_sweep, hexpired, hlive, filter_append_filter_of_pairwise h.sorted]

/-- After every run, a sweep takes exactly those idle workers whose time has run out, from the
registry, from the queue of all idle workers and from that of their service; everybody else keeps
its place, and nothing else changes. An earlier sweep makes no difference to a later one. If the
times of the run never decrease, the idle workers stand in the order in which their times run out,
and those that a sweep takes are the first of them. -/
theorem sweeps_are_exact (interval lifetime now : Nat) (ops : List Operation) :
    let m := (start interval lifetime now).run ops
    (∀ time, m.sweep time = m.retain (fun key => key ∉ m.idle || m.isLive time key) ∧
      (m.sweep time).idle = m.idle.filter (m.isLive time) ∧
      (∀ name, (m.sweep time).services.get? name =
        (m.services.get? name).map (·.retain (m.isLive time))) ∧
      ∀ key w, m.workers.get? key = some w → (m.sweep time).workers.get? key =
        if key ∈ m.idle ∧ w.expiry ≤ time then none else some w) ∧
    (∀ earlier later, earlier ≤ later → (m.sweep earlier).sweep later = m.sweep later) ∧
    ((ops.filterMap (·.time?)).Pairwise (· ≤ ·) →
      (m.idle.Pairwise fun key next => ∃ v w, m.workers.get? key = some v ∧
        m.workers.get? next = some w ∧ v.expiry ≤ w.expiry) ∧
      ∀ time, m.idle = m.idle.filter (m.isExpired time) ++ (m.sweep time).idle) := by
  intro m
  have hs : (start interval lifetime now).Consistent := consistent_start interval lifetime now
  have h : m.Consistent := hs.run ops
  refine ⟨fun time => ⟨h.sweep_eq_retain time,idle_sweep time m,fun name => ?_,fun key w hw => ?_⟩,
    fun earlier later => h.sweep_sweep,fun ht => ?_⟩
  · rw [h.sweep_eq_retain, retain, Table.get?_mapValues]
    cases hg : m.services.get? name with
    | none => rfl
    | some s =>
      refine congrArg some (Service.retain_congr fun key hk => ?_)
      rw [← service_of_get? hg, h.queues] at hk
      simp [(List.mem_filter.mp hk).1]
  · rw [h.sweep_eq_retain, retain, Table.get?_keep, hw, isLive, isExpired_eq, expiry_of_get? hw]
    by_cases hk : key ∈ m.idle <;> by_cases hx : w.expiry ≤ time <;> simp [hk, hx]
  · obtain ⟨latest,ho⟩ := hs.ordered_run (List.pairwise_cons.mpr ⟨fun _ _ => Nat.zero_le _,ht⟩)
      (ordered_start interval lifetime now _)
    refine ⟨ho.sorted.imp_of_mem fun {key next} hk hn hle => ?_,ho.idle_eq⟩
    obtain ⟨v,hv⟩ := h.get?_of_mem_idle hk
    obtain ⟨w,hw⟩ := h.get?_of_mem_idle hn
    rw [expiry_of_get? hv, expiry_of_get? hw] at hle
    exact ⟨v,w,hv,hw,hle⟩

/-- If a clock goes back, a sweep may take somebody from behind. -/
example :
    let m := (start 2500 12500 0).run [.handle (.ofText "w1") (Wire.ready "echo") 10,
      .handle (.ofText "w2") (Wire.ready "echo") 0]
    m.idle = [(Frame.ofText "w1").hex, (Frame.ofText "w2").hex] ∧
    (m.sweep 12505).idle = [(Frame.ofText "w1").hex] := by
  decide

end Majordomo.Broker.Mediator
