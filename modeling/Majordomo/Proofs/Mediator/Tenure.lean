import Majordomo.Proofs.Mediator.Duty
import Majordomo.Proofs.Mediator.Handover
import Majordomo.Proofs.Mediator.Lifetimes

/-! # How long a worker stays registered

A worker that was heard from stays registered for the life that it was granted then, whatever the
broker does for others in the meantime; only its own farewell, a second READY of it or a farewell
of the broker to all takes it out of the registry before.
-/
namespace Majordomo.Broker.Mediator
variable {m m' : Mediator} {key : String} {due now : Nat}

def Holds (key : String) (due : Nat) (m : Mediator) : Prop :=
  ∃ w, m.workers.get? key = some w ∧ due ≤ w.expiry

theorem Holds.contains (h : m.Holds key due) : m.workers.contains key = true := by
  obtain ⟨w,hw,_⟩ := h
  exact (Table.contains_iff ..).mpr ⟨w,hw⟩

theorem Holds.congr (h : m.Holds key due) (hw : m'.workers = m.workers) : m'.Holds key due := by
  obtain ⟨w,hk,hd⟩ := h
  exact ⟨w,by rw [hw, hk],hd⟩

theorem Holds.isLive (h : m.Holds key due) (hn : now < due) : m.isLive now key = true := by
  obtain ⟨w,hw,hd⟩ := h
  exact isLive_iff.mpr ⟨w,hw,Nat.lt_of_lt_of_le hn hd⟩

/-! ## Dispatches and renewals -/

theorem workers_pairAll (name : String) (m : Mediator) :
    (m.pairAll name).workers = m.workers := by
  unfold pairAll
  generalize (m.services.get? name).elim 0 (·.pending.length) = n
  induction n with
  | zero => rfl
  | succ n ih => rw [Nat.repeat, workers_pairOldest, ih]

theorem Holds.sweep (h : m.Holds key due) (hn : now < due) : (m.sweep now).Holds key due := by
  obtain ⟨w,hw,hd⟩ := h
  refine ⟨w,?_,hd⟩
  rw [get?_workers_sweep_of_isLive (isLive_iff.mpr ⟨w,hw,Nat.lt_of_lt_of_le hn hd⟩), hw]

theorem Holds.dispatch (h : m.Holds key due) (hn : now < due) (name : String) :
    (m.dispatch name now).Holds key due :=
  (h.sweep hn).congr (workers_pairAll name _)

theorem Holds.remove (h : m.Holds key due) {k : String} (hk : k ≠ key) :
    (m.remove k).Holds key due := by
  obtain ⟨w,hw,hd⟩ := h
  exact ⟨w,by rw [get?_workers_remove, if_neg hk, hw],hd⟩

theorem holds_awaken {w : Worker} (hw : m.workers.get? key = some w) (now : Nat) :
    (m.awaken key now).Holds key (now + m.lifetime) := by
  refine ⟨{ w with expiry := now + m.lifetime },?_,Nat.le_refl _⟩
  rw [awaken_of_get? now hw, workers_updateService, Table.get?_set, if_pos rfl]

/-- A worker that is renewed holds for a life. -/
theorem holds_renew (hw : m.workers.contains key = true) (hl : 0 < m.lifetime) (now : Nat) :
    (m.renew key now).Holds key (now + m.lifetime) := by
  obtain ⟨w,hw⟩ := (Table.contains_iff ..).mp hw
  rw [renew_of_get? now hw]
  exact (holds_awaken hw now).dispatch (Nat.lt_add_of_pos_right hl) _

section
variable (hn : now < due) (hd : due ≤ now + m.lifetime)
include hn hd

theorem Holds.renew (h : m.Holds key due) (k : String) : (m.renew k now).Holds key due := by
  cases hk : m.workers.get? k with
  | none => rwa [renew_of_get?_eq_none now hk]
  | some v =>
    rw [renew_of_get? now hk]
    refine Holds.dispatch ?_ hn v.service
    by_cases he : k = key
    · subst he
      obtain ⟨w,hw,hx⟩ := holds_awaken hk now
      exact ⟨w,hw,Nat.le_trans hd hx⟩
    · obtain ⟨w,hw,hx⟩ := h
      refine ⟨w,?_,hx⟩
      rw [awaken_of_get? now hk, workers_updateService, Table.get?_set, if_neg he, hw]

/-! ## Operations -/

theorem Holds.wakeForRetry (h : m.Holds key due) (name : String) (sender : Frame) :
    (m.wakeForRetry name sender now).Holds key due := by
  unfold Mediator.wakeForRetry
  split
  · split
    · exact h.renew hn hd _
    · exact h
  · exact h

theorem Holds.request (h : m.Holds key due) (sender service : Frame) (body : Message) :
    (m.request sender service body now).Holds key due := by
  unfold Mediator.request
  dsimp only
  split
  · exact h.congr rfl
  · have hr : (m.require service.toText).lifetime = m.lifetime := by
      unfold require
      split <;> rfl
    have hq := (h.congr (workers_require m service.toText)).wakeForRetry hn
      (by rwa [hr]) service.toText sender
    exact (hq.congr (workers_updateService ..)).dispatch hn _

theorem Holds.ready (h : m.Holds key due) {sender : Frame} (hs : sender.hex ≠ key)
    (service : String) : (m.ready sender service now).Holds key due := by
  unfold Mediator.ready
  split
  · exact h.remove hs
  · split
    · exact h.congr rfl
    · obtain ⟨w,hw,hx⟩ := h
      refine Holds.renew hn ?_ ⟨w,?_,hx⟩ _
      · rw [require]
        split <;> exact hd
      · rw [workers_require, Table.get?_set, if_neg hs, hw]

omit hn hd in
theorem Holds.turnAway (h : m.Holds key due) {sender : Frame} (hs : sender.hex ≠ key)
    (command : String) : (m.turnAway sender command).1.Holds key due :=
  Holds.remove (m := m.emit sender Wire.disconnect) h hs

omit hn hd in
theorem workers_forward (service : String) (e : Envelope) (m : Mediator) :
    (m.forward service e).workers = m.workers := by
  unfold forward
  split <;> rfl

omit hn hd in
theorem lifetime_forward (service : String) (e : Envelope) (m : Mediator) :
    (m.forward service e).lifetime = m.lifetime := by
  unfold forward
  split <;> rfl

theorem Holds.command (h : m.Holds key due) {sender : Frame} {c : Wire.WorkerCommand}
    (hc : sender.hex = key → (∀ service, c ≠ .ready service) ∧ c ≠ .disconnect) :
    (m.command sender c now).1.Holds key due := by
  have hother (hs : m.workers.contains sender.hex = false) : sender.hex ≠ key := by
    rintro rfl
    rw [h.contains] at hs
    cases hs
  cases c with
  | ready service => exact h.ready hn hd (fun e => (hc e).1 service rfl) service
  | reply e =>
    simp only [Mediator.command]
    cases hw : m.workers.get? sender.hex with
    | none => exact h.turnAway (hother (by simp [Table.contains, hw])) "REPLY"
    | some w =>
      refine Holds.renew hn ?_ (h.congr ?_) _
      · rwa [updateService, lifetime_forward]
      · rw [workers_updateService, workers_forward]
  | heartbeat =>
    simp only [Mediator.command]
    split
    · exact h.renew hn hd _
    · rename_i hw
      exact h.turnAway (hother (by simpa using hw)) "HEARTBEAT"
  | disconnect => exact h.remove fun e => (hc e).2 rfl
  | shutdown e named =>
    simp only [Mediator.command]
    split
    · exact h.congr (workers_forward ..)
    · exact h
  | unknown f => exact h

end

/-! ## What the broker does to a worker -/

variable {peer : Frame} {op : Operation}

/-- A worker that has time left keeps its entry in all that is done at a time, unless it is
dismissed. -/
theorem Holds.apply (h : m.Holds peer.hex due) (ht : op.time? = some now) (hn : now < due)
    (hd : due ≤ now + m.lifetime) (hk : m.dismisses peer op = false) :
    (m.apply op).1.Holds peer.hex due := by
  cases op with
  | disconnectAll => cases ht
  | sweep =>
    cases ht
    exact h.sweep hn
  | probe time =>
    refine h.congr ?_
    change (m.probe time).workers = m.workers
    unfold probe
    split <;> rfl
  | handle sender frames =>
    cases ht
    change (m.handle sender frames now).1.Holds peer.hex due
    unfold handle
    cases hf : Wire.Inbound.ofFrames frames with
    | error v => exact h
    | ok i =>
      cases i with
      | client service body => exact h.request hn hd sender service body
      | worker c =>
        refine h.command hn hd fun he => ?_
        obtain rfl := Frame.hex_inj he
        constructor
        · rintro service rfl
          simp [dismisses, Operation.from?, hf, Except.toOption, h.contains] at hk
        · rintro rfl
          simp [dismisses, Operation.from?, hf, Except.toOption] at hk

theorem Operation.eq_handle_of_from? {i : Wire.Inbound} (h : op.from? peer = some i) :
    ∃ frames time, op = .handle peer frames time ∧ Wire.Inbound.ofFrames frames = .ok i := by
  cases op with
  | handle sender frames time =>
    simp only [from?, Option.ite_none_right_eq_some] at h
    obtain ⟨rfl,h⟩ := h
    cases hf : Wire.Inbound.ofFrames frames with
    | error v => simp [hf, Except.toOption] at h
    | ok j =>
      rw [hf] at h
      cases h
      exact ⟨frames,time,rfl,hf⟩
  | sweep | probe | disconnectAll => cases h

/-- Whatever is heard from a worker ends in its renewal. -/
theorem renewal_of_hears (hh : m.hears peer op = true) (ht : op.time? = some now) :
    ∃ t : Mediator, (m.apply op).1 = t.renew peer.hex now ∧
      t.workers.contains peer.hex = true ∧ t.lifetime = m.lifetime := by
  unfold hears at hh
  split at hh
  · rename_i service hi
    obtain ⟨frames,time,rfl,hf⟩ := Operation.eq_handle_of_from? hi
    cases ht
    simp only [Bool.and_eq_true, Bool.not_eq_true'] at hh
    let w : Worker := { identity := peer, service, expiry := now + m.lifetime }
    refine ⟨Mediator.require service { m with workers := m.workers.set peer.hex w },?_,?_,?_⟩
    · simp only [apply, handle, hf, command, ready, hh.1, hh.2, Bool.false_eq_true, if_false, w]
    · rw [workers_require, Table.contains_set]
      simp
    · rw [require]
      split <;> rfl
  · rename_i e hi
    obtain ⟨frames,time,rfl,hf⟩ := Operation.eq_handle_of_from? hi
    cases ht
    obtain ⟨w,hw⟩ := (Table.contains_iff ..).mp hh
    refine ⟨(m.forward w.service e).updateService w.service fun s =>
      { s with reply := .received },?_,?_,lifetime_forward ..⟩
    · simp only [apply, handle, hf, command, hw]
    · rwa [workers_updateService, workers_forward]
  · rename_i hi
    obtain ⟨frames,time,rfl,hf⟩ := Operation.eq_handle_of_from? hi
    cases ht
    exact ⟨m,by simp only [apply, handle, hf, command, hh, if_true],hh,rfl⟩
  · cases hh

/-- Whoever is heard from holds for a life. -/
theorem holds_of_hears (hh : m.hears peer op = true) (ht : op.time? = some now)
    (hl : 0 < m.lifetime) : (m.apply op).1.Holds peer.hex (now + m.lifetime) := by
  obtain ⟨t,hm,hw,hx⟩ := renewal_of_hears hh ht
  rw [hm, ← hx]
  exact holds_renew hw (hx ▸ hl) now

/-- Nobody is registered but by a READY of its own. -/
theorem contains_apply_of_not_acceptsReady (hw : m.workers.contains peer.hex = false)
    (ha : m.acceptsReady peer op = false) :
    (m.apply op).1.workers.contains peer.hex = false := by
  rw [← follow_plan]
  refine Bool.eq_false_iff.mpr fun hc => ?_
  rcases plan_registers m op with hn | ⟨sender,frames,time,service,rfl,hf,hs,hi,hp⟩
  · rw [contains_workers_of_follow hn hc] at hw
    cases hw
  · rw [hp, follow_append] at hc
    have hc := contains_workers_of_follow
      (fun a h => registersNone_of_dispatching (renewPlan_dispatching _ _ _ a h)) hc
    rw [workers_follow_enrolPlan, Table.contains_set, hw, Bool.or_false] at hc
    obtain rfl := Frame.hex_inj (of_decide_eq_true hc)
    simp [acceptsReady, Operation.from?, hf, Except.toOption, hs, hi] at ha

@[simp] theorem lifetime_apply (m : Mediator) (op : Operation) :
    (m.apply op).1.lifetime = m.lifetime := lifetime_run m [op]

theorem not_acceptsReady_of_from? (h : op.from? peer = none) (m : Mediator) :
    m.acceptsReady peer op = false := by
  simp [acceptsReady, h]

theorem not_dismisses_of_from? (h : op.from? peer = none) (hd : op ≠ .disconnectAll)
    (m : Mediator) : m.dismisses peer op = false := by
  simp [dismisses, h, hd]

theorem get?_workers_foldl_remove (entries : List (String × Worker)) (m : Mediator) :
    (entries.foldl (fun m (x : String × Worker) =>
        (m.remove x.1).emit x.2.identity Wire.disconnect) m).workers.get? key =
      if key ∈ entries.map Prod.fst then none else m.workers.get? key := by
  induction entries generalizing m with
  | nil => rfl
  | cons x entries ih =>
    rw [List.foldl_cons, ih]
    change (if _ then none else (m.remove x.1).workers.get? key) = _
    rw [get?_workers_remove, List.map_cons]
    by_cases hk : x.1 = key
    · simp [hk]
    · have hne : key ≠ x.1 := fun e => hk e.symm
      simp only [List.mem_cons, hne, false_or, if_neg hk]

/-- Whoever is told to disconnect with all others is not registered any more. -/
theorem contains_disconnectAll (key : String) (m : Mediator) :
    m.disconnectAll.workers.contains key = false := by
  have hg : m.disconnectAll.workers.get? key = none := by
    refine (get?_workers_foldl_remove m.workers.entries m).trans ?_
    split
    · rfl
    · rename_i hk
      by_contra hn
      obtain ⟨w,hw⟩ := Option.ne_none_iff_exists'.mp hn
      exact hk (Table.mem_keys.mpr ((Table.contains_iff ..).mpr ⟨w,hw⟩))
  rw [Table.contains, hg]
  rfl

end Majordomo.Broker.Mediator
