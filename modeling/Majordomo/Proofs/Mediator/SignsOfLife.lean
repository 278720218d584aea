import Majordomo.Broker.Server
import Majordomo.Config.Overlay
import Majordomo.Proofs.Config.Expiry
import Majordomo.Proofs.Mediator.Tenure

/-! # What a sign of life is worth

A worker that is heard from is renewed, and the dispatch that follows at once sweeps at the time
of the renewal. So it depends on the settings alone whether the worker survives its own message:
it does unless it is granted no life at all.
-/
namespace Majordomo
namespace Broker.Mediator
variable {m : Mediator} {peer : Frame} {op : Operation} {now : Nat}

/-- With no life to grant, a renewal ends with the worker swept away. -/
theorem contains_renew_of_lifetime_eq_zero (hl : m.lifetime = 0) (key : String) (now : Nat) :
    (m.renew key now).workers.contains key = false := by
  cases hw : m.workers.get? key with
  | none => rw [renew_of_get?_eq_none now hw, Table.contains, hw, Option.isSome_none]
  | some w =>
    have hidle : key ∈ (m.awaken key now).idle := (mem_idle_awaken now hw key).mpr (.inl rfl)
    have hdead : (m.awaken key now).isLive now key = false := by
      refine Bool.eq_false_iff.mpr fun hlive => ?_
      obtain ⟨v,hv,hlt⟩ := isLive_iff.mp hlive
      rw [awaken_of_get? now hw, workers_updateService, Table.get?_set, if_pos rfl, hl] at hv
      cases hv
      exact absurd hlt (Nat.lt_irrefl now)
    rw [renew_of_get? now hw, dispatch, workers_pairAll, Table.contains, get?_workers_sweep,
      if_pos ⟨hidle,hdead⟩, Option.isSome_none]

/-- Whoever is heard from is registered afterwards if and only if it was granted some life. -/
theorem contains_apply_of_hears (hh : m.hears peer op = true) :
    (m.apply op).1.workers.contains peer.hex = true ↔ m.lifetime ≠ 0 := by
  obtain ⟨now,ht⟩ : ∃ now, op.time? = some now := by
    cases op with
    | handle sender frames now => exact ⟨now,rfl⟩
    | sweep now => exact ⟨now,rfl⟩
    | probe now => exact ⟨now,rfl⟩
    | disconnectAll => cases hh
  constructor
  · intro hc hl
    obtain ⟨t,hm,_,hx⟩ := renewal_of_hears hh ht
    rw [hm, contains_renew_of_lifetime_eq_zero (hx.trans hl)] at hc
    cases hc
  · intro hl
    exact (holds_of_hears hh ht (Nat.pos_of_ne_zero hl)).contains

/-- What is heard from a worker finds it idle or makes it idle, but not both. -/
theorem Consistent.idleCount_of_hears (h : m.Consistent) (hh : m.hears peer op = true) :
    m.idleCount peer + m.wakeTotal peer (m.plan op) = 1 := by
  have hone (hw : m.workers.contains peer.hex = true) :
      m.idleCount peer + (m.isBusy peer).toNat = 1 := by
    by_cases hi : peer.hex ∈ m.idle <;> simp [idleCount, isBusy, hw, hi]
  rw [h.wakeTotal_plan]
  unfold hears at hh
  split at hh
  · rename_i service hf
    simp only [Bool.and_eq_true, Bool.not_eq_true'] at hh
    simp [idleCount, acceptsReady, Operation.isReply, rewakes, isBusy, hf, hh, h.not_mem_idle hh.1]
  · rename_i e hf
    simpa [acceptsReady, Operation.isReply, rewakes, hf] using hone hh
  · rename_i hf
    simpa [acceptsReady, Operation.isReply, rewakes, hf] using hone hh
  · cases hh

/-- Whoever is still registered after it was heard from is idle, or has been sent one request. -/
theorem Consistent.idle_or_requested_of_hears (h : m.Consistent) (hh : m.hears peer op = true)
    (hw : (m.apply op).1.workers.contains peer.hex = true) :
    let t := (m.apply op).1
    let sent := (t.outbox.drop m.outbox.length).countP (·.isRequestTo peer)
    peer.hex ∈ t.idle ∧ sent = 0 ∨ peer.hex ∉ t.idle ∧ sent = 1 := by
  intro t sent
  have hsum : sent + t.idleCount peer = 1 := by
    have he := (h.accounted_plan peer op).eq (by rwa [follow_plan])
    rw [requestTotal_eq, follow_plan, h.idleCount_of_hears hh] at he
    exact he
  by_cases hi : peer.hex ∈ t.idle
  · have hc : t.idleCount peer = 1 := by simp [idleCount, hi]
    exact .inl ⟨hi,by omega⟩
  · have hc : t.idleCount peer = 0 := by simp [idleCount, hi]
    exact .inr ⟨hi,by omega⟩

end Broker.Mediator

/-! ## The life that the settings grant -/

namespace Config.Broker

theorem interval_pos (c : Broker) : 0 < c.interval := Nat.le_max_left ..

/-- Only a liveness of zero grants no life, since the interval is never zero. -/
theorem expiry_ne_zero_iff {c : Broker} {lifetime : Nat} (h : c.expiry? = some lifetime) :
    lifetime ≠ 0 ↔ c.heartbeatLiveness ≠ 0 := by
  rw [expiry?_eq, Option.ite_none_right_eq_some, Option.some.injEq] at h
  obtain ⟨_,rfl⟩ := h
  rw [Nat.mul_ne_zero_iff, and_iff_right (Nat.ne_of_gt c.interval_pos), ne_eq, ne_eq,
    ← UInt32.toNat_inj, UInt32.toNat_zero]

end Config.Broker

namespace Broker.Server
open Mediator

theorem start_of_expiry? {c : Config.Broker} {lifetime : Nat} (h : c.expiry? = some lifetime)
    (policy : Policy) :
    start c policy = some
      { router := .start c.peerCapacity.toNat
        mediator := .start c.interval lifetime 0
        monitor := { policy } } := by
  rw [start, h, Option.map_some]

/-- A worker that the broker hears from is registered afterwards if and only if the liveness that
was set is not zero. Then it is idle, or has just been sent a request. -/
theorem signs_of_life_keep_workers {c : Config.Broker} {policy : Policy} {s : Server}
    (hs : start c policy = some s) (ops : List Operation) (peer : Frame) (frames : Message)
    (now : Nat) (hh : (s.mediator.run ops).hears peer (.handle peer frames now) = true) :
    let m := s.mediator.run ops
    let t := (m.handle peer frames now).1
    let sent := (t.outbox.drop m.outbox.length).countP (·.isRequestTo peer)
    (t.workers.contains peer.hex = true ↔ c.heartbeatLiveness ≠ 0) ∧
    (c.heartbeatLiveness ≠ 0 →
      peer.hex ∈ t.idle ∧ sent = 0 ∨ peer.hex ∉ t.idle ∧ sent = 1) := by
  intro m t sent
  obtain ⟨lifetime,hx,rfl⟩ := Option.map_eq_some_iff.mp hs
  have hm : m.Consistent := (consistent_start c.interval lifetime 0).run ops
  have hl : m.lifetime = lifetime := lifetime_run _ ops
  have hkept : t.workers.contains peer.hex = true ↔ c.heartbeatLiveness ≠ 0 := by
    rw [← Config.Broker.expiry_ne_zero_iff hx, ← hl]
    exact contains_apply_of_hears hh
  exact ⟨hkept,fun hc => hm.idle_or_requested_of_hears hh (hkept.mpr hc)⟩

/-- With the usual settings a busy worker survives its HEARTBEAT and is sent the request that
waits. -/
theorem signs_of_life_keep_workers_busy :
    let c := Config.Broker.ofEnvironment []
    let peer := Frame.ofText "w1"
    let ask (client : String) := Operation.handle (.ofText client)
      (Wire.clientMessage (.ofText "echo") [.ofText client]) 1
    let ops := [.handle peer (Wire.ready "echo") 0, ask "c1", ask "c2"]
    ∃ s, start c .log = some s ∧
      (s.mediator.run ops).hears peer (.handle peer Wire.heartbeat 2) = true ∧
      let m := s.mediator.run ops
      let t := (m.handle peer Wire.heartbeat 2).1
      let sent := (t.outbox.drop m.outbox.length).countP (·.isRequestTo peer)
      (t.workers.contains peer.hex = true ↔ c.heartbeatLiveness ≠ 0) ∧
      (c.heartbeatLiveness ≠ 0 →
        peer.hex ∈ t.idle ∧ sent = 0 ∨ peer.hex ∉ t.idle ∧ sent = 1) := by
  intro c peer ask ops
  have hs := start_of_expiry? (c := c) (show c.expiry? = some 12500 by decide +kernel) .log
  have hh : ((Mediator.start c.interval 12500 0).run ops).hears peer
      (.handle peer Wire.heartbeat 2) = true := by decide +kernel
  exact ⟨_,hs,hh,signs_of_life_keep_workers hs ops peer Wire.heartbeat 2 hh⟩

/-- A document may set the liveness to zero. Then the broker forgets a worker in the course of
accepting its READY. -/
theorem sign_of_life_evicts_worker :
    let peer := Frame.ofText "w1"
    ∃ c s, (Config.ofToml? [] "[broker]\nheartbeat_liveness = 0\n").map (·.broker) = some c ∧
      start c .log = some s ∧
      s.mediator.hears peer (.handle peer (Wire.ready "echo") 0) = true ∧
      (s.mediator.handle peer (Wire.ready "echo") 0).1.workers.contains peer.hex = false := by
  intro peer
  let c := { Config.Broker.ofEnvironment [] with heartbeatLiveness := 0 }
  have hs := start_of_expiry? (c := c) (show c.expiry? = some 0 by decide +kernel) .log
  exact ⟨c,_,by decide +kernel,hs,by decide +kernel,by decide +kernel⟩

end Broker.Server
end Majordomo
