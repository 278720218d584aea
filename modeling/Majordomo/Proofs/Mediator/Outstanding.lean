import Majordomo.Proofs.Mediator.Conservation
import Majordomo.Proofs.Mediator.Registration
import Majordomo.Proofs.Text.Hex

/-! # Outstanding requests of a worker

A worker is sent a request only while it is idle, so every request costs it one stay
among the idle ones. What a busy worker says makes it idle again: its reply, but also
a sign of life, or a request of its own that is taken for a repeated one.
-/
namespace Majordomo.Broker

def Outbound.isRequestTo (peer : Frame) (o : Outbound) : Bool :=
  o.peer = peer && (Wire.requestOf? o.frames).isSome

namespace Mediator
variable {m : Mediator}

def idleCount (peer : Frame) (m : Mediator) : Nat := (decide (peer.hex ∈ m.idle)).toNat

def isBusy (peer : Frame) (m : Mediator) : Bool :=
  m.workers.contains peer.hex && peer.hex ∉ m.idle

def wakeCount (peer : Frame) (m : Mediator) : Action → Nat
  | .wake key _ => (key = peer.hex && m.isBusy peer : Bool).toNat
  | _ => 0

theorem idleCount_congr {m' : Mediator} (peer : Frame) (h : m'.idle = m.idle) :
    m'.idleCount peer = m.idleCount peer := by
  simp only [idleCount, h]

theorem countP_isRequestTo_eq_zero {peer : Frame} {os : List Outbound}
    (h : ∀ o ∈ os, Wire.requestOf? o.frames = none) : os.countP (·.isRequestTo peer) = 0 := by
  apply List.countP_eq_zero.mpr
  intro o ho
  simp [Outbound.isRequestTo, h o ho]

theorem mem_idle_awaken {key : String} {w : Worker} (now : Nat)
    (h : m.workers.get? key = some w) (k : String) :
    k ∈ (m.awaken key now).idle ↔ k = key ∨ k ∈ m.idle := by
  rw [awaken_of_get? now h]
  by_cases hk : k = key <;> simp [hk]

theorem idleCount_awaken (m : Mediator) (peer : Frame) (key : String) (now : Nat) :
    (m.awaken key now).idleCount peer = m.idleCount peer + m.wakeCount peer (.wake key now) := by
  cases hw : m.workers.get? key with
  | none =>
    have hk : ¬ (key = peer.hex ∧ m.isBusy peer = true) := by
      rintro ⟨rfl,hb⟩
      simp [isBusy, Table.contains, hw] at hb
    rw [awaken_of_get?_eq_none now hw]
    simp only [wakeCount]
    rw [show (decide (key = peer.hex) && m.isBusy peer) = false by simpa using hk]
    rfl
  | some w =>
    by_cases hk : key = peer.hex
    · subst hk
      have hc : m.workers.contains peer.hex = true := (Table.contains_iff _ _).mpr ⟨w,hw⟩
      by_cases hi : peer.hex ∈ m.idle <;>
        simp [idleCount, wakeCount, isBusy, mem_idle_awaken now hw, hi, hc]
    · have hne : peer.hex ≠ key := fun e => hk e.symm
      simp [idleCount, wakeCount, mem_idle_awaken now hw, hk, hne]

namespace Consistent

/-- What one action does to the account of a worker: a request is paid for by being idle. -/
theorem requests_act (h : m.Consistent) {a : Action} (ha : a.Lawful m) (peer : Frame) :
    (m.emitted a).countP (·.isRequestTo peer) + (m.act a).idleCount peer +
        (if a = .remove peer.hex then m.idleCount peer else 0) =
      m.idleCount peer + m.wakeCount peer a := by
  have hquiet : (m.act a).outbox = m.outbox →
      (m.emitted a).countP (·.isRequestTo peer) = 0 := by
    intro hq
    simp [emitted_eq_nil hq]
  cases a with
  | emit p frames =>
    have hz : (m.emitted (.emit p frames)).countP (·.isRequestTo peer) = 0 := by
      apply countP_isRequestTo_eq_zero
      intro o ho
      rw [emitted_emit, List.mem_singleton] at ho
      exact ho ▸ ha
    rw [hz, show (m.act (.emit p frames)).idleCount peer = m.idleCount peer from rfl]
    simp [wakeCount]
  | require n =>
    rw [hquiet (by simp), act_require, idleCount_congr peer (idle_require m n)]
    simp [wakeCount]
  | queue n e =>
    rw [hquiet rfl, act_queue, idleCount_congr peer (idle_updateService m n _)]
    simp [wakeCount]
  | settle n =>
    rw [hquiet rfl, act_settle, idleCount_congr peer (idle_updateService m n _)]
    simp [wakeCount]
  | enrol i n x =>
    rw [hquiet rfl, show (m.act (.enrol i n x)).idleCount peer = m.idleCount peer from rfl]
    simp [wakeCount]
  | schedule x =>
    rw [hquiet rfl, show (m.act (.schedule x)).idleCount peer = m.idleCount peer from rfl]
    simp [wakeCount]
  | wake key now =>
    rw [hquiet (by simp), act_wake, idleCount_awaken]
    simp
  | remove key =>
    rw [hquiet (by simp), act_remove]
    by_cases hk : key = peer.hex
    · subst hk
      simp [idleCount, wakeCount]
    · have hne : peer.hex ≠ key := fun e => hk e.symm
      simp [idleCount, wakeCount, hk, hne]
  | pair n =>
    rw [act_pair]
    rcases h.pairOldest_cases n with ⟨hm,_⟩ | ⟨e,es,key,keys,w,hp,_,hw,_,hk,hm⟩
    · rw [hquiet (congrArg Mediator.outbox hm), hm]
      simp [wakeCount]
    · have he : Wire.requestOf? (Wire.request e) = some e :=
        Wire.requestOf?_request (h.addressed n e (hp ▸ List.mem_cons_self ..))
      have hi : (m.given n key e w).idle = m.idle.filter (· ≠ key) := rfl
      have hkey := h.keyed key w hw
      rw [emitted_pair hm, hm]
      by_cases hpeer : w.identity = peer
      · subst hpeer
        rw [← hkey]
        simp [idleCount, wakeCount, Outbound.isRequestTo, he, hi, ← hkey, hk]
      · have hne : peer.hex ≠ key := fun hx => hpeer (Frame.hex_inj (hkey ▸ hx).symm)
        simp [idleCount, wakeCount, Outbound.isRequestTo, hpeer, hi, hne]

end Consistent

/-! ## Plans -/

def requestTotal (peer : Frame) (m : Mediator) : List Action → Nat
  | [] => 0
  | a :: plan => (m.emitted a).countP (·.isRequestTo peer) + (m.act a).requestTotal peer plan

def wakeTotal (peer : Frame) (m : Mediator) : List Action → Nat
  | [] => 0
  | a :: plan => m.wakeCount peer a + (m.act a).wakeTotal peer plan

theorem requestTotal_eq (peer : Frame) (m : Mediator) (plan : List Action) :
    m.requestTotal peer plan =
      ((m.follow plan).outbox.drop m.outbox.length).countP (·.isRequestTo peer) := by
  rw [outbox_follow, List.drop_left]
  induction plan generalizing m with
  | nil => rfl
  | cons a plan ih =>
    rw [requestTotal, ih, moments_cons, List.flatMap_cons, List.countP_append]

theorem requestTotal_append (peer : Frame) (m : Mediator) (plan rest : List Action) :
    m.requestTotal peer (plan ++ rest) =
      m.requestTotal peer plan + (m.follow plan).requestTotal peer rest := by
  induction plan generalizing m with
  | nil => simp [requestTotal]
  | cons a plan ih => simp only [List.cons_append, requestTotal, ih, follow_cons, Nat.add_assoc]

theorem wakeTotal_append (peer : Frame) (m : Mediator) (plan rest : List Action) :
    m.wakeTotal peer (plan ++ rest) =
      m.wakeTotal peer plan + (m.follow plan).wakeTotal peer rest := by
  induction plan generalizing m with
  | nil => simp [wakeTotal]
  | cons a plan ih => simp only [List.cons_append, wakeTotal, ih, follow_cons, Nat.add_assoc]

theorem wakeTotal_eq_zero (peer : Frame) (m : Mediator) {plan : List Action}
    (h : ∀ a ∈ plan, ∀ key now, a ≠ .wake key now) : m.wakeTotal peer plan = 0 := by
  induction plan generalizing m with
  | nil => rfl
  | cons a plan ih =>
    have ha : m.wakeCount peer a = 0 := by
      cases a with
      | wake key now => exact absurd rfl (h _ (List.mem_cons_self ..) key now)
      | _ => rfl
    rw [wakeTotal, ha, ih _ fun b hb => h b (List.mem_cons_of_mem a hb)]

/-- The account of a worker along a plan. It is exact if the worker is registered at the end;
otherwise an idle worker may have been removed. -/
structure Accounted (peer : Frame) (m : Mediator) (plan : List Action) : Prop where
  le : m.requestTotal peer plan + (m.follow plan).idleCount peer ≤
    m.idleCount peer + m.wakeTotal peer plan
  eq : (m.follow plan).workers.contains peer.hex = true →
    m.requestTotal peer plan + (m.follow plan).idleCount peer =
      m.idleCount peer + m.wakeTotal peer plan

theorem Consistent.accounted (h : m.Consistent) {plan : List Action} (hp : m.LawfulPlan plan)
    (hn : ∀ a ∈ plan, a.registersNone = true) (peer : Frame) : Accounted peer m plan := by
  induction plan generalizing m with
  | nil => exact ⟨by simp [requestTotal],fun _ => by simp [requestTotal, wakeTotal]⟩
  | cons a plan ih =>
    have hn' : ∀ b ∈ plan, b.registersNone = true := fun b hb => hn b (List.mem_cons_of_mem a hb)
    obtain ⟨hle,heq⟩ := ih (h.act hp.1) hp.2 hn'
    have ha := h.requests_act hp.1 peer
    refine ⟨?_,?_⟩ <;> simp only [requestTotal, wakeTotal, follow_cons]
    · omega
    · intro hw
      have he := heq hw
      have hr := (contains_workers_of_act (hn a (List.mem_cons_self ..))
        (contains_workers_of_follow hn' hw)).2
      rw [if_neg hr] at ha
      omega

end Mediator
end Majordomo.Broker
