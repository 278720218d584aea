import Majordomo.Proofs.Mediator.ReturnPath
import Majordomo.Proofs.Mediator.Tenure

/-! # Whose entry it is

A worker is registered under the text of its identity, and no two identities have one text. So
every entry has one owner, and whatever the broker hears from others, it neither hands the entry
on nor puts another in its place.
-/
namespace Majordomo.Broker.Mediator
variable {m : Mediator} {peer : Frame} {op : Operation} {w v : Worker}

theorem Operation.time?_eq_none (h : op.time? = none) : op = .disconnectAll := by
  cases op with
  | disconnectAll => rfl
  | handle | sweep | probe => cases h

/-- Nobody is registered but by a message of its own. -/
theorem contains_of_apply (ho : op.from? peer = none)
    (hv : (m.apply op).1.workers.get? peer.hex = some v) :
    m.workers.contains peer.hex = true := by
  by_contra hn
  have hn := contains_apply_of_not_acceptsReady (Bool.eq_false_iff.mpr hn)
    (not_acceptsReady_of_from? ho m)
  rw [Table.contains, hv] at hn
  cases hn

/-! ## Owners -/

namespace Consistent

/-- An entry stands under the text of one identity, which is that of its worker. -/
theorem key_eq_hex_iff (h : m.Consistent) {key : String} (hw : m.workers.get? key = some w) :
    key = peer.hex ↔ w.identity = peer := by
  rw [h.keyed key w hw, hex_eq_iff]

/-- A peer that is not heard from is granted no time, but for a client's request that wakes it. -/
theorem expiry_of_apply (h : m.Consistent) (ho : op.from? peer = none)
    (hw : m.workers.get? peer.hex = some w)
    (hv : (m.apply op).1.workers.get? peer.hex = some v) :
    v.expiry = w.expiry ∨ m.retries peer op = true ∧
      ∃ time, op.time? = some time ∧ v.expiry = time + m.lifetime := by
  have hid : v.identity = peer := (h.apply op).identity_eq hv
  have hc : m.workers.contains peer.hex = true := (Table.contains_iff ..).mpr ⟨w,hw⟩
  rw [← follow_plan] at hv
  -- what the plan does to this one entry is read off what it does to all entries
  refine h.entry_of_follow (plan_lawful h op) (P := fun v => v.identity = peer →
    v.expiry = w.expiry ∨ m.retries peer op = true ∧
      ∃ time, op.time? = some time ∧ v.expiry = time + m.lifetime) ?_ ?_ ?_ hv hid
  · intro key u hu hup
    obtain rfl := (h.key_eq_hex_iff hu).mpr hup
    exact .inl (congrArg Worker.expiry (Option.some.inj (hu.symm.trans hw)))
  · rintro identity service expiry ha rfl
    exact absurd rfl (plan_spares hc op _ ha)
  · rintro u time ha rfl
    obtain ⟨ht,hh | hr⟩ := h.renews_of_wake ha
    · rw [hears, ho] at hh
      cases hh
    · exact .inr ⟨hr,time,ht,rfl⟩

/-- What becomes of the entry of a peer that is not heard from: but for its time, it is the entry
that was there before. -/
theorem entry_of_apply (h : m.Consistent) (ho : op.from? peer = none)
    (hv : (m.apply op).1.workers.get? peer.hex = some v) :
    ∃ w, m.workers.get? peer.hex = some w ∧ v = { w with expiry := v.expiry } := by
  obtain ⟨w,hw,hs⟩ := get?_workers_of_follow (plan_spares (contains_of_apply ho hv) op)
    (follow_plan m op ▸ hv)
  have hid : v.identity = w.identity :=
    ((h.apply op).identity_eq hv).trans (h.identity_eq hw).symm
  refine ⟨w,hw,?_⟩
  rw [← hid, hs]

/-- However long a peer is not heard from, the entry that is found is the one that it had. -/
theorem entry_of_run (h : m.Consistent) {ops : List Operation}
    (ho : ∀ op ∈ ops, op.from? peer = none) (hv : (m.run ops).workers.get? peer.hex = some v) :
    ∃ w, m.workers.get? peer.hex = some w ∧ v = { w with expiry := v.expiry } := by
  induction ops generalizing m with
  | nil => exact ⟨v,hv,rfl⟩
  | cons op ops ih =>
    obtain ⟨u,hu,hvu⟩ := ih (h.apply op) (fun o h => ho o (List.mem_cons_of_mem _ h)) hv
    obtain ⟨w,hw,huw⟩ := h.entry_of_apply (ho op (List.mem_cons_self ..)) hu
    refine ⟨w,hw,hvu.trans ?_⟩
    rw [huw]

end Consistent

/-- Who loses its entry to nothing of its own had no time left, or everybody was dismissed. -/
theorem expired_of_lost (ho : op.from? peer = none) (hw : m.workers.get? peer.hex = some w)
    (hv : (m.apply op).1.workers.get? peer.hex = none) :
    op = .disconnectAll ∨ ∃ time, op.time? = some time ∧ (w.expiry ≤ time ∨ m.lifetime = 0) := by
  by_cases hd : op = .disconnectAll
  · exact .inl hd
  obtain ⟨time,ht⟩ := Option.ne_none_iff_exists'.mp (mt Operation.time?_eq_none hd)
  refine .inr ⟨time,ht,?_⟩
  by_contra hn
  have hh : m.Holds peer.hex (min w.expiry (time + m.lifetime)) := ⟨w,hw,Nat.min_le_left ..⟩
  obtain ⟨u,hu,_⟩ := hh.apply ht (by omega) (Nat.min_le_right ..)
    (not_dismisses_of_from? ho hd m)
  rw [hv] at hu
  cases hu

/-- The texts of identities are as different as these. After every run, each entry of the registry
is that of the one peer under whose text it stands, and each peer has one entry at most; a worker
that is heard from has one, whoever else is registered. An operation that brings no message of a
peer gives it no entry and binds its entry to nothing else: at most it grants the worker a new
time, as a client that repeats its request may ask, or takes out a worker whose time is over, or
everybody. And however many such operations follow, the entry that a peer is found with is its own
from before. -/
theorem peers_keep_their_entries (interval lifetime now : Nat) (ops : List Operation) :
    let m := (start interval lifetime now).run ops
    Function.Injective Frame.hex ∧
    (∀ key w, m.workers.get? key = some w → ∀ peer : Frame, key = peer.hex ↔ w.identity = peer) ∧
    (m.workers.values.map (·.identity)).Nodup ∧
    (∀ (peer : Frame) (op : Operation) (time : Nat), m.hears peer op = true →
      op.time? = some time → 0 < lifetime →
        ∃ v, (m.apply op).1.workers.get? peer.hex = some v ∧ v.identity = peer ∧
          time + lifetime ≤ v.expiry) ∧
    (∀ (peer : Frame) (op : Operation), op.from? peer = none →
      let m' := (m.apply op).1
      (∀ v, m'.workers.get? peer.hex = some v →
        ∃ w, m.workers.get? peer.hex = some w ∧ v = { w with expiry := v.expiry } ∧
          (v.expiry = w.expiry ∨ m.retries peer op = true ∧
            ∃ time, op.time? = some time ∧ v.expiry = time + lifetime)) ∧
      ∀ w, m.workers.get? peer.hex = some w → m'.workers.get? peer.hex = none →
        op = .disconnectAll ∨
          ∃ time, op.time? = some time ∧ (w.expiry ≤ time ∨ lifetime = 0)) ∧
    ∀ (peer : Frame) (more : List Operation), (∀ op ∈ more, op.from? peer = none) →
      ∀ v, (m.run more).workers.get? peer.hex = some v →
        ∃ w, m.workers.get? peer.hex = some w ∧ v = { w with expiry := v.expiry } := by
  intro m
  have h : m.Consistent := (consistent_start interval lifetime now).run ops
  have hl : m.lifetime = lifetime := lifetime_run (start interval lifetime now) ops
  refine ⟨fun _ _ => Frame.hex_inj,fun _ _ hw _ => h.key_eq_hex_iff hw,h.nodup_identities,
    ?_,?_,?_⟩
  · intro peer op time hh ht hpos
    obtain ⟨v,hv,hx⟩ := holds_of_hears hh ht (hl ▸ hpos)
    exact ⟨v,hv,(h.apply op).identity_eq hv,hl ▸ hx⟩
  · intro peer op ho m'
    rw [← hl]
    refine ⟨fun v hv => ?_,fun w hw hv => expired_of_lost ho hw hv⟩
    obtain ⟨w,hw,he⟩ := h.entry_of_apply ho hv
    exact ⟨w,hw,he,h.expiry_of_apply ho hw hv⟩
  · intro peer more ho v hv
    exact h.entry_of_run ho hv

/-- Two peers that would have one text without the zeros in front: the second one is registered
beside the first one, whose entry stays as it is, also in a sweep, until its time is over. -/
theorem peers_keep_their_entries_zeros :
    let peer : Frame := ⟨[0x01,0x23]⟩
    let other : Frame := ⟨[0x12,0x03]⟩
    let m := (start 2500 12500 0).run [.handle peer (Wire.ready "echo") 0]
    let op := Operation.handle other (Wire.ready "sum") 1
    let w : Worker := { identity := peer, service := "echo", expiry := 12500 }
    (m.workers.get? peer.hex = some w ∧ (peer.hex = other.hex ↔ w.identity = other)) ∧
    (m.hears other op = true ∧ op.time? = some 1 ∧ 0 < 12500 ∧
      ∃ v, (m.apply op).1.workers.get? other.hex = some v ∧ v.identity = other ∧
        1 + 12500 ≤ v.expiry) ∧
    (op.from? peer = none ∧ (m.apply op).1.workers.get? peer.hex = some w ∧
      ∃ u, m.workers.get? peer.hex = some u ∧ w = { u with expiry := w.expiry } ∧
        w.expiry = u.expiry) ∧
    ((∀ x ∈ [op,.sweep 12499], x.from? peer = none) ∧
      (m.run [op,.sweep 12499]).workers.get? peer.hex = some w ∧
      ∃ u, m.workers.get? peer.hex = some u ∧ w = { u with expiry := w.expiry }) ∧
    (m.apply (.sweep 12500)).1.workers.get? peer.hex = none ∧
    ∃ time, (Operation.sweep 12500).time? = some time ∧ (w.expiry ≤ time ∨ 12500 = 0) := by
  intro peer other m op w
  obtain ⟨_,hown,_,hheard,hstep,hrun⟩ :=
    peers_keep_their_entries 2500 12500 0 [.handle peer (Wire.ready "echo") 0]
  have hw : m.workers.get? peer.hex = some w := by decide
  have hh : m.hears other op = true := by decide
  have ho : op.from? peer = none := by decide
  have hv : (m.apply op).1.workers.get? peer.hex = some w := by decide
  have hmore : ∀ x ∈ [op,.sweep 12499], x.from? peer = none := by decide
  have hr : (m.run [op,.sweep 12499]).workers.get? peer.hex = some w := by decide
  have hgone : (m.apply (.sweep 12500)).1.workers.get? peer.hex = none := by decide
  obtain ⟨u,hu,he,hx⟩ := (hstep peer op ho).1 w hv
  have hx := hx.resolve_right fun h => absurd h.1 (by decide)
  have hlost := ((hstep peer (.sweep 12500) rfl).2 w hw hgone).resolve_left (by decide)
  exact ⟨⟨hw,hown _ w hw other⟩,⟨hh,rfl,by decide,hheard other op 1 hh rfl (by decide)⟩,
    ⟨ho,hv,u,hu,he,hx⟩,⟨hmore,hr,hrun peer _ hmore w hr⟩,hgone,hlost⟩

end Majordomo.Broker.Mediator
