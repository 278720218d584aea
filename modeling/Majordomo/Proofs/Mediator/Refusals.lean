import Majordomo.Proofs.Mediator.Tally
import Majordomo.Proofs.Wire.Grammar

/-! # Messages that are refused

The broker refuses what it cannot read, and what only a registered worker may say when somebody
else says it. A refusal leaves everything as it was, but that a stranger is told to disconnect.
-/
namespace Majordomo.Broker.Mediator
variable {m : Mediator} {sender : Frame} {frames : Message}

def IsStrange (sender : Frame) (frames : Message) (m : Mediator) : Prop :=
  m.workers.contains sender.hex = false ∧
    ((∃ e, Wire.Inbound.ofFrames frames = .ok (.worker (.reply e))) ∨
      Wire.Inbound.ofFrames frames = .ok (.worker .heartbeat))

theorem handle_of_unreadable {v : Violation} (hf : Wire.Inbound.ofFrames frames = .error v)
    (time : Nat) (m : Mediator) : m.handle sender frames time = (m,some (.violation v)) := by
  simp only [handle, hf]

namespace Consistent

theorem turnAway_eq (h : m.Consistent) (hw : m.workers.contains sender.hex = false)
    (command : String) :
    m.turnAway sender command =
      (m.emit sender Wire.disconnect,some (.violation (.unregistered command sender.hex))) := by
  have he : (m.emit sender Wire.disconnect).Consistent := h.congr rfl rfl rfl
  rw [turnAway, he.remove_eq_self hw]

theorem handle_of_isStrange (h : m.Consistent) (hs : m.IsStrange sender frames) (time : Nat) :
    ∃ command, m.handle sender frames time =
      (m.emit sender Wire.disconnect,some (.violation (.unregistered command sender.hex))) := by
  obtain ⟨hw,⟨e,hf⟩ | hf⟩ := hs
  · have hg : m.workers.get? sender.hex = none := by simpa [Table.contains] using hw
    refine ⟨"REPLY",?_⟩
    simp only [handle, hf, command, hg, h.turnAway_eq hw]
  · refine ⟨"HEARTBEAT",?_⟩
    simp only [handle, hf, command, hw, Bool.false_eq_true, if_false, h.turnAway_eq hw]

end Consistent

/-- Whatever is read and not a stranger's is taken without a fault. -/
theorem fault_handle_eq_none {i : Wire.Inbound} (hf : Wire.Inbound.ofFrames frames = .ok i)
    (hs : ¬m.IsStrange sender frames) (time : Nat) : (m.handle sender frames time).2 = none := by
  cases i with
  | client service body => simp only [handle, hf]
  | worker c =>
    simp only [handle, hf]
    cases c with
    | ready | disconnect | unknown => rfl
    | reply e =>
      cases hg : m.workers.get? sender.hex with
      | none => exact absurd ⟨by simp [Table.contains, hg],.inl ⟨e,hf⟩⟩ hs
      | some w => simp only [command, hg]
    | heartbeat =>
      cases hw : m.workers.contains sender.hex with
      | false => exact absurd ⟨hw,.inr hf⟩ hs
      | true => simp only [command, hw, if_true]
    | shutdown e named =>
      simp only [command]
      cases ((m.workers.get? sender.hex).map (·.service)).or named <;> rfl

/-- After every run, a message is refused exactly if it cannot be read, or is a REPLY or HEARTBEAT
of a peer that is not registered. Then the services with their requests, idle workers and flags,
the workers with their bindings and expiries, the idle workers and the time of the next probe are
as before; so is the outbox in the first case, and in the second it ends in one DISCONNECT to the
sender. Nothing at all comes of a command that is not known, be it any other frame or a REQUEST;
and a DISCONNECT is answered by nothing. -/
theorem refusals_change_nothing (interval lifetime now : Nat) (ops : List Operation)
    (sender : Frame) (frames : Message) (time : Nat) :
    let m := (start interval lifetime now).run ops
    let r := m.handle sender frames time
    (r.2.isSome = true ↔
      (∃ v, Wire.Inbound.ofFrames frames = .error v) ∨ m.IsStrange sender frames) ∧
    ((∃ v, Wire.Inbound.ofFrames frames = .error v) → r.1 = m) ∧
    (m.IsStrange sender frames →
      r.1 = { m with outbox := m.outbox ++ [⟨sender,Wire.disconnect⟩] }) ∧
    (∀ command, Wire.Inbound.ofFrames frames = .ok (.worker (.unknown command)) → r = (m,none)) ∧
    (∀ command rest, (∀ c : Wire.Command, command = c.frame → c = .request) →
      frames = .empty :: .ofText Wire.workerRole :: command :: rest → r = (m,none)) ∧
    (Wire.Inbound.ofFrames frames = .ok (.worker .disconnect) →
      r.1.outbox = m.outbox ∧ r.2 = none) := by
  intro m r
  have h : m.Consistent := (consistent_start interval lifetime now).run ops
  have hunknown {c : Frame} (hf : Wire.Inbound.ofFrames frames = .ok (.worker (.unknown c))) :
      r = (m,none) := by
    simp only [r, handle, hf, command]
  refine ⟨⟨fun hr => ?_,?_⟩,?_,fun hs => ?_,fun c => hunknown,?_,fun hf => ?_⟩
  · cases hf : Wire.Inbound.ofFrames frames with
    | error v => exact .inl ⟨v,rfl⟩
    | ok i =>
      refine .inr ?_
      by_contra hs
      rw [show r.2 = none from fault_handle_eq_none hf hs time] at hr
      cases hr
  · rintro (⟨v,hf⟩ | hs)
    · rw [show r = (m,some (.violation v)) from handle_of_unreadable hf time m]
      rfl
    · obtain ⟨command,hr⟩ := h.handle_of_isStrange hs time
      rw [show r = _ from hr]
      rfl
  · rintro ⟨v,hf⟩
    exact congrArg Prod.fst (handle_of_unreadable hf time m)
  · obtain ⟨command,hr⟩ := h.handle_of_isStrange hs time
    exact congrArg Prod.fst hr
  · rintro command rest hc rfl
    exact hunknown (Wire.Reads.unknown rest hc).ofFrames
  · have hr : r = (m.remove sender.hex,none) := by simp only [r, handle, hf, command]
    rw [hr]
    exact ⟨outbox_remove sender.hex,rfl⟩

end Majordomo.Broker.Mediator
