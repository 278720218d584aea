import Majordomo.Proofs.Wire.Reading
import Majordomo.Worker.State

/-! # What is on its way between clients and handlers

A request goes from its client through the broker to the handler of a worker, and the
answer goes the same way back. On each of the four ways it is told from the message
that carries it.
-/
namespace Majordomo.Exchange

/-- A request on its way to a handler, or a handler's answer on its way back. -/
inductive Parcel
  | request (client : Frame) (service : String) (body : Message)
  | reply (client : Frame) (service : String) (body : Message)
deriving DecidableEq

namespace Parcel

def asked? (client : Frame) (frames : Message) : Option Parcel :=
  match Wire.Inbound.ofFrames frames with
  | .ok (.client service body) =>
    if Wire.isInternal service.toText then none else some (.request client service.toText body)
  | _ => none

def sought? (service : String) (frames : Message) : Option Parcel :=
  (Wire.requestOf? frames).bind fun e => e.address?.map (.request · service e.body)

def given? (service : String) (frames : Message) : Option Parcel :=
  match Wire.Inbound.ofFrames frames with
  | .ok (.worker (.reply e)) => e.address?.map (.reply · service e.body)
  | _ => none

theorem asked?_eq_some {client : Frame} {frames : Message} {p : Parcel}
    (h : asked? client frames = some p) :
    ∃ name body, frames = Wire.clientMessage name body ∧ Wire.isInternal name.toText = false ∧
      p = .request client name.toText body := by
  simp only [asked?] at h
  split at h
  · rename_i name body hf
    split at h
    · cases h
    · rename_i hn
      cases h
      exact ⟨name,body,Wire.Inbound.eq_clientMessage hf,by simpa using hn,rfl⟩
  · cases h

theorem sought?_eq_some {service : String} {frames : Message} {p : Parcel}
    (h : sought? service frames = some p) :
    ∃ client body, p = .request client service body ∧
      Wire.requestOf? frames = some ((Envelope.ofBody body).wrap client) := by
  obtain ⟨e,he,hp⟩ := Option.bind_eq_some_iff.mp h
  obtain ⟨client,hc⟩ := Envelope.eq_wrap_of_depth_eq_one (Wire.depth_of_requestOf? he)
  rw [hc] at hp
  exact ⟨client,e.body,(Option.some.inj hp).symm,hc ▸ he⟩

theorem sought?_of_requestOf? {frames : Message} {client : Frame} {body : Message}
    (h : Wire.requestOf? frames = some ((Envelope.ofBody body).wrap client)) (service : String) :
    sought? service frames = some (.request client service body) := by
  rw [sought?, h]
  rfl

/-- The reply to a request is told from its message. -/
theorem given?_reply (service : String) (client : Frame) (body : Message) :
    given? service (Wire.reply ((Envelope.ofBody body).wrap client)) =
      some (.reply client service body) := by
  have he := ((Envelope.ofBody body).wrap client).ofFrames?_toFrames
  simp only [given?, Wire.reply, Wire.Inbound.ofFrames_workerMessage, Wire.WorkerCommand.ofFrames,
    Wire.Command.ofFrame?_frame]
  rw [show Envelope.ofFrames? 1 _ = _ from he]
  rfl

/-- Whatever else a worker says answers nothing. -/
theorem given?_frames {o : Worker.Output} (h : ∀ e, o ≠ .reply e) (service name : String) :
    given? service (o.frames name) = none := by
  cases o with
  | reply e => exact absurd rfl (h e)
  | ready =>
    simp [given?, Worker.Output.frames, Wire.ready, Wire.WorkerCommand.ofFrames, Except.map]
  | heartbeat =>
    simp [given?, Worker.Output.frames, Wire.heartbeat, Wire.WorkerCommand.ofFrames, Except.map]
  | disconnect =>
    simp [given?, Worker.Output.frames, Wire.disconnect, Wire.WorkerCommand.ofFrames, Except.map]
  | shutdown n =>
    simp only [given?, Worker.Output.frames, Wire.shutdown, Wire.Inbound.ofFrames_workerMessage,
      Wire.WorkerCommand.ofFrames, Wire.Command.ofFrame?_frame]
    cases Envelope.ofFrames? 1 _ <;> rfl

theorem asked?_workerMessage (client : Frame) (c : Wire.Command) (rest : Message) :
    asked? client (Wire.workerMessage c rest) = none := by
  simp only [asked?, Wire.Inbound.ofFrames_workerMessage]
  cases Wire.WorkerCommand.ofFrames c.frame rest <;> rfl

theorem asked?_frames (client : Frame) (o : Worker.Output) (name : String) :
    asked? client (o.frames name) = none := by
  cases o <;> exact asked?_workerMessage client _ _

end Parcel

/-- A worker announces no service but its own. -/
theorem ready_of_frames {o : Worker.Output} {name service : String}
    (h : Wire.Inbound.ofFrames (o.frames name) = .ok (.worker (.ready service))) :
    service = (Frame.ofText name).toText := by
  cases o with
  | ready =>
    simp only [Worker.Output.frames, Wire.ready, Wire.Inbound.ofFrames_workerMessage,
      Wire.WorkerCommand.ofFrames, Wire.Command.ofFrame?_frame, Except.map] at h
    cases h
    rfl
  | heartbeat | disconnect =>
    simp [Worker.Output.frames, Wire.heartbeat, Wire.disconnect, Wire.WorkerCommand.ofFrames,
      Except.map] at h
  | reply e =>
    simp only [Worker.Output.frames, Wire.reply, Wire.Inbound.ofFrames_workerMessage,
      Wire.WorkerCommand.ofFrames, Wire.Command.ofFrame?_frame] at h
    split at h <;> cases h
  | shutdown n =>
    simp only [Worker.Output.frames, Wire.shutdown, Wire.Inbound.ofFrames_workerMessage,
      Wire.WorkerCommand.ofFrames, Wire.Command.ofFrame?_frame] at h
    split at h <;> cases h

end Majordomo.Exchange
