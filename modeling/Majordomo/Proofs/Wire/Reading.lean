import Majordomo.Wire.Inbound
import Majordomo.Wire.Delivery
import Mathlib.Data.List.Basic

/-! # Messages are read as they were written

An envelope comes back from its frames at its own depth, and a message of one role
is never taken for one of the other.
-/
namespace Majordomo

namespace Envelope

@[simp] theorem toFrames_ofBody (body : Message) : (ofBody body).toFrames = body := rfl

@[simp] theorem toFrames_wrap (address : Frame) (e : Envelope) :
    (e.wrap address).toFrames = address :: .empty :: e.toFrames := rfl

@[simp] theorem depth_wrap (address : Frame) (e : Envelope) :
    (e.wrap address).depth = e.depth + 1 := rfl

theorem ofFrames?_toFrames (e : Envelope) : ofFrames? e.depth e.toFrames = some e := by
  obtain ⟨route,body⟩ := e
  induction route with
  | nil => rfl
  | cons address route ih =>
    change ofFrames? (route.length + 1) (address :: .empty :: Envelope.toFrames ⟨route,body⟩) = _
    simp only [ofFrames?, show Frame.isEmpty .empty = true from rfl, if_true]
    rw [show ofFrames? route.length _ = _ from ih]
    rfl

theorem depth_of_ofFrames? {n : Nat} {frames : Message} {e : Envelope}
    (h : ofFrames? n frames = some e) : e.depth = n := by
  induction n generalizing frames e with
  | zero =>
    cases h
    rfl
  | succ n ih =>
    cases frames with
    | nil => cases h
    | cons address frames =>
      cases frames with
      | nil => cases h
      | cons delimiter rest =>
        simp only [ofFrames?] at h
        split at h
        · obtain ⟨f,hf,rfl⟩ := Option.map_eq_some_iff.mp h
          rw [depth_wrap, ih hf]
        · cases h

/-- The envelope of a request around which there is one address. -/
theorem eq_wrap_of_depth_eq_one {e : Envelope} (h : e.depth = 1) :
    ∃ address, e = (ofBody e.body).wrap address := by
  obtain ⟨route,body⟩ := e
  obtain ⟨address,rfl⟩ := List.length_eq_one_iff.mp h
  exact ⟨address,rfl⟩

end Envelope

namespace Wire

theorem clientRole_ne_workerRole : Frame.ofText clientRole ≠ Frame.ofText workerRole := by decide

def requestOf? (frames : Message) : Option Envelope :=
  match BrokerCommand.ofFrames frames with
  | .ok (.request e) => some e
  | _ => none

@[simp] theorem afterRole_workerMessage (wrong : Violation) (c : Command) (rest : Message) :
    afterRole workerRole wrong (workerMessage c rest) = .ok (c.frame :: rest) := by
  simp [afterRole, workerMessage, show Frame.isEmpty .empty = true from rfl]

@[simp] theorem afterRole_clientMessage (wrong : Violation) (service : Frame) (body : Message) :
    afterRole workerRole wrong (clientMessage service body) = .error wrong := by
  simp [afterRole, clientMessage, clientRole_ne_workerRole]

@[simp] theorem Command.ofFrame?_frame (c : Command) : ofFrame? c.frame = some c := by
  cases c <;> rfl

theorem requestOf?_request {e : Envelope} (h : e.depth = 1) : requestOf? (request e) = some e := by
  have he := e.ofFrames?_toFrames
  rw [h] at he
  simp [requestOf?, request, BrokerCommand.ofFrames, he]

/-- What a worker takes for a request has one address. -/
theorem depth_of_requestOf? {frames : Message} {e : Envelope} (h : requestOf? frames = some e) :
    e.depth = 1 := by
  simp only [requestOf?, BrokerCommand.ofFrames] at h
  split at h
  · rename_i hf
    split at hf
    · cases hf
    · cases hf
    · split at hf
      · split at hf
        · rename_i he
          cases hf
          cases h
          exact Envelope.depth_of_ofFrames? he
        · cases hf
      · cases hf
      · cases hf
      · cases hf
  · cases h

theorem requestOf?_clientMessage (service : Frame) (body : Message) :
    requestOf? (clientMessage service body) = none := by
  simp [requestOf?, BrokerCommand.ofFrames]

theorem requestOf?_heartbeat : requestOf? heartbeat = none := by
  simp [requestOf?, BrokerCommand.ofFrames, heartbeat]

theorem requestOf?_disconnect : requestOf? disconnect = none := by
  simp [requestOf?, BrokerCommand.ofFrames, disconnect]

/-! ## What reaches the broker -/

@[simp] theorem Inbound.ofFrames_workerMessage (c : Command) (rest : Message) :
    Inbound.ofFrames (workerMessage c rest) =
      (WorkerCommand.ofFrames c.frame rest).map .worker := by
  simp [Inbound.ofFrames, workerMessage, clientRole_ne_workerRole.symm,
    show Frame.isEmpty .empty = true from rfl]

theorem Inbound.ofFrames_clientRole (rest : Message) (c : WorkerCommand) :
    Inbound.ofFrames (.empty :: .ofText clientRole :: rest) ≠ .ok (.worker c) := by
  simp only [Inbound.ofFrames, show Frame.isEmpty .empty = true from rfl, Bool.not_true,
    Bool.false_eq_true, if_false, if_true]
  split <;> simp

/-- A client's message holds the service and the body that are read from it. -/
theorem Inbound.eq_clientMessage {frames : Message} {service : Frame} {body : Message}
    (h : Inbound.ofFrames frames = .ok (.client service body)) :
    frames = clientMessage service body := by
  obtain _ | ⟨delimiter,_ | ⟨role,rest⟩⟩ := frames
  · cases h
  · simp only [ofFrames] at h
    split at h <;> cases h
  · simp only [ofFrames] at h
    split at h
    · cases h
    · rename_i hd
      obtain ⟨bytes⟩ := delimiter
      obtain rfl : bytes = [] := by simpa [Frame.isEmpty] using hd
      split at h
      · rename_i hr
        split at h
        · cases h
          exact hr ▸ rfl
        · cases h
      · split at h
        · split at h
          · cases h
          · cases hc : WorkerCommand.ofFrames _ _ <;> rw [hc] at h <;> cases h
        · cases h

end Wire
end Majordomo
