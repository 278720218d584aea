import Majordomo.Proofs.Client.Outbox

/-! # The messages that a send accepts

A send accepts its message at once, or it waits and the message is accepted when it is
admitted to the queue.
-/
namespace Majordomo.Client.State
variable {s s' : State}

/-- The messages of which the application learns, by this act, that they were accepted. -/
def accepts (s : State) : Act → List Outbound
  | .send ticket o => if (s.send ticket o).1 = .accepted then [o] else []
  | .sendIgnoringReply ticket o =>
    if (s.sendIgnoringReply ticket o).1 = .accepted then [o] else []
  | .disconnect ticket id =>
    if (s.send ticket (disconnection id)).1 = .accepted then [disconnection id] else []
  | .attempt o => if (s.trySend o).1 = .accepted then [o] else []
  | .move .admission => if s.hasRoom then (s.waiting.head?.map Prod.snd).toList else []
  | _ => []

theorem accepts_of_move_none {task : Task} (h : s.move task = none) :
    s.accepts (.move task) = [] := by
  cases task with
  | admission =>
    change s.admissionMove = none at h
    cases hw : s.waiting with
    | nil => simp [accepts, hw]
    | cons =>
      cases hr : s.hasRoom with
      | true => simp [admissionMove, hw, hr] at h
      | false => simp [accepts, hr]
  | sender | receiver | watchdog | reconnect => rfl

theorem gains_trySend (o : Outbound) (s : State) :
    Gains (if (s.trySend o).1 = .accepted then [o] else []) s (s.trySend o).2 := by
  have hrequest : Gains [] s s.requestSend := gains_requestSend s
  rcases s.trySend_cases o with ⟨_,h⟩ | ⟨_,_,_,h⟩ | ⟨_,h⟩ <;> simp only [h]
  · exact gains_of_eq rfl rfl rfl rfl
  · exact hrequest.trans (gains_push o s.requestSend)
  · exact hrequest

theorem gains_send (ticket : Nat) (o : Outbound) (s : State) :
    Gains (if (s.send ticket o).1 = .accepted then [o] else []) s (s.send ticket o).2 := by
  have htry := s.gains_trySend o
  rcases s.trySend_cases o with ⟨_,h⟩ | ⟨_,_,_,h⟩ | ⟨_,h⟩ <;> simp only [send, h] at htry ⊢
  · exact htry
  · exact htry
  · exact htry.trans (gains_of_eq rfl rfl rfl rfl)

/-- Where no task moves, the messages that are accepted go to the end of the queue. -/
theorem gains_apply {a : Act} (ha : a.isInner = false) (s : State) :
    Gains (s.accepts a) s (s.apply a) := by
  cases a with
  | move | overlook => cases ha
  | send ticket o => exact gains_send ticket o s
  | sendIgnoringReply ticket o =>
    have hsend := gains_send ticket o { s with suppressNext := true }
    exact { hsend with }
  | disconnect ticket id => exact gains_send ticket (disconnection id) s
  | attempt o => exact gains_trySend o s
  | close => exact gains_close s
  | network event =>
    exact gains_of_grows (.refl _) rfl (.of_eq (Network.takenBy_onEvent s.network event)) rfl
  | listen | tick | shutdown => exact gains_of_eq rfl rfl rfl rfl

end Majordomo.Client.State
