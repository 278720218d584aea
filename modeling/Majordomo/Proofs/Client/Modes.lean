import Majordomo.Proofs.Client.Conservation
import Majordomo.Proofs.Client.Whole
import Mathlib.Logic.ExistsUnique

/-! # The modes of a session that is at rest

When no task can move, a session that nothing has told to end is paused after a connect that
failed, waits for the session manager, is connected, or is stalled since the far end makes no room
for what is to be written.
-/
namespace Majordomo.Client

inductive Standing
  | paused
  | handshaking
  | connected
  | stalled
deriving DecidableEq

def Threads.Stands (th : Threads) : Standing → Prop
  | .paused =>
    th.session.episode = none ∧ th.session.releasePhase = .new ∧ th.session.Paused
  | .handshaking =>
    (∃ e, th.session.episode = some e ∧ e.sender.isConnecting = true) ∧
      th.session.releasePhase = .new ∧ th.session.sendPhase = .started ∧
      th.session.receivePhase = .new ∧ th.session.sent = 0 ∧ th.session.received = 0
  | .connected =>
    (∃ e manager session,
      th.session.episode = some e ∧ e.sender = .forwarding manager session) ∧
      th.session.releasePhase = .new ∧ th.session.sendPhase = .started ∧
      th.session.receivePhase = .started ∧
      th.session.sent - th.session.received ≤ th.session.settings.threshold ∧
      th.session.queue = []
  | .stalled =>
    (∃ e manager session o,
      th.session.episode = some e ∧ e.sender = .forwarding manager session ∧
      th.hand = some o ∧
      th.hasRoom (th.session.route manager session o.target) = false ∧
      (th.session.receivePhase = .started ∧ th.session.queue ≠ [] ∨
        th.session.receivePhase ≠ .started ∧ e.receiver = .ended)) ∧
      th.session.releasePhase = .new ∧ th.session.sendPhase = .started ∧
      th.session.sent - th.session.received ≤ th.session.settings.threshold

namespace State
variable {s : State} {e : Episode}

theorem isQuiescent_iff : s.isQuiescent = true ↔ ∀ t, s.move t = none := by
  simp only [isQuiescent, List.all_cons, List.all_nil, Bool.and_true, Bool.and_eq_true,
    Option.isNone_iff_eq_none]
  constructor
  · rintro ⟨hs,hr,hw,hc,ha⟩ t
    cases t <;> assumption
  · exact fun h => ⟨h _,h _,h _,h _,h _⟩

/-- A sender that is told to stop can move until it has ended. -/
theorem senderTurn_of_stopped (hx : s.isStopped e = true) (hs : e.sender ≠ .ended) :
    s.senderTurn e ≠ none := by
  unfold senderTurn
  split
  · exact Option.some_ne_none _
  · rw [if_pos hx]
    exact Option.some_ne_none _
  · rw [awaitAnswer, if_pos hx]
    exact Option.some_ne_none _
  · rw [if_pos hx]
    exact Option.some_ne_none _
  · rw [forward, if_pos hx]
    exact Option.some_ne_none _
  · contradiction

theorem receiverTurn_of_stopped (hx : s.isStopped e = true) (hr : e.receiver ≠ .ended) :
    s.receiverTurn e ≠ none := by
  unfold receiverTurn
  split
  · rw [if_pos hx]
    exact Option.some_ne_none _
  · exact Option.some_ne_none _
  · rw [read, if_pos hx]
    exact Option.some_ne_none _
  · contradiction

/-- The tasks of an episode that is told to stop do not rest before it is over. -/
theorem not_isStopped_of_turns (hs : s.senderTurn e = none) (hr : s.receiverTurn e = none)
    (hv : e.Valid) (ho : e.isOver = false) : s.isStopped e = false := by
  refine Bool.eq_false_iff.mpr fun hx => ?_
  by_cases hends : e.sender = .ended
  · have hended : e.receiver ≠ .ended := fun h => by
      cases ho.symm.trans (hv.isOver_iff.mpr ⟨hends,h⟩)
    exact receiverTurn_of_stopped hx hended hr
  · exact senderTurn_of_stopped hx hends hs

theorem not_isStopped_of_quiescent (hq : s.isQuiescent = true) (he : s.episode = some e)
    (hv : e.Valid) (ho : e.isOver = false) : s.isStopped e = false := by
  rw [isQuiescent_iff] at hq
  exact not_isStopped_of_turns ((within_eq_none he).mp (hq .sender))
    ((within_eq_none he).mp (hq .receiver)) hv ho

theorem not_reconnectDue_of_quiescent (hq : s.isQuiescent = true) : s.reconnectDue = false := by
  rw [isQuiescent_iff] at hq
  have hm : s.reconnectMove = none := hq .reconnect
  unfold reconnectMove at hm
  split at hm
  · cases hm
  · rename_i hd
    simpa using hd

/-- A sender that rests while it may go on has sent all it could. -/
theorem queue_of_senderTurn (hm : s.senderTurn e = none) {manager : Nat} {session : Option Nat}
    (hs : e.sender = .forwarding manager session) : s.queue = [] := by
  simp only [senderTurn, hs] at hm
  unfold forward at hm
  split at hm
  · cases hm
  · split at hm
    · assumption
    · cases hm

/-- While the sender goes on and the receiver cannot move, it reads or has ended. -/
theorem Live.reading_or_ended (hl : s.Live e) (hr : s.receiverTurn e = none)
    {manager : Nat} {session : Option Nat} (hs : e.sender = .forwarding manager session) :
    (∃ id, e.receiver = .reading id) ∨ e.receiver = .ended := by
  rcases hl.valid.forwarding manager session hs with h | h | h
  · simp [receiverTurn, h] at hr
  · exact .inl ⟨_,h⟩
  · exact .inr h

theorem Resting.pauses (hr : s.Resting) (hd : s.reconnectDue = false)
    (hm : s.monitor.cancelled = false) : s.releasePhase = .new ∧ s.Paused := by
  have hp : s.releasePhase = .new := by
    cases hp : s.releasePhase with
    | new => rfl
    | started => cases hd.symm.trans (hr.due.mpr hp)
    | finished =>
      have hk := hr.cutOff hp
      simp [isCancelled, hr.notStopped, hm] at hk
    | stopped => exact absurd hp hr.release
  exact ⟨hp,hr.paused hp⟩

end State

namespace Threads
variable {th : Threads} {e : Episode}

theorem move_of_quiescent (hq : th.isQuiescent = true) (task : State.Task) :
    th.move task = none := by
  simp only [isQuiescent, Bool.and_eq_true, List.all_eq_true, Option.isNone_iff_eq_none] at hq
  exact hq.1.2 task (by cases task <;> decide)

theorem turns_of_quiescent (hq : th.isQuiescent = true) (he : th.session.episode = some e) :
    th.turn .sender e = none ∧ th.session.receiverTurn e = none := by
  have hs := move_of_quiescent hq .sender
  have hr := move_of_quiescent hq .receiver
  simp only [move, he, Option.map_eq_none_iff] at hs hr
  exact ⟨hs,Option.map_eq_none_iff.mp hr⟩

theorem not_reconnectDue_of_quiescent (hq : th.isQuiescent = true) :
    th.session.reconnectDue = false := by
  have hm : th.revive = none := move_of_quiescent hq .reconnect
  unfold revive at hm
  split at hm
  · cases hm
  · rename_i hd
    simpa using hd

/-- With nothing in hand the sender rests where it does in a run. -/
theorem senderTurn_of_turn (hh : th.hand = none) (hm : th.turn .sender e = none) :
    th.session.senderTurn e = none := by
  unfold turn at hm
  dsimp only at hm
  split at hm
  · rename_i hs
    simp only [State.senderTurn, hs]
    unfold forward at hm
    unfold State.forward
    simp only [hh] at hm
    split at hm
    · cases hm
    · rename_i hx
      rw [if_neg hx]
      cases hq : th.session.queue with
      | nil => rfl
      | cons o queue =>
        rw [hq] at hm
        cases hm
  · exact Option.map_eq_none_iff.mp hm

/-- With nothing in hand a live episode waits for the session manager, or has sent all it could. -/
theorem Whole.stands_of_empty (h : th.Whole) (hq : th.isQuiescent = true)
    (he : th.session.episode = some e) (hc : th.session.closing = false) (hh : th.hand = none) :
    th.Stands .handshaking ∨ th.Stands .connected := by
  obtain ⟨hl,ho⟩ := h.sound.live e he
  obtain ⟨hm,hr⟩ := turns_of_quiescent hq he
  have hm : th.session.senderTurn e = none := senderTurn_of_turn hh hm
  have hx := State.not_isStopped_of_turns hm hr hl.valid ho
  have hends : e.sender ≠ .ended ∧ e.receiver ≠ .ended := by
    have hv := hl.valid.stopped
    rw [(Bool.or_eq_false_iff.mp hx).1] at hv
    simpa using hv
  have hsend := hl.send hc
  have hreceive := hl.receive hc
  cases hs : e.sender with
  | starting => simp [State.senderTurn, hs] at hm
  | dialling | awaiting | joining =>
    have hcon : e.sender.isConnecting = true := by rw [hs]; rfl
    have hw : e.receiver = .waiting := (hl.valid.connecting hcon).resolve_right hends.2
    rw [hw] at hreceive
    rw [hs] at hsend
    exact .inl ⟨⟨e,he,hcon⟩,hl.release hc,hsend,by simpa [Receiver.phases] using hreceive,
      hl.counters (.inl hcon)⟩
  | forwarding manager session =>
    have hqueue : th.session.queue = [] := State.queue_of_senderTurn hm hs
    obtain ⟨id,hid⟩ := (hl.reading_or_ended hr hs).resolve_right hends.2
    rw [hid] at hreceive
    rw [hs] at hsend
    have hgap : th.session.sent - th.session.received ≤ th.session.settings.threshold := by
      simpa [State.isTripped] using hl.valve hends.1
    exact .inr ⟨⟨e,manager,session,he,hs⟩,hl.release hc,hsend,
      by simpa [Receiver.phases] using hreceive,hgap,hqueue⟩
  | ended => exact absurd hs hends.1

/-- With a message in hand the sender waits for room. -/
theorem Whole.stands_of_held (h : th.Whole) (hcrewed : th.Crewed) (hq : th.isQuiescent = true)
    (he : th.session.episode = some e) (hc : th.session.closing = false) {o : Outbound}
    (hh : th.hand = some o) : th.Stands .connected ∨ th.Stands .stalled := by
  obtain ⟨hl,_⟩ := h.sound.live e he
  obtain ⟨hm,hr⟩ := turns_of_quiescent hq he
  obtain ⟨f,hf,manager,session,hs⟩ := hcrewed.held (by simp [hh])
  obtain rfl : f = e := by simpa [crews, he, h.strays] using hf
  have hroom : th.hasRoom (th.session.route manager session o.target) = false := by
    simpa [turn, hs, forward, hh] using hm
  have hsend : th.session.sendPhase = .started := by simpa [hs, Sender.phase] using hl.send hc
  have hreceive := hl.receive hc
  have hgap : th.session.sent - th.session.received ≤ th.session.settings.threshold := by
    simpa [State.isTripped] using hl.valve (by simp [hs])
  rcases hl.reading_or_ended hr hs with ⟨id,hid⟩ | hended
  · have hstarted : th.session.receivePhase = .started := by
      simpa [hid, Receiver.phases] using hreceive
    by_cases hqueue : th.session.queue = []
    · exact .inl ⟨⟨_,manager,session,he,hs⟩,hl.release hc,hsend,hstarted,hgap,hqueue⟩
    · exact .inr ⟨⟨_,manager,session,o,he,hs,hh,hroom,.inl ⟨hstarted,hqueue⟩⟩,hl.release hc,
        hsend,hgap⟩
  · have hstarted : th.session.receivePhase ≠ .started := fun hp => by
      simp [hended, hp, Receiver.phases] at hreceive
    exact .inr ⟨⟨_,manager,session,o,he,hs,hh,hroom,.inr ⟨hstarted,hended⟩⟩,hl.release hc,hsend,
      hgap⟩

/-- No two modes hold at once. -/
theorem Stands.unique {m m' : Standing} (h : th.Stands m) (h' : th.Stands m') : m = m' := by
  cases m <;> cases m' <;> grind [Stands, Sender.isConnecting]

/-- A session at rest that has not been closed, in an application that goes on, is in exactly one
of the four modes, if nobody was interrupted. -/
theorem exactly_one_mode (c : Settings) (m : Mode) (monitor : Monitor) (listener : Option Nat)
    (deeds : List Deed) (hd : ∀ d ∈ deeds, d.isWhole = true)
    (hq : ((start c m monitor listener).course deeds).isQuiescent = true)
    (hc : ((start c m monitor listener).course deeds).session.closing = false)
    (hm : ((start c m monitor listener).course deeds).session.monitor.cancelled = false) :
    ∃! mode, ((start c m monitor listener).course deeds).Stands mode := by
  have h := whole_course (whole_start c m monitor listener) hd
  have hcrewed := ((conserved_start c m monitor listener).course deeds).crewed
  generalize (start c m monitor listener).course deeds = th at *
  refine existsUnique_of_exists_of_unique ?_ fun _ _ => Stands.unique
  rcases Option.eq_none_or_eq_some th.session.episode with he | ⟨e,he⟩
  · have hr := h.sound.resting he hc
    exact ⟨.paused,he,hr.pauses (not_reconnectDue_of_quiescent hq) hm⟩
  · rcases Option.eq_none_or_eq_some th.hand with hh | ⟨o,hh⟩
    · rcases h.stands_of_empty hq he hc hh with hs | hs
      · exact ⟨_,hs⟩
      · exact ⟨_,hs⟩
    · rcases h.stands_of_held hcrewed hq he hc hh with hs | hs
      · exact ⟨_,hs⟩
      · exact ⟨_,hs⟩

/-- After a first connect that is refused the session is paused. -/
theorem exactly_one_mode_refused :
    let deeds := [Deed.act (.move .sender),.act (.move .receiver)]
    let th := (start .sample .refuse {} none).course deeds
    ((∀ d ∈ deeds, d.isWhole = true) ∧ th.isQuiescent = true ∧ th.session.closing = false ∧
      th.session.monitor.cancelled = false) ∧ ∃! mode, th.Stands mode := by
  intro deeds th
  have hd : ∀ d ∈ deeds, d.isWhole = true := by decide
  have hq : th.isQuiescent = true := by decide
  have hc : th.session.closing = false := by decide
  have hm : th.session.monitor.cancelled = false := by decide
  exact ⟨⟨hd,hq,hc,hm⟩,exactly_one_mode .sample .refuse {} none deeds hd hq hc hm⟩

/-- The session manager accepts and then makes no room: of two messages the sender has one in hand,
and the other is in the queue. -/
theorem stalls_without_room :
    let deeds : List Deed := [
      .act (.move .sender), .accepts 0, .act (.move .sender), .act (.move .receiver),
      .fill 0,
      .act (.send 0 ⟨"echo","a"⟩), .act (.move .sender),
      .act (.send 1 ⟨"echo","b"⟩)]
    let th := (start .sample .accept {} none).course deeds
    ((∀ d ∈ deeds, d.isWhole = true) ∧ th.isQuiescent = true ∧ th.session.closing = false ∧
      th.session.monitor.cancelled = false) ∧
      th.session.queue = [⟨"echo","b"⟩] ∧ ∀ mode, th.Stands mode → mode = .stalled := by
  intro deeds th
  have hstalled : th.Stands .stalled :=
    ⟨⟨{ sender := .forwarding 0 none, receiver := .reading 0, inUse := 3 },0,none,⟨"echo","a"⟩,
      by decide +kernel,rfl,by decide +kernel,by decide +kernel,
      .inl ⟨by decide +kernel,by decide +kernel⟩⟩,by decide +kernel,by decide +kernel,
      by decide +kernel⟩
  exact ⟨⟨by decide,by decide +kernel,by decide +kernel,by decide +kernel⟩,by decide +kernel,
    fun _ h => h.unique hstalled⟩

end Threads
end Majordomo.Client
