import Majordomo.Proofs.Client.Greeting
import Majordomo.Proofs.Reports

/-! # Waiting for the session manager

A sender that has greeted the session manager waits until it hears something over the connection
or the watchdog expires. What it hears then does not depend on what the other tasks do before it
moves, and they do not rest before it has moved.
-/
namespace Majordomo.Client.State
variable {s u w : State} {e : Episode} {a : Act} {r : Option Received} {manager deadline : Nat}
  {expired : Bool}

/-! ## A sender that waits -/

theorem senderTurn_of_awaiting (hs : e.sender = .awaiting manager deadline expired) :
    s.senderTurn e = s.awaitAnswer manager expired e := by
  simp [senderTurn, hs]

theorem senderMove_of_awaiting (he : s.episode = some e)
    (hs : e.sender = .awaiting manager deadline expired) (h : s.senderMove = some w) :
    ∃ t e', s.awaitAnswer manager expired e = some (t,e') ∧ w = t.settleEpisode e' := by
  obtain ⟨e₁,t,e',he₁,ht,rfl⟩ := within_eq_some h
  obtain rfl := Option.some.inj (he.symm.trans he₁)
  exact ⟨t,e',(senderTurn_of_awaiting hs).symm.trans ht,rfl⟩

theorem awaitAnswer_eq_none :
    s.awaitAnswer manager expired e = none ↔
      s.isStopped e = false ∧ s.network.receive manager = none ∧ expired = false := by
  unfold awaitAnswer
  split
  · rename_i hx
    simp [hx]
  · rename_i hx
    split <;> rename_i hr <;> simp_all

theorem watchdogTurn_of_awaiting (hs : e.sender = .awaiting manager deadline false)
    (hx : s.isStopped e = false) :
    s.watchdogTurn e =
      if deadline ≤ s.clock then some (s.expire manager deadline e) else none := by
  simp [watchdogTurn, hs, hx]

structure Awaits (manager deadline : Nat) (s : State) : Prop where
  greeted : ∃ e, s.episode = some e ∧ e.sender = .awaiting manager deadline false
  unanswered : s.senderMove = none
  inTime : s.watchdogMove = none

theorem Awaits.waits (h : s.Awaits manager deadline) :
    (∃ e, s.episode = some e ∧ e.sender = .awaiting manager deadline false ∧
      s.isStopped e = false) ∧ s.network.receive manager = none ∧ s.clock < deadline := by
  obtain ⟨e,he,hs⟩ := h.greeted
  have hnone := (senderTurn_of_awaiting hs).symm.trans ((within_eq_none he).mp h.unanswered)
  obtain ⟨hx,hr,_⟩ := awaitAnswer_eq_none.mp hnone
  refine ⟨⟨e,he,hs,hx⟩,hr,Nat.lt_of_not_le fun hd => ?_⟩
  have hw := (watchdogTurn_of_awaiting hs hx).symm.trans ((within_eq_none he).mp h.inTime)
  simp [hd] at hw

/-! ## What ends the waiting -/

/-- What ends the waiting, and what the sender hears then. It hears nothing if the time is up. -/
inductive Relief (s : State) (manager deadline : Nat) : Act → Option Received → Prop
  | arrival (a : Arrival) :
    Relief s manager deadline (.network (.offer manager a)) (some a.received)
  | hangUp : Relief s manager deadline (.network (.hangUp manager)) (some .ended)
  | expiry {ms : Nat} (h : deadline ≤ s.clock + ms) : Relief s manager deadline (.tick ms) none

/-- The sender hears what ended the waiting. -/
theorem Relief.hears (h : Relief s manager deadline a r) (hw : s.Awaits manager deadline)
    (hp : s.Poised) :
    ((s.apply a).network.receive manager).map Prod.fst = r ∧
      (r = none ↔ deadline ≤ (s.apply a).clock) ∧
      (s.apply a).network.mode = s.network.mode := by
  obtain ⟨⟨e,he,hs,_⟩,hr,hd⟩ := hw.waits
  have hf := hp.facing e manager deadline false he hs
  obtain ⟨l,hl,hfacing⟩ := Option.map_eq_some_iff.mp hf
  have hheld : l.streamHeld = true := congrArg Prod.snd hfacing
  have hearly (g : Received) : some g = none ↔ deadline ≤ s.clock :=
    iff_of_false (Option.some_ne_none g) (Nat.not_le_of_lt hd)
  cases h with
  | arrival a =>
    have hstream : s.network.streamHeld manager = true := by
      simp [Network.streamHeld, Network.part?, hl, hheld]
    obtain ⟨n,hn⟩ := Network.receive_offer hr hstream a
    refine ⟨congrArg (Option.map Prod.fst) hn,hearly _,?_⟩
    change (s.network.onEvent (.offer manager a)).2.mode = _
    rcases s.network.onEvent_offer manager a with hv | ⟨_,_,hv⟩ <;> rw [hv]
    rfl
  | hangUp =>
    have hlt : manager < s.network.links.length := (List.getElem?_eq_some_iff.mp hl).1
    obtain ⟨n,hn⟩ := Network.receive_hangUp hr hlt
    refine ⟨congrArg (Option.map Prod.fst) hn,hearly _,?_⟩
    change (s.network.onEvent (.hangUp manager)).2.mode = _
    simp [Network.onEvent, hlt, Network.update]
  | expiry hms => exact ⟨congrArg (Option.map Prod.fst) hr,iff_of_true rfl hms,rfl⟩

/-! ## Before the sender moves -/

structure Lingers (s : State) (manager deadline : Nat) (a : Act) (expired : Bool) (u : State) :
    Prop where
  sender : ∃ e, u.episode = some e ∧ e.sender = .awaiting manager deadline expired ∧
    u.isStopped e = false
  network : u.network = (s.apply a).network
  clock : u.clock = (s.apply a).clock
  settings : u.settings = s.settings
  listener : u.listener = s.listener
  monitor : u.monitor = if expired then
    s.monitor.report (.handshakeTimeout s.settings.server s.settings.timeout) else s.monitor
  late : expired = true → deadline ≤ u.clock

theorem Relief.lingers (h : Relief s manager deadline a r) (hw : s.Awaits manager deadline) :
    Lingers s manager deadline a false (s.apply a) := by
  have hsender := hw.waits.1
  cases h <;> exact ⟨hsender,rfl,rfl,rfl,rfl,rfl,nofun⟩

/-- No other task moves the sender, and only the watchdog does anything about the episode. -/
theorem Lingers.move (h : Lingers s manager deadline a expired u) (hu : u.Sound) {task : Task}
    (ht : task ≠ .sender) (hm : u.move task = some w) :
    ∃ expired, Lingers s manager deadline a expired w := by
  obtain ⟨e,he,hs,hx⟩ := h.sender
  obtain ⟨hl,_⟩ := hu.live e he
  cases task with
  | sender => contradiction
  | receiver =>
    have hw : e.receiver = .waiting :=
      hl.valid.waiting (by rw [hs]; rfl) (Bool.or_eq_false_iff.mp hx).1
    obtain ⟨_,_,_,he₁,hturn,_⟩ := within_eq_some hm
    obtain rfl := Option.some.inj (he.symm.trans he₁)
    simp [receiverTurn, hw, hx] at hturn
  | watchdog =>
    obtain ⟨_,_,_,he₁,hturn,rfl⟩ := within_eq_some hm
    obtain rfl := Option.some.inj (he.symm.trans he₁)
    cases expired with
    | true => simp [watchdogTurn, hs] at hturn
    | false =>
      rw [watchdogTurn_of_awaiting hs hx] at hturn
      split at hturn
      · rename_i hd
        cases hturn
        have ho : Episode.isOver { e with sender := .awaiting manager deadline true } = false :=
          (hu.live e he).2
        rw [settleEpisode_of_not_over ho]
        refine ⟨true,⟨_,rfl,rfl,?_⟩,h.network,h.clock,h.settings,h.listener,?_,fun _ => hd⟩
        · -- that the time is up stops nobody
          have hm := Monitor.cancelled_report (f := .handshakeTimeout u.settings.server
            u.settings.timeout) rfl u.monitor
          simpa [isStopped, isCancelled, State.report, hm] using hx
        · simp [State.report, h.settings, h.monitor]
      · cases hturn
  | reconnect => simp [State.move, reconnectMove, hl.notDue] at hm
  | admission =>
    change u.admissionMove = some w at hm
    unfold admissionMove at hm
    split at hm
    · split at hm
      · cases hm
        exact ⟨expired,⟨e,he,hs,hx⟩,h.network,h.clock,h.settings,h.listener,h.monitor,h.late⟩
      · cases hm
    · cases hm

theorem Lingers.moves {others : List Task} (h : Lingers s manager deadline a expired u)
    (hu : u.Sound) (hp : u.Poised) (hn : .sender ∉ others)
    (hm : others.foldlM State.move u = some w) :
    w.Sound ∧ w.Poised ∧ ∃ expired, Lingers s manager deadline a expired w := by
  induction others generalizing u expired with
  | nil =>
    cases hm
    exact ⟨hu,hp,expired,h⟩
  | cons task others ih =>
    obtain ⟨ht,hn⟩ := List.ne_and_not_mem_of_not_mem_cons hn
    rw [List.foldlM_cons] at hm
    obtain ⟨v,hv,hm⟩ := Option.bind_eq_some_iff.mp hm
    obtain ⟨expired',h'⟩ := h.move hu ht.symm hv
    have hstep := step_move hu.sane hv
    exact ih h' (hstep.sound hu) (hstep.poised hu hp) hn hm

/-- The tasks do not rest before the sender has moved. -/
theorem Lingers.not_isQuiescent (h : Lingers s manager deadline a expired u)
    (hr : (u.network.receive manager).map Prod.fst = r) (hlate : r = none ↔ deadline ≤ u.clock) :
    u.isQuiescent = false := by
  obtain ⟨e,he,hs,hx⟩ := h.sender
  refine Bool.eq_false_iff.mpr fun hq => ?_
  rw [isQuiescent_iff] at hq
  have hsender : u.senderTurn e = none := (within_eq_none he).mp (hq .sender)
  have hwatchdog : u.watchdogTurn e = none := (within_eq_none he).mp (hq .watchdog)
  rw [senderTurn_of_awaiting hs, awaitAnswer_eq_none] at hsender
  obtain ⟨_,hnone,rfl⟩ := hsender
  rw [hnone] at hr
  rw [watchdogTurn_of_awaiting hs hx, if_pos (hlate.mp hr.symm)] at hwatchdog
  cases hwatchdog

end Majordomo.Client.State
