import Majordomo.Proofs.Client.Crews

/-! # Courses without interruption

Where nobody comes in between, a session stands after every deed as it does in a run, though a
write may wait and the sender have a message in hand.
-/
namespace Majordomo.Client

section
variable {hand hand' : Option Outbound} {o : Outbound} {s t : State} {e e' : Episode}

/-- What is noted tells of no event. -/
theorem State.Live.passive (hl : s.Live e) (queue : List Outbound) {journal : List Entry}
    (hj : journal.filterMap Entry.event? = s.events) :
    State.Live { s with queue, journal } e := by
  have hev : State.events { s with queue, journal } = s.events := (State.events_eq _).trans hj
  exact { hl with announced := hev ▸ hl.announced, failed := fun hf => hev ▸ hl.failed hf }

/-- A sender that has been told to stop, or has to end for another reason. -/
theorem State.Live.quit (hl : s.Live e) {manager : Nat} {session : Option Nat}
    (hs : e.sender = .forwarding manager session) (network : Network) (sent : Nat)
    {journal : List Entry} (hj : journal.filterMap Entry.event? = s.events) :
    State.Live
      { s with
        queueHome := true
        sendPhase := s.sendPhase.next .finished
        network, sent, journal } e.quit := by
  have hf : e.connectFailed = false := Bool.eq_false_iff.mpr fun hf => by
    cases hs.symm.trans (hl.valid.failed hf).1
  have hlive : State.Live { s with monitor := s.monitor.shutdown } e := { hl with }
  have hx : State.isStopped e { s with monitor := s.monitor.shutdown } = true := by
    simp [State.isStopped, State.isCancelled, Monitor.shutdown]
  have hquit := (Turn.halt hs hx).live hlive
  have hev : State.events { s with
      queueHome := true
      sendPhase := s.sendPhase.next .finished
      network, sent, journal } = s.events := (State.events_eq _).trans hj
  exact
    { hquit with
      announced := hev ▸ hl.announced
      counters := fun hc => by simp [Episode.quit, Sender.isConnecting, hf] at hc
      valve := fun hn => absurd rfl hn
      failed := fun hx => by cases hf.symm.trans hx }

theorem Put.live (h : Put s e o t e') (hl : s.Live e) : t.Live e' := by
  cases h with
  | @write manager session n hs hn hg =>
    have hf : e.connectFailed = false := Bool.eq_false_iff.mpr fun hf => by
      cases hs.symm.trans (hl.valid.failed hf).1
    let written : Entry := .written (s.route manager session o.target) o
    have hj : (s.journal ++ [written]).filterMap Entry.event? = s.events := by
      simp [State.events_eq, Entry.event?, written]
    have hpassive := hl.passive s.queue hj
    exact
      { hpassive with
        counters := fun hc => by simp [hs, Sender.isConnecting, hf] at hc
        valve := fun _ => by simpa [State.isTripped] using hg
        failed := fun hx => by cases hf.symm.trans hx }
  | trip hs => exact hl.quit hs _ _ (by simp [State.events_eq, Entry.event?])
  | lose hs => exact hl.quit hs _ _ (by simp [State.events_eq, Entry.event?])

theorem Stint.live (h : Stint hand s e hand' t e') (hl : s.Live e) : t.Live e' := by
  have hv : e'.Valid := h.valid hl.valid
  cases h with
  | turn h => exact h.live hl
  | misfire hs =>
    have hc : e.sender.isConnecting = true := by rw [hs]; rfl
    exact
      { hl with
        valid := hv
        queueHome := by simpa [State.expire, State.report, hs] using hl.queueHome
        send := fun hx => (hl.send hx).trans (by rw [hs]; rfl)
        counters := fun _ => hl.counters (.inl hc)
        valve := fun _ => hl.valve (by simp [hs]) }
  | take => exact hl.passive _ (by simp [State.events_eq, Entry.event?])
  | put _ h => exact h.live hl

end

/-- Nobody was interrupted, and the session stands as in a run. -/
structure Threads.Whole (th : Threads) : Prop where
  strays : th.strays = []
  errands : th.errands = []
  sound : th.session.Sound

namespace Threads
variable {th th' : Threads}

theorem whole_start (c : Settings) (m : Mode) (monitor : Monitor) (listener : Option Nat) :
    (start c m monitor listener).Whole :=
  ⟨rfl,rfl,State.sound_start c m monitor listener⟩

theorem Whole.move (h : th.Whole) {task : State.Task} (hm : th.move task = some th') :
    th'.Whole := by
  rcases move_cases hm with ⟨e,hand,t,e',he,ht,rfl⟩ | ⟨rfl,hrevive⟩ | ⟨rfl,s,hs,rfl⟩
  · obtain ⟨hl,_⟩ := h.sound.live e he
    exact ⟨h.strays,h.errands,((stint_turn hl.valid ht).live hl).sound_settleEpisode⟩
  · unfold revive at hrevive
    split at hrevive
    · rename_i hd
      cases hrevive
      refine ⟨?_,h.errands,h.sound.revive hd⟩
      simp [h.strays, h.sound.idle_of_due hd]
    · cases hrevive
  · have hstep : State.Step th.session .admission s := State.step_move h.sound.sane hs
    exact ⟨h.strays,h.errands,hstep.sound h.sound⟩

theorem Whole.perform (h : th.Whole) {d : Deed} (hd : d.isWhole = true) :
    (th.perform d).Whole := by
  cases d with
  | act a =>
    rcases perform_act a th with ⟨task,rfl⟩ | hp
    · change ((th.move task).getD th).Whole
      cases hm : th.move task with
      | none => exact h
      | some th' => exact h.move hm
    · rw [hp]
      exact ⟨h.strays,h.errands,h.sound.apply a⟩
  | fill | drain => exact { h with }
  | _ => cases hd

/-- In a course without interruption the session stands as in a run. -/
theorem whole_course (h : th.Whole) {deeds : List Deed}
    (hd : ∀ d ∈ deeds, d.isWhole = true) : (th.course deeds).Whole := by
  induction deeds generalizing th with
  | nil => exact h
  | cons d deeds ih =>
    exact ih (h.perform (hd d (List.mem_cons_self ..)))
      fun d' hd' => hd d' (List.mem_cons_of_mem _ hd')

/-- What an act keeps, and what a sender keeps with messages to write, a deed keeps that is done
without interruption. -/
theorem Whole.keeps {P : State → Prop} (h : th.Whole) {d : Deed} (hp : P th.session)
    (hact : ∀ a, d = .act a → P (th.session.apply a))
    (hsend : ∀ {e hand t e' manager session}, th.session.episode = some e →
      e.sender = .forwarding manager session → Stint th.hand th.session e hand t e' →
      P (t.settleEpisode e'))
    (hd : d.isWhole = true) : P (th.perform d).session := by
  cases d with
  | act a =>
    by_cases hf : ∃ e manager session, a = .move .sender ∧ th.session.episode = some e ∧
        e.sender = .forwarding manager session
    · obtain ⟨e₀,_,_,rfl,he₀,hs⟩ := hf
      change P ((th.move .sender).getD th).session
      cases hm : th.move .sender with
      | none => exact hp
      | some th' =>
        rcases move_cases hm with ⟨e,hand,t,e',he,ht,rfl⟩ | ⟨hr,_⟩ | ⟨hr,_⟩
        · obtain rfl : e₀ = e := Option.some.inj (he₀.symm.trans he)
          exact hsend he hs (stint_turn (h.sound.live e₀ he).1.valid ht)
        · cases hr
        · cases hr
    · have hp' := perform_act_eq h.strays h.sound.idle_of_due fun ha e he manager session hs =>
        hf ⟨e,manager,session,ha,he,hs⟩
      rw [hp']
      exact hact a rfl
  | fill | drain => exact hp
  | _ => cases hd

theorem Whole.invariant {P : State → Prop}
    (hact : ∀ s a, s.Sound → P s → P (s.apply a))
    (hsend : ∀ {s hand e hand' t e' manager session}, s.Sound → P s → s.episode = some e →
      e.sender = .forwarding manager session → Stint hand s e hand' t e' →
      P (t.settleEpisode e'))
    (h : th.Whole) (hp : P th.session) {deeds : List Deed}
    (hd : ∀ d ∈ deeds, d.isWhole = true) : P (th.course deeds).session := by
  induction deeds generalizing th with
  | nil => exact hp
  | cons d deeds ih =>
    have hfirst : d.isWhole = true := hd d (List.mem_cons_self ..)
    have hkept : P (th.perform d).session :=
      h.keeps hp (fun a _ => hact _ a h.sound hp) (hsend h.sound hp) hfirst
    exact ih (h.perform hfirst) hkept fun d' hd' => hd d' (List.mem_cons_of_mem _ hd')

end Threads

end Majordomo.Client
