import Majordomo.Proofs.Client.Threads
import Mathlib.Data.List.Perm.Basic

/-! # The crews of a client session

The episodes that are carried on at one time, with those that have lost their place in the session.
In a course more than one of them may be; but the queue is with the one sender that has not ended,
if there is one, and a message in hand is with that sender.
-/
namespace Majordomo.Client

open State in
/-- The sender `e` writes the message `o`, which it has in hand. -/
inductive Put (s : State) (e : Episode) (o : Outbound) : State → Episode → Prop
  | write {manager : Nat} {session : Option Nat} {n : Network}
      (hs : e.sender = .forwarding manager session)
      (hn : s.network.send (s.route manager session o.target)
        (Wire.clientMessage (.ofText o.target) [.ofText o.payload]) = .ok n)
      (hg : s.sent + 1 - s.received ≤ s.settings.threshold) :
    Put s e o
      { s with
        network := n
        sent := s.sent + 1
        journal := s.journal ++ [.written (s.route manager session o.target) o] } e
  | trip {manager : Nat} {session : Option Nat} {n : Network}
      (hs : e.sender = .forwarding manager session)
      (hn : s.network.send (s.route manager session o.target)
        (Wire.clientMessage (.ofText o.target) [.ofText o.payload]) = .ok n) :
    Put s e o
      { s with
        queueHome := true
        sendPhase := s.sendPhase.next .finished
        network := e.sender.sinks.foldl (fun n id => n.dropSink id) n
        sent := s.sent + 1
        journal := s.journal ++ [.written (s.route manager session o.target) o] } e.quit
  | lose {manager : Nat} {session : Option Nat}
      (hs : e.sender = .forwarding manager session) :
    Put s e o
      { s with
        queueHome := true
        sendPhase := s.sendPhase.next .finished
        network := e.sender.sinks.foldl (fun n id => n.dropSink id) s.network
        journal := s.journal ++ [.lost o] } e.quit

/-- What a task of the episode `e` does in a turn, with what the sender has in hand before and
after it. -/
inductive Stint (hand : Option Outbound) (s : State) (e : Episode) :
    Option Outbound → State → Episode → Prop
  | turn {t : State} {e' : Episode} (h : Turn s e t e') (hq : t.queue = s.queue)
      (hs : ∀ manager session, e.sender = .forwarding manager session →
        hand = none ∨ e'.sender = e.sender) : Stint hand s e hand t e'
  | misfire {manager deadline : Nat} (hs : e.sender = .awaiting manager deadline false) :
    Stint hand s e hand (s.expire manager deadline e).1 (s.expire manager deadline e).2
  | take {manager : Nat} {session : Option Nat} {o : Outbound} {queue : List Outbound}
      (hn : hand = none) (hs : e.sender = .forwarding manager session)
      (hq : s.queue = o :: queue) :
    Stint hand s e (some o) { s with queue, journal := s.journal ++ [.taken o] } e
  | put {o : Outbound} {t : State} {e' : Episode} (hn : hand = some o) (h : Put s e o t e') :
    Stint hand s e none t e'

namespace Threads
variable {th : Threads} {hand : Option Outbound} {s t : State} {e e' : Episode}

theorem put_put {manager : Nat} {session : Option Nat} {o : Outbound}
    (hs : e.sender = .forwarding manager session) (h : s.put manager session o e = (t,e')) :
    Put s e o t e' := by
  have hk : manager :: session.toList = e.sender.sinks := by rw [hs]; rfl
  unfold State.put State.endForwarding at h
  dsimp only [State.log] at h
  split at h
  · rename_i n hn
    split at h
    · rw [hk] at h
      cases h
      exact .trip hs hn
    · rename_i ht
      cases h
      exact .write hs hn (by simpa [State.isTripped] using ht)
  · rw [hk] at h
    cases h
    exact .lose hs

theorem stint_forward {manager : Nat} {session : Option Nat}
    (hs : e.sender = .forwarding manager session)
    (h : th.forward manager session e = some (hand,t,e')) :
    Stint th.hand th.session e hand t e' := by
  unfold forward at h
  dsimp only at h
  split at h
  · rename_i o ho
    split at h
    · obtain ⟨rfl,hput⟩ := Prod.mk.inj (Option.some.inj h)
      exact .put ho (put_put hs hput)
    · cases h
  · rename_i hn
    split at h
    · rename_i hx
      have hk : manager :: session.toList = e.sender.sinks := by rw [hs]; rfl
      unfold State.endForwarding at h
      rw [hk] at h
      cases h
      rw [hn]
      exact .turn (.halt hs hx) rfl fun _ _ _ => .inl rfl
    · split at h
      · cases h
      · rename_i hq
        cases h
        exact .take hn hs hq

theorem queue_turn (h : Turn s e t e')
    (hs : ∀ manager session, e.sender ≠ .forwarding manager session) : t.queue = s.queue := by
  cases h with
  | write hf | trip hf | lose hf => exact absurd hf (hs _ _)
  | _ => rfl

/-- The receiver leaves the queue and the sender alone. -/
theorem receiverTurn_keeps (h : s.receiverTurn e = some (t,e')) :
    t.queue = s.queue ∧ e'.sender = e.sender := by
  unfold State.receiverTurn State.read at h
  split at h
  · split at h <;> cases h
    exact ⟨rfl,rfl⟩
  · cases h
    exact ⟨rfl,rfl⟩
  · split at h
    · cases h
      exact ⟨rfl,rfl⟩
    · split at h
      · dsimp only at h
        split at h
        · cases h
          exact ⟨rfl,rfl⟩
        · split at h
          · cases h
            exact ⟨rfl,rfl⟩
          · rw [State.count_eq] at h
            cases h
            exact ⟨rfl,rfl⟩
      · cases h
        exact ⟨rfl,rfl⟩
      · cases h
  · cases h

/-- What a task does in a turn is one of what tasks do. -/
theorem stint_turn {task : State.Task} (hv : e.Valid) (h : th.turn task e = some (hand,t,e')) :
    Stint th.hand th.session e hand t e' := by
  unfold turn at h
  split at h
  · split at h
    · rename_i hs
      exact stint_forward hs h
    · rename_i hn
      obtain ⟨⟨u,f⟩,hu,h⟩ := Option.map_eq_some_iff.mp h
      cases h
      have ht : Turn th.session e t e' := State.turn_senderTurn hv hu
      exact .turn ht (queue_turn ht fun _ _ hs => hn _ _ hs) fun _ _ hs => absurd hs (hn _ _)
  · obtain ⟨⟨u,f⟩,hu,h⟩ := Option.map_eq_some_iff.mp h
    cases h
    obtain ⟨hq,hs⟩ := receiverTurn_keeps hu
    exact .turn (State.turn_receiverTurn hu) hq fun _ _ _ => .inr hs
  · obtain ⟨⟨u,f⟩,hu,h⟩ := Option.map_eq_some_iff.mp h
    cases h
    have ht : Turn th.session e t e' := State.turn_watchdogTurn hu
    have hn (manager : Nat) (session : Option Nat) : e.sender ≠ .forwarding manager session :=
      fun hs => by simp [State.watchdogTurn, hs] at hu
    exact .turn ht (queue_turn ht hn) fun _ _ hs => absurd hs (hn _ _)
  · cases h
  · cases h

theorem stint_overlook (h : (th.session.overlookTurn e).map (th.hand,·) = some (hand,t,e')) :
    Stint th.hand th.session e hand t e' := by
  obtain ⟨⟨u,f⟩,hu,h⟩ := Option.map_eq_some_iff.mp h
  cases h
  have ht : Turn th.session e t e' := State.turn_overlookTurn hu
  unfold State.overlookTurn at hu
  split at hu
  · split at hu
    · cases hu
      exact .turn ht rfl fun _ _ _ => .inr rfl
    · cases hu
  · cases hu

theorem stint_misfire (h : (th.session.misfireTurn e).map (th.hand,·) = some (hand,t,e')) :
    Stint th.hand th.session e hand t e' := by
  obtain ⟨⟨u,f⟩,hu,h⟩ := Option.map_eq_some_iff.mp h
  cases h
  unfold State.misfireTurn at hu
  split at hu
  · rename_i hs
    split at hu
    · cases hu
      exact .misfire hs
    · cases hu
  · cases hu

end Threads

/-! ## What a stint keeps -/

section
variable {hand hand' : Option Outbound} {o : Outbound} {s t : State} {e e' : Episode}

theorem Episode.Valid.quit {manager : Nat} {session : Option Nat} (hv : e.Valid)
    (hs : e.sender = .forwarding manager session) : e.quit.Valid := by
  let s : State := { settings := .sample, rootStopped := true }
  have hx : s.isStopped e = true := by simp [s, State.isStopped, State.isCancelled]
  exact (Turn.halt hs hx).valid hv

/-- A sender that has written goes on as it was or has ended. -/
theorem Put.cases (h : Put s e o t e') :
    (∃ manager session, e.sender = .forwarding manager session) ∧
      (e' = e ∧ t.queueHome = s.queueHome ∨ e' = e.quit ∧ t.queueHome = true) := by
  cases h with
  | write hs => exact ⟨⟨_,_,hs⟩,.inl ⟨rfl,rfl⟩⟩
  | trip hs | lose hs => exact ⟨⟨_,_,hs⟩,.inr ⟨rfl,rfl⟩⟩

theorem Stint.valid (h : Stint hand s e hand' t e') (hv : e.Valid) : e'.Valid := by
  cases h with
  | turn h => exact h.valid hv
  | misfire hs =>
    exact
      { inUse := by simpa [State.expire, Sender.inUse, Sender.sinks, hs] using hv.inUse
        stopped := by simpa [State.expire, hs] using hv.stopped
        connecting := fun _ => hv.connecting (by rw [hs]; rfl)
        forwarding := nofun
        failed := fun hf => by cases hs.symm.trans (hv.failed hf).1 }
  | take => exact hv
  | put _ h =>
    obtain ⟨⟨_,_,hs⟩,⟨rfl,_⟩ | ⟨rfl,_⟩⟩ := h.cases
    · exact hv
    · exact hv.quit hs

/-- A stint leaves what is in the session's place as it is. -/
theorem Stint.episode (h : Stint hand s e hand' t e') : t.episode = s.episode := by
  cases h with
  | turn h => cases h <;> rfl
  | put _ h => cases h <;> rfl
  | misfire | take => rfl

theorem Stint.settings (h : Stint hand s e hand' t e') : t.settings = s.settings := by
  cases h with
  | turn h => exact (congrArg State.settings h.frame :)
  | put _ h => cases h <;> rfl
  | misfire | take => rfl

theorem Stint.sender_ended (h : Stint hand s e hand' t e') (hs : e.sender = .ended) :
    e'.sender = .ended := by
  cases h with
  | turn h => exact h.sender_ended hs
  | misfire hm => cases hs.symm.trans hm
  | take _ hf => cases hs.symm.trans hf
  | put _ h =>
    obtain ⟨⟨_,_,hf⟩,_⟩ := h.cases
    cases hs.symm.trans hf

/-- A sender that ends gives the queue back. -/
theorem Stint.queueHome (h : Stint hand s e hand' t e') :
    t.queueHome = true ↔ s.queueHome = true ∨ e.sender ≠ .ended ∧ e'.sender = .ended := by
  cases h with
  | turn h => exact h.queueHome
  | misfire hs => simp [State.expire, State.report]
  | take _ hs => simp [hs]
  | put _ h =>
    obtain ⟨⟨_,_,hs⟩,⟨rfl,hq⟩ | ⟨rfl,hq⟩⟩ := h.cases <;> simp [hq, hs, Episode.quit]

end

namespace Threads
variable {th : Threads} {hand : Option Outbound} {s : State} {e e' : Episode}
  {stray : Option Nat}

def crews (th : Threads) : List Episode := th.session.episode.toList ++ th.strays

theorem settle_cases (stray : Option Nat) (s : State) (e : Episode) (th : Threads) :
    (∃ episode, (th.settle stray s e).session = { s with episode }) ∧
      (th.settle stray s e).hand = th.hand := by
  cases stray <;> unfold settle <;> dsimp only <;> split <;> exact ⟨⟨_,rfl⟩,rfl⟩

open scoped List in
/-- One of the episodes is put back, or is over and goes. -/
theorem perm_settle (hs : s.episode = th.session.episode) (he : th.crew? stray = some e) :
    ∃ rest, th.crews ~ e :: rest ∧
      (th.settle stray s e').crews ~ if e'.isOver then rest else e' :: rest := by
  cases stray with
  | none =>
    have he : th.session.episode = some e := he
    refine ⟨th.strays,by simp [crews, he],?_⟩
    unfold settle Episode.isOver
    by_cases h : e'.inUse = 0 <;> simp [h, crews]
  | some i =>
    obtain ⟨hi,hget⟩ := List.getElem?_eq_some_iff.mp he
    refine ⟨th.session.episode.toList ++ th.strays.eraseIdx i,?_,?_⟩
    · have hp := List.getElem_cons_eraseIdx_perm hi
      rw [hget] at hp
      exact (hp.symm.append_left _).trans List.perm_middle
    · unfold settle Episode.isOver
      by_cases h : e'.inUse = 0
      · simpa [h, crews, hs] using List.perm_append_comm
      · simpa [h, crews, hs] using
          ((List.set_perm_cons_eraseIdx hi e').append_left _).trans List.perm_middle

/-- How the episodes that are carried on share the queue. -/
structure Crewed (th : Threads) : Prop where
  valid : ∀ e ∈ th.crews, e.Valid ∧ e.isOver = false
  owner : th.crews.countP (·.sender ≠ .ended) = (!th.session.queueHome).toNat
  held : th.hand ≠ none →
    ∃ e ∈ th.crews, ∃ manager session, e.sender = .forwarding manager session

section
variable {th' : Threads} {hand hand' : Option Outbound} {t : State} {rest : List Episode}
open scoped List

/-- Only one sender has not ended. -/
theorem Crewed.ended_of_mem (h : th.Crewed) (hc : th.crews ~ e :: rest) (hs : e.sender ≠ .ended) :
    th.session.queueHome = false ∧ ∀ e ∈ rest, e.sender = .ended := by
  have ho := h.owner
  rw [hc.countP_eq, List.countP_cons_of_pos (by simpa using hs)] at ho
  have hle : (!th.session.queueHome).toNat ≤ 1 := Bool.toNat_le _
  have hrest : rest.countP (·.sender ≠ .ended) = 0 := by omega
  refine ⟨?_,fun e he => by simpa using List.countP_eq_zero.mp hrest e he⟩
  cases hq : th.session.queueHome with
  | false => rfl
  | true =>
    rw [hq] at ho
    exact absurd ho (by simp)

theorem held_of_stint (hst : Stint hand s e hand' t e') (hh : hand' ≠ none) :
    (∃ manager session, e'.sender = .forwarding manager session) ∨
      hand ≠ none ∧ ∀ manager session, e.sender ≠ .forwarding manager session := by
  cases hst with
  | @turn t e' h hq hs =>
    by_cases hf : ∃ manager session, e.sender = .forwarding manager session
    · obtain ⟨manager,session,hf⟩ := hf
      exact .inl ⟨manager,session,((hs _ _ hf).resolve_left hh).trans hf⟩
    · exact .inr ⟨hh,fun manager session hs => hf ⟨manager,session,hs⟩⟩
  | misfire hs => exact .inr ⟨hh,fun _ _ hf => by cases hs.symm.trans hf⟩
  | take _ hs => exact .inl ⟨_,_,hs⟩
  | put => exact absurd rfl hh

theorem Crewed.stint (h : th.Crewed) (hc : th.crews ~ e :: rest)
    (hst : Stint th.hand th.session e hand t e')
    (hc' : th'.crews ~ if e'.isOver then rest else e' :: rest)
    (hq : th'.session.queueHome = t.queueHome) (hh : th'.hand = hand) : th'.Crewed := by
  have hv : e'.Valid := hst.valid (h.valid e (hc.mem_iff.mpr (List.mem_cons_self ..))).1
  have hrest {f : Episode} (hf : f ∈ rest) : f ∈ th.crews :=
    hc.mem_iff.mpr (List.mem_cons_of_mem _ hf)
  have hmem {f : Episode} : f ∈ th'.crews ↔ f ∈ rest ∨ e'.isOver = false ∧ f = e' := by
    rw [hc'.mem_iff]
    cases e'.isOver <;> simp [or_comm]
  have hover : e'.isOver = true → e'.sender = .ended := fun ho => (hv.isOver_iff.mp ho).1
  have hcount : th'.crews.countP (·.sender ≠ .ended) =
      rest.countP (·.sender ≠ .ended) + if e'.sender = .ended then 0 else 1 := by
    rw [hc'.countP_eq]
    cases ho : e'.isOver with
    | true => simp [hover ho]
    | false => by_cases hx : e'.sender = .ended <;> simp [hx]
  refine ⟨fun f hf => ?_,?_,fun hn => ?_⟩
  · rcases hmem.mp hf with hf | ⟨ho,rfl⟩
    · exact h.valid f (hrest hf)
    · exact ⟨hv,ho⟩
  · rw [hcount, hq]
    by_cases hx : e.sender = .ended
    · have ho := h.owner
      have hhome : t.queueHome = th.session.queueHome := by
        rw [Bool.eq_iff_iff, hst.queueHome]
        simp [hx]
      rw [hc.countP_eq, List.countP_cons_of_neg (by simp [hx])] at ho
      rw [if_pos (hst.sender_ended hx), hhome, ← ho, Nat.add_zero]
    · obtain ⟨hhome,hended⟩ := h.ended_of_mem hc hx
      have hnone : rest.countP (·.sender ≠ .ended) = 0 :=
        List.countP_eq_zero.mpr fun f hf => by simp [hended f hf]
      rw [hnone, Nat.zero_add]
      by_cases hx' : e'.sender = .ended
      · rw [if_pos hx', hst.queueHome.mpr (.inr ⟨hx,hx'⟩)]
        rfl
      · have ht : t.queueHome = false := Bool.eq_false_iff.mpr fun ht => by
          rcases hst.queueHome.mp ht with ht | ⟨_,ht⟩
          · cases hhome.symm.trans ht
          · exact hx' ht
        rw [if_neg hx', ht]
        rfl
  · rw [hh] at hn
    rcases held_of_stint hst hn with ⟨manager,session,hs⟩ | ⟨hn',hs⟩
    · have ho : e'.isOver = false := hv.isOver_eq_false (.inl (by simp [hs]))
      exact ⟨e',hmem.mpr (.inr ⟨ho,rfl⟩),manager,session,hs⟩
    · obtain ⟨f,hf,manager,session,hfs⟩ := h.held hn'
      rcases List.mem_cons.mp (hc.mem_iff.mp hf) with rfl | hf
      · exact absurd hfs (hs manager session)
      · exact ⟨f,hmem.mpr (.inl hf),manager,session,hfs⟩

theorem Crewed.begin (h : th.Crewed) (hq : th.session.queueHome = true)
    (hq' : th'.session.queueHome = false) (hh : th'.hand = th.hand)
    (hc : th'.crews ~ {} :: th.crews) : th'.Crewed := by
  refine ⟨fun f hf => ?_,?_,fun hn => ?_⟩
  · rcases List.mem_cons.mp (hc.mem_iff.mp hf) with rfl | hf
    · exact ⟨Episode.valid_default,rfl⟩
    · exact h.valid f hf
  · have ho := h.owner
    rw [hq] at ho
    rw [hc.countP_eq, List.countP_cons_of_pos (by decide), ho, hq']
    rfl
  · obtain ⟨f,hf,hs⟩ := h.held (hh ▸ hn)
    exact ⟨f,hc.mem_iff.mpr (List.mem_cons_of_mem _ hf),hs⟩

theorem Crewed.congr (h : th.Crewed) (hq : th'.session.queueHome = th.session.queueHome)
    (hh : th'.hand = th.hand) (hc : th'.crews = th.crews) : th'.Crewed where
  valid := hc ▸ h.valid
  owner := by rw [hc, hq, h.owner]
  held hn := by
    rw [hc]
    exact h.held (hh ▸ hn)

end
end Threads
end Majordomo.Client
