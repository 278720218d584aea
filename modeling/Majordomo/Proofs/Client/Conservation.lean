import Majordomo.Proofs.Client.Accepted
import Majordomo.Proofs.Client.Crews

/-! # No message is lost but in hand

Whatever the threads of a session do, and in whatever order, the messages that were accepted are
those that were taken from the queue and those that are in it. What was taken was written once, to
one connection, or was in hand when its write failed, or still is in hand.
-/
namespace Majordomo.Client

namespace State
variable {s : State}

/-- What the episodes that are carried on rest on. -/
def berth (s : State) : Option Episode × Bool := (s.episode,s.queueHome)

theorem berth_of_body {t : State} (he : t.episode = s.episode) (hb : t.body = s.body) :
    t.berth = s.berth :=
  Prod.ext he (congrArg queueHome hb :)

theorem berth_requestSend (s : State) : s.requestSend.berth = s.berth :=
  berth_of_body (episode_requestSend s) (body_requestSend s)

theorem berth_trySend (o : Outbound) (s : State) : (s.trySend o).2.berth = s.berth := by
  rcases s.trySend_cases o with ⟨_,h⟩ | ⟨_,_,_,h⟩ | ⟨_,h⟩ <;> rw [h]
  · exact berth_requestSend s
  · exact berth_requestSend s

theorem berth_send (ticket : Nat) (o : Outbound) (s : State) :
    (s.send ticket o).2.berth = s.berth := by
  unfold send
  split
  · rename_i t h
    have ht : t = (s.trySend o).2 := by rw [h]
    exact ht ▸ berth_trySend o s
  · exact berth_trySend o s

theorem berth_apply {a : Act} (ha : a.isInner = false) (s : State) :
    (s.apply a).berth = s.berth := by
  cases a with
  | move | overlook => cases ha
  | send ticket o => exact berth_send ticket o s
  | sendIgnoringReply ticket o => exact berth_send ticket o { s with suppressNext := true }
  | disconnect ticket id => exact berth_send ticket (disconnection id) s
  | attempt o => exact berth_trySend o s
  | close =>
    refine Prod.ext (episode_close s) ?_
    rcases s.body_close with h | h <;> exact (congrArg queueHome h :)
  | listen | network | tick | shutdown => rfl

/-! ## Errands -/

theorem gains_enqueue (ticket : Nat) (o : Outbound) (s : State) :
    Gains (if s.waiting.isEmpty && s.hasRoom then [o] else []) s (s.enqueue ticket o) := by
  unfold enqueue
  split
  · exact gains_push o s
  · exact gains_of_eq rfl rfl rfl rfl

theorem gains_schedule (inRuntime : Bool) (s : State) : Gains [] s (s.schedule inRuntime) := by
  unfold schedule
  dsimp only
  split
  · exact gains_of_grows (.snoc (.refl _) rfl) rfl (.of_eq fun _ => rfl) rfl
  · exact gains_of_eq rfl rfl rfl rfl

theorem gains_judge (failed : Bool) (s : State) : Gains [] s (s.judge failed).1 := by
  unfold judge
  dsimp only
  split
  · exact gains_of_body (grows_finishDestroy _) (body_finishDestroy _)
  · split
    · exact gains_of_eq rfl rfl rfl rfl
    · split <;> exact gains_of_eq rfl rfl rfl rfl

def fetches (s : State) : Errand → List Outbound
  | .enqueue _ o => if s.waiting.isEmpty && s.hasRoom then [o] else []
  | .announce _ | .judge _ | .rearm _ => []

theorem gains_attend (inRuntime : Bool) (x : Errand) (s : State) :
    Gains (s.fetches x) s (s.attend inRuntime x).1 := by
  cases x with
  | announce failed => exact gains_of_grows (.snoc (.refl _) rfl) rfl (.of_eq fun _ => rfl) rfl
  | judge failed => exact gains_judge failed s
  | rearm message =>
    cases message with
    | none => exact gains_of_body (grows_reconnect s) (body_reconnect s)
    | some message => exact gains_schedule inRuntime s
  | enqueue ticket o => exact gains_enqueue ticket o s

theorem berth_attend (inRuntime : Bool) (x : Errand) (s : State) :
    (s.attend inRuntime x).1.berth = s.berth := by
  cases x with
  | announce failed => rfl
  | judge failed =>
    unfold attend judge
    dsimp only
    split
    · unfold finishDestroy
      split <;> rfl
    · split
      · rfl
      · split <;> rfl
  | rearm message =>
    cases message with
    | none => exact berth_of_body (episode_reconnect s) (body_reconnect s)
    | some message =>
      unfold attend schedule
      dsimp only
      split <;> rfl
  | enqueue ticket o =>
    unfold attend enqueue
    dsimp only
    split <;> rfl

end State

namespace Threads
variable {th th' : Threads} {hand : Option Outbound} {t : State} {e e' : Episode}
  {new l : List Outbound} {c : Settings}
open scoped List

/-- The messages of which the application learns, by this deed, that they were accepted. -/
def accepts (th : Threads) : Deed → List Outbound
  | .act a => th.session.accepts a
  | .resume i _ => (th.errands[i]?.map th.session.fetches).getD []
  | .turn .. | .overlook _ | .misfire _ | .look .. | .fill _ | .drain _ => []

def accepted (th : Threads) : List Deed → List Outbound
  | [] => []
  | d :: deeds => th.accepts d ++ (th.perform d).accepted deeds

inductive Passage (th : Threads) : List Outbound → Threads → Prop
  | stint {th' : Threads} {rest : List Episode} {hand : Option Outbound} {t : State}
      {e e' : Episode} (hc : th.crews ~ e :: rest)
      (h : Stint th.hand th.session e hand t e') (hg : State.Gains [] t th'.session)
      (hq : th'.session.queueHome = t.queueHome) (hh : th'.hand = hand)
      (hc' : th'.crews ~ if e'.isOver then rest else e' :: rest) : Passage th [] th'
  | begin {th' : Threads} (hq : th.session.queueHome = true)
      (hg : State.Gains [] th.session th'.session) (hq' : th'.session.queueHome = false)
      (hh : th'.hand = th.hand) (hc : th'.crews ~ {} :: th.crews) : Passage th [] th'
  | pass {new : List Outbound} {th' : Threads} (hg : State.Gains new th.session th'.session)
      (hq : th'.session.queueHome = th.session.queueHome) (hh : th'.hand = th.hand)
      (hc : th'.crews = th.crews) : Passage th new th'

theorem passage_rfl (th : Threads) : Passage th [] th :=
  .pass (State.gains_of_eq rfl rfl rfl rfl) rfl rfl rfl

theorem passage_of_berth {s : State} (hg : State.Gains new th.session s)
    (hb : s.berth = th.session.berth) (full : List Nat) (errands : List Errand) :
    Passage th new { th with session := s, full, errands } := by
  obtain ⟨he,hq⟩ := Prod.mk.inj hb
  exact .pass hg hq rfl (by simp only [crews, he])

/-- A task of the episode in the session has a stint, and what follows from that is done at once. -/
theorem passage_settleEpisode (he : th.session.episode = some e)
    (h : Stint th.hand th.session e hand t e') :
    Passage th [] { th with hand, session := t.settleEpisode e' } := by
  have hc : th.crews ~ e :: th.strays := by simp [crews, he]
  refine .stint hc h (State.gains_settleEpisode e' t)
    (congrArg State.queueHome (State.body_settleEpisode e' t) :) rfl ?_
  cases ho : e'.isOver with
  | true => simp [crews, State.settleEpisode_of_over ho]
  | false => simp [crews, State.settleEpisode_of_not_over ho]

theorem Crewed.valid_of_crew? (h : th.Crewed) {stray : Option Nat}
    (he : th.crew? stray = some e) : e.Valid := by
  refine (h.valid e ?_).1
  cases stray with
  | none => exact List.mem_append_left _ (Option.mem_toList.mpr he)
  | some i => exact List.mem_append_right _ (List.mem_of_getElem? he)

theorem passage_within (h : th.Crewed) (stray : Option Nat)
    (turn : Episode → Threads → Option (Option Outbound × State × Episode))
    (hturn : ∀ {e hand t e'}, e.Valid → turn e th = some (hand,t,e') →
      Stint th.hand th.session e hand t e') : Passage th [] (th.within stray turn) := by
  unfold within
  split
  · rename_i hand t e' hsome
    obtain ⟨e,he,ht⟩ := Option.bind_eq_some_iff.mp hsome
    have hst : Stint th.hand th.session e hand t e' := hturn (h.valid_of_crew? he) ht
    let u := { th with hand }
    have hcrew : u.crew? stray = some e := he
    have hplace : t.episode = u.session.episode := hst.episode
    obtain ⟨rest,hc,hc'⟩ := perm_settle hplace hcrew
    obtain ⟨⟨episode,hs⟩,hh⟩ := settle_cases stray t e' u
    refine .stint hc hst ?_ (congrArg State.queueHome hs :) hh hc'
    rw [hs]
    exact State.gains_of_eq rfl rfl rfl rfl
  · exact passage_rfl th

theorem passage_revive (hr : th.revive = some th') : Passage th [] th' := by
  unfold revive at hr
  split at hr
  · have hr := Option.some.inj hr
    generalize hs : ({ th.session with
      reconnectDue := false
      releasePhase := th.session.releasePhase.next .finished } : State) = s at hr
    have hsame : State.Gains [] th.session s :=
      hs ▸ State.gains_of_eq rfl rfl rfl rfl
    have hb : s.berth = th.session.berth := by rw [← hs]; rfl
    obtain ⟨he,hq⟩ := Prod.mk.inj hb
    cases hc : s.canExecute with
    | true =>
      have hhome : s.queueHome = true := by
        simp only [State.canExecute, Bool.and_eq_true] at hc
        exact hc.2
      subst hr
      simp only [hc, if_true]
      refine .begin (hq ▸ hhome) (hsame.trans (State.gains_execute s)) ?_ rfl ?_
      · rw [State.execute_of_canExecute hc]
      · simp only [crews, State.execute_of_canExecute hc, he, Option.toList_some,
          List.singleton_append]
        exact List.perm_append_comm.cons _
    | false =>
      subst hr
      simp only [hc]
      refine .pass (hsame.trans (State.gains_execute s)) ?_ rfl ?_
      · rw [State.execute_of_not_canExecute hc, hq]
      · simp [crews, State.execute_of_not_canExecute hc, he]
  · cases hr

theorem passage_move (h : th.Crewed) {task : State.Task} (hm : th.move task = some th') :
    Passage th (th.session.accepts (.move task)) th' := by
  rcases move_cases hm with ⟨e,hand,t,e',he,ht,rfl⟩ | ⟨rfl,hrevive⟩ | ⟨rfl,s,hs,rfl⟩
  · have hv : e.Valid := (h.valid e (by simp [crews, he])).1
    have hnew : th.session.accepts (.move task) = [] := by
      cases task with
      | reconnect | admission => cases ht
      | _ => rfl
    rw [hnew]
    exact passage_settleEpisode he (stint_turn hv ht)
  · exact passage_revive hrevive
  · unfold State.admissionMove at hs
    split at hs
    · rename_i ticket o waiting hw
      split at hs
      · rename_i hr
        cases hs
        have hnew : th.session.accepts (.move .admission) = [o] := by
          simp [State.accepts, hr, hw]
        have hwaiting : State.Gains [] th.session { th.session with waiting } :=
          State.gains_of_eq rfl rfl rfl rfl
        have hpush := hwaiting.trans (State.gains_push o { th.session with waiting })
        have hadmitted := hpush.trans (State.gains_of_grows
          (t := (State.push o { th.session with waiting }).log (.admitted ticket))
          (.snoc (.refl _) rfl) rfl (.of_eq fun _ => rfl) rfl)
        rw [hnew]
        exact .pass hadmitted rfl rfl rfl
      · cases hs
    · cases hs

theorem passage_of_stuck {task : State.Task} (hm : th.move task = none) :
    Passage th (th.session.accepts (.move task)) th := by
  have hnone : th.session.accepts (.move task) = [] := by
    cases task with
    | admission => exact State.accepts_of_move_none (Option.map_eq_none_iff.mp hm)
    | _ => rfl
  rw [hnone]
  exact passage_rfl th

theorem passage_overlook (th : Threads) :
    Passage th [] { th with session := th.session.overlook } := by
  unfold State.overlook State.within
  cases he : th.session.episode with
  | none => exact passage_rfl th
  | some e =>
    dsimp only
    cases ht : th.session.overlookTurn e with
    | none => exact passage_rfl th
    | some r => exact passage_settleEpisode he (stint_overlook (by rw [ht]; rfl))

theorem passage_perform (h : th.Crewed) (d : Deed) : Passage th (th.accepts d) (th.perform d) := by
  cases d with
  | act a =>
    cases ha : a.isInner with
    | false =>
      have hp : th.perform (.act a) = { th with session := th.session.apply a } := by
        cases a with
        | move => cases ha
        | _ => rfl
      rw [hp]
      exact passage_of_berth (State.gains_apply ha th.session) (State.berth_apply ha th.session) _ _
    | true =>
      cases a with
      | move task =>
        change Passage th _ ((th.move task).getD th)
        cases hm : th.move task with
        | some th' => exact passage_move h hm
        | none => exact passage_of_stuck hm
      | overlook => exact passage_overlook th
      | _ => cases ha
  | turn stray task => exact passage_within h stray (Threads.turn task) stint_turn
  | overlook stray =>
    exact passage_within h stray (fun e th => (th.session.overlookTurn e).map (th.hand,·))
      fun _ => stint_overlook
  | misfire stray =>
    exact passage_within h stray (fun e th => (th.session.misfireTurn e).map (th.hand,·))
      fun _ => stint_misfire
  | look ignoring ticket o =>
    change Passage th [] (th.look ignoring ticket o)
    unfold look
    dsimp only
    split <;> exact .pass (State.gains_of_eq rfl rfl rfl rfl) rfl rfl rfl
  | resume i inRuntime =>
    change Passage th ((th.errands[i]?.map th.session.fetches).getD []) (th.resume i inRuntime)
    unfold resume
    cases th.errands[i]? with
    | none => exact passage_rfl th
    | some x =>
      exact passage_of_berth (State.gains_attend inRuntime x th.session)
        (State.berth_attend inRuntime x th.session) _ _
  | fill | drain => exact .pass (State.gains_of_eq rfl rfl rfl rfl) rfl rfl rfl

theorem Passage.crewed (hp : Passage th new th') (h : th.Crewed) : th'.Crewed := by
  cases hp with
  | stint hc hst _ hq hh hc' => exact h.stint hc hst hc' hq hh
  | begin hq _ hq' hh hc => exact h.begin hq hq' hh hc
  | pass _ hq hh hc => exact h.congr hq hh hc

end Threads

/-! ## What a stint does with the messages on their way -/

section
variable {s t : State} {e e' : Episode} {o : Outbound}

/-- A sender sends on once the session is established, and that is told. -/
theorem Turn.forwarding (h : Turn s e t e') {manager : Nat} {session : Option Nat}
    (hs : e'.sender = .forwarding manager session) :
    e.sender = .forwarding manager session ∨
      ∃ l address, t.journal = l ++ [.event (.connected address)] := by
  cases h with
  | establish | establishOwn => exact .inr ⟨_,_,rfl⟩
  | _ => simp_all [Episode.quit, Episode.fail, Episode.hangUp]

theorem Turn.gains (h : Turn s e t e') (hq : t.queue = s.queue) : State.Gains [] s t := by
  rcases h.post with hg | ⟨o,ho,_⟩
  · exact hg
  · have hlen := congrArg List.length (ho.trans (congrArg (o :: ·) hq))
    simp at hlen

/-- What a sender has in hand it writes to one connection or loses, and then it ends. -/
theorem Put.post (h : Put s e o t e') :
    t.queue = s.queue ∧ t.settings = s.settings ∧
      ∃ x fate, t.journal = s.journal ++ [x] ∧ x.fate? = some (fate,o) ∧
        (∀ k, t.network.takenBy k =
          s.network.takenBy k ++ if fate = some k then [o.frames] else []) ∧
        (x.isLost = true → e' = e.quit) := by
  have hsink (n : Network) (ids : List Nat) (k : Nat) :
      (ids.foldl (fun n id => n.dropSink id) n).takenBy k = n.takenBy k :=
    Network.foldl_keeps (fun n id => Network.takenBy_dropSink n id k) ids n
  have hsend {n : Network} {id : Nat} (hn : s.network.send id o.frames = .ok n) (k : Nat) :
      n.takenBy k = s.network.takenBy k ++ if some id = some k then [o.frames] else [] := by
    rw [Network.takenBy_send hn]
    by_cases hk : k = id
    · simp [hk]
    · have hne : id ≠ k := fun hi => hk hi.symm
      simp [hk, hne]
  cases h with
  | write hs hn => exact ⟨rfl,rfl,_,_,rfl,rfl,hsend hn,nofun⟩
  | trip hs hn => exact ⟨rfl,rfl,_,_,rfl,rfl,fun k => (hsink _ _ k).trans (hsend hn k),nofun⟩
  | lose hs =>
    refine ⟨rfl,rfl,_,none,rfl,rfl,fun k => ?_,fun _ => rfl⟩
    rw [hsink]
    simp

end

namespace Threads
variable {th th' : Threads} {hand : Option Outbound} {t : State} {e e' : Episode}
  {new l : List Outbound} {c : Settings}
open scoped List

/-- The messages `l` have been accepted, and they are all where they should be. -/
structure Conserved (c : Settings) (l : List Outbound) (th : Threads) : Prop where
  crewed : th.Crewed
  settings : th.session.settings = c
  accepted : th.session.acceptances = l
  balanced : th.session.Balanced th.hand
  spared : Spared th.session.journal
  unharmed : ∀ e ∈ th.crews, ∀ manager session, e.sender = .forwarding manager session →
    Unharmed th.session.journal

theorem Conserved.gains (h : Conserved c l th) (hg : State.Gains new th.session th'.session)
    (hh : th'.hand = th.hand) (hcrewed : th'.Crewed)
    (hc : ∀ e ∈ th'.crews, e ∈ th.crews ∨ e = {}) : Conserved c (l ++ new) th' where
  crewed := hcrewed
  settings := hg.settings.trans h.settings
  accepted := by rw [hg.acceptances, h.accepted]
  balanced := hh ▸ h.balanced.gains hg
  spared := h.spared.grows hg.journal
  unharmed e he manager session hs := by
    rcases hc e he with he | rfl
    · exact (h.unharmed e he manager session hs).grows hg.journal
    · cases hs

theorem Conserved.stint {rest : List Episode} (h : Conserved c l th) (hc : th.crews ~ e :: rest)
    (hst : Stint th.hand th.session e hand t e') :
    t.acceptances = l ∧ t.Balanced hand ∧ Spared t.journal ∧
      ∀ f ∈ e' :: rest, ∀ manager session, f.sender = .forwarding manager session →
        Unharmed t.journal := by
  have hmem {f : Episode} (hf : f ∈ e :: rest) : f ∈ th.crews := hc.mem_iff.mpr hf
  have hgains (hg : State.Gains [] th.session t)
      (hs : ∀ manager session, e'.sender = .forwarding manager session →
        e.sender = .forwarding manager session ∨
          ∃ l address, t.journal = l ++ [.event (.connected address)]) :
      t.acceptances = l ∧ t.Balanced th.hand ∧ Spared t.journal ∧
        ∀ f ∈ e' :: rest, ∀ manager session, f.sender = .forwarding manager session →
          Unharmed t.journal := by
    refine ⟨by rw [hg.acceptances, h.accepted, List.append_nil],h.balanced.gains hg,
      h.spared.grows hg.journal,fun f hf manager session hfs => ?_⟩
    rcases List.mem_cons.mp hf with rfl | hf
    · rcases hs manager session hfs with hs | ⟨l,address,hj⟩
      · exact (h.unharmed e (hmem (List.mem_cons_self ..)) _ _ hs).grows hg.journal
      · rw [hj]
        exact unharmed_connected l address
    · exact (h.unharmed f (hmem (List.mem_cons_of_mem _ hf)) _ _ hfs).grows hg.journal
  cases hst with
  | turn ht hq => exact hgains (ht.gains hq) fun manager session => ht.forwarding
  | misfire hs => exact hgains (State.gains_of_eq rfl rfl rfl rfl) fun _ _ hf => by cases hf
  | take hn hs hq =>
    have hb := h.balanced
    rw [hn] at hb
    refine ⟨?_,hb.take hq rfl rfl rfl,h.spared.snoc nofun,fun f hf manager session hfs => ?_⟩
    · rw [← h.accepted]
      simp [State.acceptances, Entry.accepted?, List.filterMap_cons]
    · exact (h.unharmed f (hmem hf) manager session hfs).snoc rfl
  | put hn hput =>
    obtain ⟨hq,hset,x,fate,hj,hx,hto,hlost⟩ := hput.post
    obtain ⟨⟨manager,session,hs⟩,_⟩ := hput.cases
    have hu : Unharmed th.session.journal :=
      h.unharmed e (hmem (List.mem_cons_self ..)) manager session hs
    have hb := h.balanced
    rw [hn] at hb
    refine ⟨?_,hb.put hq hj hx hset hto,hj ▸ h.spared.snoc fun _ => hu,
      fun f hf manager session hfs => ?_⟩
    · rw [← h.accepted, State.acceptances, hj]
      cases x with
      | written | lost => simp [State.acceptances, Entry.accepted?, List.filterMap_cons]
      | _ => cases hx
    · -- whoever sends on is the sender that has written
      have hne : e.sender ≠ .ended := by simp [hs]
      rw [hj]
      refine hu.snoc (Bool.eq_false_iff.mpr fun hl => ?_)
      rcases List.mem_cons.mp hf with rfl | hf
      · rw [hlost hl] at hfs
        cases hfs
      · cases ((h.crewed.ended_of_mem hc hne).2 f hf).symm.trans hfs

theorem Conserved.passage (h : Conserved c l th) (hp : Passage th new th') :
    Conserved c (l ++ new) th' := by
  have hcrewed : th'.Crewed := hp.crewed h.crewed
  cases hp with
  | @stint _ rest hand t e e' hc hst hg hq hh hc' =>
    obtain ⟨haccepted,hbalanced,hspared,hunharmed⟩ := h.stint hc hst
    exact
      { crewed := hcrewed
        settings := hg.settings.trans (hst.settings.trans h.settings)
        accepted := by rw [hg.acceptances, haccepted]
        balanced := hh ▸ hbalanced.gains hg
        spared := hspared.grows hg.journal
        unharmed := fun f hf manager session hs => by
          have hf := hc'.mem_iff.mp hf
          refine (hunharmed f ?_ manager session hs).grows hg.journal
          cases ho : e'.isOver <;> simp [ho] at hf ⊢
          · exact hf
          · exact .inr hf }
  | begin _ hg _ hh hc =>
    exact h.gains hg hh hcrewed fun e he => (List.mem_cons.mp (hc.mem_iff.mp he)).symm
  | pass hg _ hh hc => exact h.gains hg hh hcrewed fun e he => .inl (hc ▸ he)

theorem conserved_start (c : Settings) (m : Mode) (monitor : Monitor) (listener : Option Nat) :
    Conserved c [] (start c m monitor listener) := by
  -- as if a reconnect were due to a session without an episode
  let s : State :=
    { settings := c, network := { mode := m }, monitor, listener, reconnectDue := true,
      releasePhase := .started }
  have hcrewed : Crewed { session := s } := ⟨nofun,rfl,fun hn => absurd rfl hn⟩
  have hempty : Conserved c [] { session := s } :=
    ⟨hcrewed,rfl,rfl,⟨rfl,rfl,fun _ => ⟨[],.inl rfl,rfl⟩⟩,spared_nil,nofun⟩
  have hrevive : revive { session := s } = some (start c m monitor listener) := by
    simp [revive, s]
    rfl
  exact hempty.passage (passage_revive hrevive)

theorem Conserved.course (h : Conserved c l th) (deeds : List Deed) :
    Conserved c (l ++ th.accepted deeds) (th.course deeds) := by
  induction deeds generalizing th l with
  | nil =>
    rw [Threads.accepted, List.append_nil]
    exact h
  | cons d deeds ih =>
    have hd := h.passage (passage_perform h.crewed d)
    rw [Threads.accepted, ← List.append_assoc, course_cons]
    exact ih hd

end Threads
end Majordomo.Client
