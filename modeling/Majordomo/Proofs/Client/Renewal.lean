import Majordomo.Proofs.Client.Acts
import Majordomo.Proofs.Client.Conservation
import Majordomo.Proofs.Client.Valve

/-! # The episode after one that was cut short

Where the replies lag too far behind only the receiver is left of the episode. It ends with its
next moves, the session connects again, and what is still queued is sent first.
-/
namespace Majordomo.Client

namespace State
open scoped List
variable {s s' t v : State} {e e' : Episode}

theorem Beside.calm (h : Beside s s') : Grows Entry.isCalm s.journal s'.journal := by
  refine h.journal.mono fun x hx => ?_
  rcases Bool.or_eq_true_iff.mp hx with hx | hx
  · exact x.isCalm_of_isNotice hx
  · cases x with
    | accepted | admitted => rfl
    | _ => cases hx

/-! ## The end of the episode -/

/-- An episode has ended since the session was `t`, and nothing has left the queue. -/
def Lapsed (t v : State) : Prop :=
  ∃ l, Grows Entry.isCalm t.journal l ∧
    Grows Entry.isCalm (l ++ [.event .disconnected]) v.journal

/-- The episode of `t` is about to end: the sender has, and at most `n` moves of the receiver
are left. -/
structure Winding (t v : State) (n : Nat) : Prop where
  sound : v.Sound
  calm : Grows Entry.isCalm t.journal v.journal
  live : ∃ e, v.episode = some e ∧ e.sender = .ended ∧ e.connectFailed = false ∧
    e.receiver.left ≤ n

structure Due (t v : State) : Prop where
  sound : v.Sound
  idle : v.episode = none
  lapsed : Lapsed t v
  due : v.isCancelled = false → v.reconnectDue = true

structure Begun (t v : State) : Prop where
  episode : v.episode = some {}
  sent : v.sent = 0
  received : v.received = 0
  lapsed : Lapsed t v

theorem Lapsed.calm {u : State} (h : Lapsed t v) (hj : Grows Entry.isCalm v.journal u.journal) :
    Lapsed t u := by
  obtain ⟨l,hl,hv⟩ := h
  exact ⟨l,hl,hv.trans hj⟩

theorem Winding.pos {n : Nat} (h : Winding t v n) : 0 < n := by
  obtain ⟨e,he,hs,_,hn⟩ := h.live
  refine Nat.lt_of_lt_of_le ?_ hn
  obtain ⟨hl,ho⟩ := h.sound.live e he
  cases hr : e.receiver with
  | ended => cases ho.symm.trans (hl.valid.isOver_iff.mpr ⟨hs,hr⟩)
  | waiting | handed | reading => simp [Receiver.left]

/-- The episode is over, and the session connects again unless it is to end. -/
theorem due_onReleased (hl : v.Live e) (hs : (v.onReleased false).Sound)
    (hj : Grows Entry.isCalm t.journal v.journal) : Due t (v.onReleased false) := by
  refine ⟨hs,episode_onReleased ..,⟨v.journal,hj,calm_onReleased false v⟩,fun hk => ?_⟩
  have hc : (v.closing || v.isCancelled) = false := Bool.eq_false_iff.mpr fun hc => by
    cases (hs.not_closing hk).symm.trans (closing_onReleased hc false)
  obtain ⟨requested,hq⟩ := onReleased_of_again hc (.inl rfl)
  have hclosing : v.closing = false := by simp_all
  have hp : releasePhase { v.released with sendRequested := requested } = .new :=
    hl.release hclosing
  rw [hq, reconnect_of_new hp]

theorem Winding.turn {n : Nat} {u : State} (h : Winding t v n) (he₁ : v.episode = some e)
    (ht : Turn v e u e') :
    (∃ k, Winding t (u.settleEpisode e') k ∧ k < n) ∨ Due t (u.settleEpisode e') := by
  obtain ⟨e₀,he,hs,hf,hn⟩ := h.live
  obtain rfl : e₀ = e := Option.some.inj (he.symm.trans he₁)
  obtain ⟨hl,_⟩ := h.sound.live e₀ he
  have hsound : (u.settleEpisode e').Sound := (ht.live hl).sound_settleEpisode
  have hx : v.isStopped e₀ = true := by
    simp [isStopped, hl.valid.stopped.mpr (.inl hs)]
  have hs' : e'.sender = .ended := ht.sender_ended hs
  have hlt : e'.receiver.left < n := by
    have hleft := ht.left_lt hx
    simp only [Episode.left, hs, hs', Sender.left, if_true] at hleft
    omega
  have hf' : e'.connectFailed = false := by
    rcases ht.events with ⟨hc,_⟩ | ⟨_,hc,_⟩
    · exact hc.trans hf
    · rw [hs] at hc
      cases hc
  have hj : Grows Entry.isCalm t.journal u.journal := (ht.of_isStopped hx).1 ▸ h.calm
  cases ho : e'.isOver with
  | false =>
    rw [settleEpisode_of_not_over ho] at hsound ⊢
    exact .inl ⟨_,⟨hsound,hj,e',rfl,hs',hf',Nat.le_refl _⟩,hlt⟩
  | true =>
    rw [settleEpisode_of_over ho, hf'] at hsound ⊢
    exact .inr (due_onReleased (ht.live hl) hsound hj)

/-- The receiver of an episode that is about to end can move. -/
theorem Winding.receiverMove {n : Nat} (h : Winding t v n) : v.receiverMove ≠ none := by
  obtain ⟨e,he,hs,_⟩ := h.live
  obtain ⟨hl,ho⟩ := h.sound.live e he
  have hx : v.isStopped e = true := by simp [isStopped, hl.valid.stopped.mpr (.inl hs)]
  have hr : e.receiver ≠ .ended := fun hr => by
    cases ho.symm.trans (hl.valid.isOver_iff.mpr ⟨hs,hr⟩)
  exact fun hnone => receiverTurn_of_stopped hx hr ((within_eq_none he).mp hnone)

/-- Whatever happens, the episode goes on to end, and every move of the receiver counts. -/
theorem Winding.apply {n : Nat} (h : Winding t v n) (a : Act) :
    (∃ k, Winding t (v.apply a) k ∧ k ≤ n ∧ (a = .move .receiver → k < n)) ∨
      Due t (v.apply a) := by
  obtain ⟨e,he,hrest⟩ := h.live
  have hsound : (v.apply a).Sound := h.sound.apply a
  have hbeside {u : State} (hu : u.Sound) (hb : Beside v u) : Winding t u n :=
    ⟨hu,h.calm.trans hb.calm,e,hb.episode.trans he,hrest⟩
  have heffect : Effect v a (v.apply a) := effect_apply h.sound.sane a
  generalize v.apply a = u at *
  cases heffect with
  | turn _ he ht =>
    exact (h.turn he ht).imp_left fun ⟨k,hk,hlt⟩ => ⟨k,hk,Nat.le_of_lt hlt,fun _ => hlt⟩
  | revive hd => cases (h.sound.live e he).1.notDue.symm.trans hd
  | request ha _ hu =>
    refine .inl ⟨n,hbeside hsound ((beside_requestSend v).trans hu.beside),Nat.le_refl n,?_⟩
    rintro rfl
    cases ha
  | close => exact .inl ⟨n,hbeside hsound (beside_close v),Nat.le_refl n,nofun⟩
  | pass hm _ hu =>
    exact .inl ⟨n,hbeside hsound hu.beside,Nat.le_refl n,fun ha =>
      absurd (hm _ ha nofun) h.receiverMove⟩

/-! ## The next episode -/

theorem Due.revive (h : Due t v) (hd : v.reconnectDue = true) :
    let u := execute
      { v with reconnectDue := false, releasePhase := v.releasePhase.next .finished }
    (Due t u ∧ u.isCancelled = true) ∨ Begun t u := by
  intro u
  have hsound : u.Sound := h.sound.revive hd
  have hc := h.sound.canExecute_of_due hd
  cases hk : v.isCancelled with
  | false =>
    have hu : u = _ := execute_of_canExecute (hc.trans (by rw [hk]; rfl))
    rw [hu]
    exact .inr ⟨rfl,rfl,rfl,h.lapsed⟩
  | true =>
    have hu : u = _ := execute_of_not_canExecute (hc.trans (by rw [hk]; rfl))
    rw [hu] at hsound ⊢
    exact .inl ⟨⟨hsound,h.idle,h.lapsed,fun hn => by cases hk.symm.trans hn⟩,hk⟩

theorem Due.apply (h : Due t v) (a : Act) :
    (Due t (v.apply a) ∧ (a = .move .reconnect → (v.apply a).isCancelled = true)) ∨
      Begun t (v.apply a) := by
  have hsound : (v.apply a).Sound := h.sound.apply a
  have hback : (v.apply a).isCancelled = false → v.isCancelled = false := fun hk =>
    Bool.eq_false_iff.mpr fun hc => by
      cases hk.symm.trans (isCancelled_run h.sound.sane hc [a])
  have hbeside (hb : Beside v (v.apply a)) : Due t (v.apply a) :=
    ⟨hsound,hb.episode.trans h.idle,h.lapsed.calm hb.calm,fun hk => hb.due (h.due (hback hk))⟩
  have heffect : Effect v a (v.apply a) := effect_apply h.sound.sane a
  generalize v.apply a = u at *
  cases heffect with
  | turn _ he => cases h.idle.symm.trans he
  | revive hd => exact (h.revive hd).imp_left fun ⟨hdue,hk⟩ => ⟨hdue,fun _ => hk⟩
  | request ha _ hu =>
    refine .inl ⟨hbeside ((beside_requestSend v).trans hu.beside),?_⟩
    rintro rfl
    cases ha
  | close => exact .inl ⟨hbeside (beside_close v),nofun⟩
  | pass hm _ hu =>
    refine .inl ⟨hbeside hu.beside,fun ha => ?_⟩
    have hnone : v.reconnectMove = none := hm _ ha nofun
    refine (Bool.not_eq_false _).mp fun hk => ?_
    simp [reconnectMove, h.due (hback hk)] at hnone

/-! ## What the next episode sends -/

theorem Lapsed.journal (h : Lapsed t v) :
    ∃ l, v.journal = t.journal ++ l ∧ l.count (.event .disconnected) = 1 ∧
      ∀ x ∈ l, x.isDeparture = false := by
  obtain ⟨_,⟨m₁,hm₁,rfl⟩,m₂,hm₂,hv⟩ := h
  have hnone {m : List Entry} (hm : ∀ x ∈ m, x.isCalm = true) :
      m.count (.event .disconnected) = 0 :=
    List.count_eq_zero.mpr fun hd => Entry.ne_disconnected_of_isCalm (hm _ hd) rfl
  refine ⟨m₁ ++ [.event .disconnected] ++ m₂,by simp [hv],?_,fun x hx => ?_⟩
  · rw [List.count_append, List.count_append, hnone hm₁, hnone hm₂]
    exact rfl
  · rcases List.mem_append.mp hx with hx | hx
    · rcases List.mem_append.mp hx with hx | hx
      · exact Entry.isDeparture_of_isCalm (hm₁ x hx)
      · obtain rfl := List.mem_singleton.mp hx
        exact rfl
    · exact Entry.isDeparture_of_isCalm (hm₂ x hx)

/-- What was queued when the episode was cut short is still queued when the next one begins. -/
theorem Lapsed.queue {accepted : List Outbound} (h : Lapsed t v) (ht : t.Balanced none)
    (hv : v.Balanced none) (ha : v.acceptances = t.acceptances ++ accepted) :
    v.queue = t.queue ++ accepted := by
  obtain ⟨l,hj,_,hl⟩ := h.journal
  have htaken : v.taken = t.taken := by
    have hnone : l.filterMap Entry.taken? = [] := List.filterMap_eq_nil_iff.mpr fun x hx => by
      have hd := hl x hx
      cases x with
      | taken => cases hd
      | _ => rfl
    rw [taken, hj, List.filterMap_append, hnone, List.append_nil]
    exact rfl
  rw [hv.accepted, ht.accepted, htaken, List.append_assoc] at ha
  exact List.append_cancel_left ha

end State

/-! ## Courses without interruption -/

namespace Threads
open State
open scoped List
variable {th th' : Threads} {t : State} {d : Deed} {n : Nat} {later : List Deed}

/-- Where no sender has messages to write, a deed does what it does in a run, or leaves the session
alone. -/
theorem Whole.perform_cases (h : th.Whole) (hd : d.isWhole = true)
    (hf : ∀ e, th.session.episode = some e →
      ∀ manager session, e.sender ≠ .forwarding manager session) :
    (∃ a, d = .act a ∧ th.perform d = { th with session := th.session.apply a }) ∨
      (∀ a, d ≠ .act a) ∧ (th.perform d).session = th.session ∧ (th.perform d).hand = th.hand := by
  cases d with
  | act a => exact .inl ⟨a,rfl,perform_act_eq h.strays h.sound.idle_of_due fun _ => hf⟩
  | fill | drain => exact .inr ⟨fun _ ha => (by cases ha),rfl,rfl⟩
  | _ => cases hd

theorem Winding.perform (hw : Winding t th.session n) (h : th.Whole) (hd : d.isWhole = true) :
    (th.perform d).hand = th.hand ∧
      ((∃ k, Winding t (th.perform d).session k ∧ k ≤ n ∧
        (d = .act (.move .receiver) → k < n)) ∨ Due t (th.perform d).session) := by
  obtain ⟨e,he,hs,_⟩ := hw.live
  have hcases := h.perform_cases hd fun e' he' manager session hf => by
    obtain rfl : e = e' := Option.some.inj (he.symm.trans he')
    cases hs.symm.trans hf
  rcases hcases with ⟨a,rfl,hp⟩ | ⟨hn,hp,hhand⟩
  · rw [hp]
    exact ⟨rfl,(hw.apply a).imp_left fun ⟨k,hk,hle,hlt⟩ =>
      ⟨k,hk,hle,fun ha => hlt (Deed.act.inj ha)⟩⟩
  · rw [hp]
    exact ⟨hhand,.inl ⟨n,hw,Nat.le_refl n,fun ha => absurd ha (hn _)⟩⟩

/-- The episode has ended after as many moves of the receiver as are left. -/
theorem Winding.course (hw : Winding t th.session n) (h : th.Whole)
    (hl : ∀ d ∈ later, d.isWhole = true) {rest : List Deed}
    (hm : List.replicate n (.act (.move .receiver)) ++ rest <+ later) :
    ∃ l₁ l₂, later = l₁ ++ l₂ ∧ rest <+ l₂ ∧ (th.course l₁).hand = th.hand ∧
      Due t (th.course l₁).session := by
  induction later generalizing th n with
  | nil =>
    have hn := hw.pos
    simp only [List.sublist_nil, List.append_eq_nil_iff, List.replicate_eq_nil_iff] at hm
    omega
  | cons d later ih =>
    obtain ⟨n,rfl⟩ : ∃ k, n = k + 1 := ⟨n - 1,by have hn := hw.pos; omega⟩
    have hfirst : d.isWhole = true := hl d (List.mem_cons_self ..)
    have hlater : ∀ d ∈ later, d.isWhole = true := fun d hd => hl d (List.mem_cons_of_mem _ hd)
    -- the deed is the first of the moves, or they all come later
    obtain ⟨j,hj,hm⟩ : ∃ j, (j = n + 1 ∨ j = n ∧ d = .act (.move .receiver)) ∧
        List.replicate j (.act (.move .receiver)) ++ rest <+ later := by
      rw [List.replicate_succ, List.cons_append] at hm
      rcases List.sublist_cons_iff.mp hm with hm | ⟨r,hr,hm⟩
      · exact ⟨n + 1,.inl rfl,hm⟩
      · obtain ⟨hd,rfl⟩ := List.cons.inj hr
        exact ⟨n,.inr ⟨rfl,hd.symm⟩,hm⟩
    obtain ⟨hhand,⟨k,hk,hle,hlt⟩ | hdue⟩ := Winding.perform hw h hfirst
    · have hkj : k ≤ j := by
        rcases hj with rfl | ⟨rfl,hd⟩
        · exact hle
        · exact Nat.le_of_lt_succ (hlt hd)
      have hmoves : List.replicate k (.act (.move .receiver)) ++ rest <+ later :=
        (((List.replicate_sublist_replicate _).mpr hkj).append_right rest).trans hm
      obtain ⟨l₁,l₂,rfl,hrest,hhand',hdue⟩ := ih hk (h.perform hfirst) hlater hmoves
      exact ⟨d :: l₁,l₂,rfl,hrest,hhand'.trans hhand,hdue⟩
    · exact ⟨[d],later,rfl,(List.sublist_append_right _ rest).trans hm,hhand,hdue⟩

theorem Due.perform (hw : Due t th.session) (h : th.Whole) (hd : d.isWhole = true) :
    (th.perform d).hand = th.hand ∧
      (Due t (th.perform d).session ∧
        (d = .act (.move .reconnect) → (th.perform d).session.isCancelled = true) ∨
      Begun t (th.perform d).session) := by
  have hcases := h.perform_cases hd fun e he => by cases hw.idle.symm.trans he
  rcases hcases with ⟨a,rfl,hp⟩ | ⟨hn,hp,hhand⟩
  · rw [hp]
    exact ⟨rfl,(hw.apply a).imp_left fun ⟨hdue,hk⟩ => ⟨hdue,fun ha => hk (Deed.act.inj ha)⟩⟩
  · rw [hp]
    exact ⟨hhand,.inl ⟨hw,fun ha => absurd ha (hn _)⟩⟩

/-- With the move that connects again the next episode begins, unless the session is to end. -/
theorem Due.course (hw : Due t th.session) (h : th.Whole) (hl : ∀ d ∈ later, d.isWhole = true)
    (hm : .act (.move .reconnect) ∈ later)
    (hk : (th.course later).session.isCancelled = false) :
    ∃ l₁ l₂, later = l₁ ++ l₂ ∧ (th.course l₁).hand = th.hand ∧
      Begun t (th.course l₁).session := by
  induction later generalizing th with
  | nil => cases hm
  | cons d later ih =>
    have hfirst : d.isWhole = true := hl d (List.mem_cons_self ..)
    have hlater : ∀ d ∈ later, d.isWhole = true := fun d hd => hl d (List.mem_cons_of_mem _ hd)
    have hwhole : (th.perform d).Whole := h.perform hfirst
    obtain ⟨hhand,⟨hdue,hc⟩ | hbegun⟩ := Due.perform hw h hfirst
    · rcases List.mem_cons.mp hm with hd | hm
      · have hend := hwhole.isCancelled_course (hc hd.symm) hlater
        cases hk.symm.trans hend
      · obtain ⟨l₁,l₂,rfl,hhand',hbegun⟩ := ih hdue hwhole hlater hm hk
        exact ⟨d :: l₁,l₂,rfl,hhand'.trans hhand,hbegun⟩
    · exact ⟨[d],later,rfl,hhand,hbegun⟩

/-- An episode that is about to end is followed by the next one, unless the session is to end. -/
theorem Winding.begun (hw : Winding t th.session n) (h : th.Whole)
    (hl : ∀ d ∈ later, d.isWhole = true)
    (hm : List.replicate n (.act (.move .receiver)) ++ [.act (.move .reconnect)] <+ later)
    (hk : (th.course later).session.isCancelled = false) :
    ∃ l₁ l₂, later = l₁ ++ l₂ ∧ (th.course l₁).hand = th.hand ∧
      Begun t (th.course l₁).session := by
  obtain ⟨l₁,l₂,rfl,hrest,hhand,hdue⟩ := Winding.course hw h hl hm
  have hl₁ : ∀ d ∈ l₁, d.isWhole = true := fun d hd => hl d (List.mem_append_left _ hd)
  have hl₂ : ∀ d ∈ l₂, d.isWhole = true := fun d hd => hl d (List.mem_append_right _ hd)
  have hk' : ((th.course l₁).course l₂).session.isCancelled = false := by rwa [course_append] at hk
  obtain ⟨l₃,l₄,rfl,hhand',hbegun⟩ := Due.course hdue (whole_course h hl₁) hl₂
    (hrest.subset (List.mem_singleton_self _)) hk'
  have hcourse : th.course (l₁ ++ l₃) = (th.course l₁).course l₃ := course_append ..
  exact ⟨l₁ ++ l₃,l₄,(List.append_assoc ..).symm,hcourse ▸ hhand'.trans hhand,hcourse ▸ hbegun⟩

/-- The end of the episode is noted. -/
theorem Winding.disconnected {c : Settings} {accepted : List Outbound}
    (hw : Winding t th.session n) (h : th.Whole) (hcons : Conserved c accepted th)
    (hl : ∀ d ∈ later, d.isWhole = true)
    (hm : List.replicate n (.act (.move .receiver)) <+ later) :
    ∃ l, (th.course later).session.journal = t.journal ++ l ∧ .event .disconnected ∈ l := by
  rw [← List.append_nil (List.replicate _ _)] at hm
  obtain ⟨l₁,l₂,rfl,_,_,hdue⟩ := Winding.course hw h hl hm
  obtain ⟨l,hj,hd,_⟩ := hdue.lapsed.journal
  obtain ⟨l',hj'⟩ := (hcons.course l₁).crewed.grows l₂
  have hmem : .event .disconnected ∈ l := List.count_pos_iff.mp (by omega)
  refine ⟨l ++ l',?_,List.mem_append_left _ hmem⟩
  rw [course_append, ← List.append_assoc, ← hj]
  exact hj'.symm

/-- From any point on the messages come out of the queue as they stand in it. -/
theorem Conserved.fates {c : Settings} {l : List Outbound} (h : Conserved c l th)
    (hn : th.hand = none) (deeds : List Deed) :
    let u := th.course deeds
    ∃ fates, u.session.fates = th.session.fates ++ fates ∧
      fates.map Prod.snd ++ u.hand.toList ++ u.session.queue =
        th.session.queue ++ th.accepted deeds := by
  intro u
  have hu : Conserved c (l ++ th.accepted deeds) u := h.course deeds
  obtain ⟨m,hj⟩ := h.crewed.grows deeds
  have hfates : u.session.fates = th.session.fates ++ m.filterMap Entry.fate? := by
    rw [State.fates, State.fates, ← List.filterMap_append, hj]
  refine ⟨_,hfates,?_⟩
  have hbefore : th.session.fates.map Prod.snd = th.session.taken := by
    simpa [hn] using h.balanced.disposed
  have hafter : (th.session.fates ++ m.filterMap Entry.fate?).map Prod.snd ++ u.hand.toList =
      u.session.taken := hfates ▸ hu.balanced.disposed
  have ha := hu.balanced.accepted
  rw [hu.accepted, ← hafter, List.map_append, hbefore, ← h.accepted, h.balanced.accepted] at ha
  simp only [List.append_assoc] at ha ⊢
  exact (List.append_cancel_left ha).symm

end Threads

namespace State

end State
end Majordomo.Client
