import Mathlib.Data.List.Infix
import Majordomo.Proofs.Client.Closing
import Majordomo.Proofs.Client.Episodes

/-! # What a session tells

A session tells of one episode after the other: that connecting has succeeded or failed, and that
the episode is over; before the next one, that it connects again. The last thing that it tells is
that it is destroyed.
-/
namespace Majordomo.Client

/-- What an episode tells from its beginning to its end. -/
inductive Tale
  | connected (address : String)
  | failed (reason : String)
  /-- The session has been closed before anything came of connecting. -/
  | closed
deriving DecidableEq

def Tale.events : Tale → List Event
  | .connected address => [.connected address, .disconnected]
  | .failed reason => [.connectFailed reason, .disconnected]
  | .closed => [.disconnected]

inductive Story : List Event → Prop
  | first (x : Tale) : Story x.events
  | next {w : List Event} (h : Story w) (x : Tale) : Story (w ++ [.reconnecting] ++ x.events)

/-- One episode after the other, and perhaps the end of the session. -/
inductive Word : List Event → Prop
  | story {w : List Event} (h : Story w) : Word w
  | destroyed {w : List Event} (h : Story w) : Word (w ++ [.destroyed])

def Opening (w : List Event) : Prop := w = [] ∨ ∃ v, Story v ∧ w = v ++ [.reconnecting]

section
variable {w told : List Event} {e : Episode}

theorem Opening.story (h : Opening w) (x : Tale) : Story (w ++ x.events) := by
  rcases h with rfl | ⟨v,hv,rfl⟩
  · exact .first x
  · exact .next hv x

/-- With its end an episode has told one of three things. -/
theorem Episode.Tells.tale (h : e.Tells told) : ∃ x : Tale, x.events = told ++ [.disconnected] := by
  cases h with
  | nothing => exact ⟨.closed,rfl⟩
  | connected address => exact ⟨.connected address,rfl⟩
  | failed reason => exact ⟨.failed reason,rfl⟩

theorem Story.getLast?_eq (h : Story w) : w.getLast? = some .disconnected := by
  have htale (v : List Event) (x : Tale) : (v ++ x.events).getLast? = some .disconnected := by
    cases x <;> simp [Tale.events]
  cases h with
  | first x => exact htale [] x
  | next h x => exact htale _ x

theorem Story.destroyed_not_mem (h : Story w) : .destroyed ∉ w := by
  have htale (x : Tale) : .destroyed ∉ x.events := by cases x <;> simp [Tale.events]
  induction h with
  | first x => exact htale x
  | next _ x ih => simp [ih, htale x]

/-- A word does not end right after the announcement of an episode. -/
theorem Word.not_reconnecting_destroyed (h : Word w) (v : List Event) :
    ¬ v ++ [.reconnecting, .destroyed] <+: w := by
  intro hp
  have hsplit : v ++ [.reconnecting, .destroyed] = v ++ [.reconnecting] ++ [.destroyed] := by simp
  have hmem : Event.destroyed ∈ w := hp.mem (by simp)
  cases h with
  | story hw => exact hw.destroyed_not_mem hmem
  | @destroyed u hu =>
    rw [hsplit, List.prefix_concat_iff] at hp
    rcases hp with heq | hp
    · have hlast := hu.getLast?_eq
      rw [← (List.append_inj' heq rfl).1] at hlast
      simp at hlast
    · exact hu.destroyed_not_mem (hp.mem (by simp))

end

namespace State
variable {s t : State} {e : Episode} {a : Act}

/-! ## A session that has not been closed -/

/-- What a session that is not to end has told. -/
structure Chronicle (s : State) : Prop where
  live : ∀ e, s.episode = some e →
    ∃ w told, Opening w ∧ e.Tells told ∧ s.events = w ++ told
  idle : s.episode = none →
    ∃ w, Story w ∧ s.events = w ++ if s.reconnectDue then [.reconnecting] else []

theorem Chronicle.of_same (h : s.Chronicle) (he : t.episode = s.episode)
    (hd : t.reconnectDue = s.reconnectDue) (hev : t.events = s.events) : t.Chronicle := by
  refine ⟨fun e hx => ?_,fun hi => ?_⟩
  · rw [hev]
    exact h.live e (he ▸ hx)
  · rw [hev, hd]
    exact h.idle (he ▸ hi)

/-- An episode goes on or ends. -/
theorem Chronicle.proceeds (hc : s.Chronicle) (he : s.episode = some e) (h : Proceeds s e t)
    (ht : t.Sound) (hk : t.isCancelled = false) : t.Chronicle := by
  obtain ⟨w,told,hw,htold,hev⟩ := hc.live e he
  refine ⟨fun e₁ he₁ => ?_,fun hi => ?_⟩
  · obtain ⟨e',new,he',hev',htold'⟩ := h.tells told htold (by rw [he₁]; rfl)
    obtain rfl : e' = e₁ := Option.some.inj (he'.symm.trans he₁)
    exact ⟨w,told ++ new,hw,htold',by rw [hev', hev, List.append_assoc]⟩
  · obtain ⟨new,last,hall,hev',hlast⟩ := h.ends told htold hi (ht.not_closing hk)
    have hevents : t.events = w ++ [last, .disconnected] ++
        if t.reconnectDue then [.reconnecting] else [] := by
      rw [hev', hev, List.append_assoc w, hall]
      simp only [List.append_assoc, List.cons_append, List.nil_append]
    refine ⟨w ++ [last, .disconnected],?_,hevents⟩
    rcases hlast with ⟨⟨address,rfl⟩,_⟩ | ⟨⟨reason,rfl⟩,_⟩
    · exact hw.story (.connected address)
    · exact hw.story (.failed reason)

/-- An act between two episodes. -/
theorem Effect.chronicle_of_idle (h : Effect s a t) (hs : s.Sound) (ht : t.Sound)
    (hk : s.isCancelled = false) (hk' : t.isCancelled = false) (hc : s.Chronicle)
    (hi : s.episode = none) : t.Chronicle := by
  obtain ⟨w,hw,hev⟩ := hc.idle hi
  cases h with
  | turn _ he => cases hi.symm.trans he
  | revive hd =>
    have hexecute := hs.canExecute_of_due hd
    rw [hk] at hexecute
    rw [execute_of_canExecute hexecute]
    refine ⟨fun e he => ?_,fun hi => by cases hi⟩
    obtain rfl := Option.some.inj he
    rw [hd, if_pos rfl] at hev
    exact ⟨s.events,[],.inr ⟨w,hw,hev⟩,.nothing rfl rfl,(List.append_nil _).symm⟩
  | request _ hcl hu =>
    have he : t.episode = s.requestSend.episode := hu.episode
    have hd : t.reconnectDue = s.requestSend.reconnectDue := (congrArg State.reconnectDue hu.core :)
    have hr := hs.resting hi hcl
    refine Chronicle.of_same ?_ he hd hu.events
    rw [requestSend_of_idle hi]
    by_cases hp : s.releasePhase = .new
    · -- the session is asked to connect again
      have hnot : s.reconnectDue = false := Bool.eq_false_iff.mpr fun hd => by
        cases hp.symm.trans (hr.due.mp hd)
      rw [reconnect_of_new (by exact hp)]
      refine ⟨fun e he => (by cases hi.symm.trans he),fun _ => ⟨w,hw,?_⟩⟩
      rw [hnot] at hev
      simpa [events_eq, Entry.event?] using hev
    · rw [reconnect_of_ne_new (by exact hp)]
      exact hc.of_same rfl rfl (by rw [events_eq, events_eq])
  | close => cases (ht.isCancelled_of_closing (closing_close s)).symm.trans hk'
  | pass _ _ hu => exact hc.of_same hu.episode (congrArg State.reconnectDue hu.core :) hu.events

theorem Chronicle.apply (h : s.Chronicle) (hs : s.Sound)
    (hk : (s.apply a).isCancelled = false) : (s.apply a).Chronicle := by
  have hks : s.isCancelled = false := isCancelled_of_apply hs hk
  have heffect : Effect s a (s.apply a) := effect_apply hs.sane a
  rcases Option.eq_none_or_eq_some s.episode with hi | ⟨e,he⟩
  · exact heffect.chronicle_of_idle hs (hs.apply a) hks hk h hi
  · exact h.proceeds he (heffect.proceeds hs he hks) (hs.apply a) hk

theorem Chronicle.course {th : Threads} (h : th.session.Chronicle) (hw : th.Whole)
    {deeds : List Deed} (hd : ∀ d ∈ deeds, d.isWhole = true)
    (hk : (th.course deeds).session.isCancelled = false) :
    (th.course deeds).session.Chronicle := by
  refine hw.invariant (P := fun s => s.isCancelled = false → s.Chronicle)
    (fun s a hs hc hk => ?_) (fun {s hand e hand' t e' manager session} hs hc he hx hst hk => ?_)
    (fun _ => h) hd hk
  · exact (hc (isCancelled_of_apply hs hk)).apply hs hk
  · have hl : s.Live e := (hs.live e he).1
    have hks : s.isCancelled = false := Bool.eq_false_iff.mpr fun hks => by
      cases hk.symm.trans ((isCancelled_settleEpisode e' t).trans (hst.isCancelled hks))
    have hproceeds : Proceeds s e (t.settleEpisode e') :=
      proceeds_stint hl (by rw [hx]; rfl) hst
    exact (hc hks).proceeds he hproceeds (hst.live hl).sound_settleEpisode hk

theorem chronicle_start {c : Settings} {m : Mode} {monitor : Monitor} {listener : Option Nat}
    (hk : (start c m monitor listener).isCancelled = false) :
    (start c m monitor listener).Chronicle := by
  have hnone : (start c m monitor listener).events = [] := by
    rw [events_eq, journal_start]
    rfl
  rcases Option.eq_none_or_eq_some (start c m monitor listener).episode with hi | ⟨e,he⟩
  · -- the first episode begins unless the session is to end
    have hc : canExecute { settings := c, network := { mode := m }, monitor, listener : State } =
        false := Bool.eq_false_iff.mpr fun hc => by
      have hv : start c m monitor listener = _ := execute_of_canExecute hc
      rw [hv] at hi
      cases hi
    have hv : start c m monitor listener = _ := execute_of_not_canExecute hc
    rw [hv] at hk
    rw [canExecute, hk] at hc
    cases hc
  · have hfresh : (start c m monitor listener).Fresh := fresh_start (by rw [he]; rfl)
    refine ⟨fun e he => ?_,fun hi => by cases hi.symm.trans he⟩
    obtain rfl : ({} : Episode) = e := Option.some.inj (hfresh.episode.symm.trans he)
    exact ⟨[],[],.inl rfl,.nothing rfl rfl,hnone⟩

theorem rootStopped_start (c : Settings) (m : Mode) (monitor : Monitor) (listener : Option Nat) :
    (start c m monitor listener).rootStopped = false := by
  unfold start build execute
  split <;> rfl

/-! ## A session that has been closed -/

/-- The application stays shut down. -/
theorem Change.cancelled (h : Change s t) (hc : s.monitor.cancelled = true) :
    t.monitor.cancelled = true := by
  have hk : s.isCancelled = true := by simp [State.isCancelled, hc]
  cases h with
  | step h => rwa [h.monitor hk]
  | request =>
    have hm : s.requestSend.monitor = s.monitor := (congrArg State.monitor (body_requestSend s) :)
    rwa [hm]
  | shutdown => rfl
  | push | wait | suppress | listen | network | tick => exact hc

theorem cancelled_run (hs : s.Sane) (hc : s.monitor.cancelled = true) (acts : List Act) :
    (s.run acts).monitor.cancelled = true :=
  run_invariant (P := fun s => s.monitor.cancelled = true) (fun _ _ _ h hc => h.cancelled hc)
    (fun _ s hc => by rwa [monitor_close]) hs hc

theorem rootStopped_apply (hs : s.Sane) (ha : a ≠ .close) :
    (s.apply a).rootStopped = s.rootStopped := by
  have hchanges : Changes s (s.apply a) := changes_apply hs ha
  generalize s.apply a = t at *
  induction hchanges with
  | refl => rfl
  | tail _ hc ih => exact hc.rootStopped.trans ih

theorem Sound.not_destroyed (h : s.Sound) (hk : s.isCancelled = false) : s.destroyed = false := by
  rcases Option.eq_none_or_eq_some s.episode with hi | ⟨e,he⟩
  · exact (h.resting hi (h.not_closing hk)).notDestroyed
  · exact (h.live e he).1.notDestroyed

end State

section
variable {s t : State} {e e' : Episode} {hand hand' : Option Outbound}

theorem Stint.rootStopped (h : Stint hand s e hand' t e') : t.rootStopped = s.rootStopped := by
  cases h with
  | turn ht => exact (congrArg State.rootStopped ht.frame :)
  | misfire | take => rfl
  | put _ hput => cases hput <;> rfl

theorem Stint.monitor_of_isCancelled {manager : Nat} {session : Option Nat}
    (h : Stint hand s e hand' t e') (hs : e.sender = .forwarding manager session)
    (hk : s.isCancelled = true) : t.monitor = s.monitor := by
  cases h with
  | turn ht =>
    have hx : s.isStopped e = true := by simp [State.isStopped, hk]
    exact (ht.of_isStopped hx).2
  | misfire hx => cases hs.symm.trans hx
  | take => rfl
  | put _ hput => cases hput <;> rfl

end

namespace Threads
open State
variable {th : Threads} {d : Deed} {deeds : List Deed}

theorem Whole.isCancelled_of_course (h : th.Whole) (hd : ∀ d ∈ deeds, d.isWhole = true)
    (hk : (th.course deeds).session.isCancelled = false) : th.session.isCancelled = false :=
  Bool.eq_false_iff.mpr fun hc => by cases hk.symm.trans (h.isCancelled_course hc hd)

theorem Whole.cancelled_course (h : th.Whole) (hc : th.session.monitor.cancelled = true)
    (hd : ∀ d ∈ deeds, d.isWhole = true) :
    (th.course deeds).session.monitor.cancelled = true := by
  refine h.invariant (P := fun s => s.monitor.cancelled = true)
    (fun _ a hs hc => cancelled_run hs.sane hc [a]) (fun {s _ _ _ t e' _ _} _ hc _ hx hst => ?_)
    hc hd
  have hk : s.isCancelled = true := by simp [State.isCancelled, hc]
  rwa [monitor_settleEpisode, hst.monitor_of_isCancelled hx hk]

theorem Whole.rootStopped_perform (h : th.Whole) (hd : d.isWhole = true) (hn : d ≠ .act .close) :
    (th.perform d).session.rootStopped = th.session.rootStopped := by
  refine h.keeps (P := fun s => s.rootStopped = th.session.rootStopped) rfl (fun a ha => ?_)
    (fun {_ _ t e' _ _} _ _ hst => ?_) hd
  · refine rootStopped_apply h.sound.sane fun hx => hn ?_
    rw [ha, hx]
  · exact (congrArg State.rootStopped (body_settleEpisode e' t) :).trans hst.rootStopped

/-- A session that is to end without a shutdown of the application has been closed. -/
theorem Whole.exists_close (h : th.Whole) (hk : th.session.isCancelled = false)
    (hd : ∀ d ∈ deeds, d.isWhole = true)
    (hm : (th.course deeds).session.monitor.cancelled = false)
    (hk' : (th.course deeds).session.isCancelled = true) :
    ∃ l rest, deeds = l ++ .act .close :: rest ∧ (th.course l).session.isCancelled = false := by
  induction deeds generalizing th with
  | nil => cases hk.symm.trans hk'
  | cons d deeds ih =>
    by_cases hn : d = .act .close
    · subst hn
      exact ⟨[],deeds,rfl,hk⟩
    · have hfirst : d.isWhole = true := hd d (List.mem_cons_self ..)
      have hlater : ∀ d ∈ deeds, d.isWhole = true := fun d hx => hd d (List.mem_cons_of_mem _ hx)
      have hw : (th.perform d).Whole := h.perform hfirst
      have hka : (th.perform d).session.isCancelled = false := by
        have hroot : (th.perform d).session.rootStopped = false := by
          rw [h.rootStopped_perform hfirst hn]
          exact (Bool.or_eq_false_iff.mp hk).1
        have hma : (th.perform d).session.monitor.cancelled = false :=
          Bool.eq_false_iff.mpr fun hc => by
            cases hm.symm.trans (hw.cancelled_course hc hlater)
        rw [State.isCancelled, hroot, hma]
        rfl
      obtain ⟨l,rest,rfl,hl⟩ := ih hw hka hlater hm hk'
      exact ⟨d :: l,rest,rfl,hl⟩

/-- What is told after a session has been closed. -/
theorem Whole.events_of_close (h : th.Whole) (hk : th.session.isCancelled = false)
    (hd : ∀ d ∈ deeds, d.isWhole = true) :
    let t := (th.course (.act .close :: deeds)).session
    t.events ++ t.farewell = th.session.events ++
      (if th.session.episode.isSome then [.disconnected] else []) ++ [.destroyed] := by
  intro t
  have hn : th.session.destroyed = false := h.sound.not_destroyed hk
  have hclosed : (th.perform (.act .close)).Whole := h.perform rfl
  have ht : Ending th.session.close t := Ending.course (ending_close h.sound hn).1 hclosed hd
  exact ht.events.trans (events_close h.sound hn)

end Threads

namespace State
variable {s t : State} {e : Episode} {a : Act}

/-! ## The grammar of what is told -/

/-- What an open session tells begins a word. -/
theorem Chronicle.word (h : s.Chronicle) : ∃ w, Word w ∧ s.events <+: w := by
  rcases Option.eq_none_or_eq_some s.episode with hi | ⟨e,he⟩
  · obtain ⟨w,hw,hev⟩ := h.idle hi
    cases hd : s.reconnectDue with
    | false =>
      rw [hd] at hev
      exact ⟨w,.story hw,by simp [hev]⟩
    | true =>
      rw [hd, if_pos rfl] at hev
      exact ⟨_,.story (.next hw .closed),hev ▸ List.prefix_append ..⟩
  · obtain ⟨w,told,hw,htold,hev⟩ := h.live e he
    obtain ⟨x,hx⟩ := htold.tale
    refine ⟨w ++ x.events,.story (hw.story x),?_⟩
    rw [hev, hx, ← List.append_assoc]
    exact List.prefix_append ..

/-- What an open session has told, and what follows if it is closed. -/
theorem Chronicle.closed (h : s.Chronicle) :
    let v := s.events ++ (if s.episode.isSome then [.disconnected] else []) ++ [.destroyed]
    Word v ∨ s.reconnectDue = true ∧ ∃ w, Story w ∧ v = w ++ [.reconnecting, .destroyed] := by
  intro v
  rcases Option.eq_none_or_eq_some s.episode with hi | ⟨e,he⟩
  · obtain ⟨w,hw,hev⟩ := h.idle hi
    cases hd : s.reconnectDue with
    | false =>
      have hv : v = w ++ [.destroyed] := by simp [v, hi, hev, hd]
      exact .inl (hv ▸ .destroyed hw)
    | true =>
      have hv : v = w ++ [.reconnecting, .destroyed] := by simp [v, hi, hev, hd]
      exact .inr ⟨rfl,w,hw,hv⟩
  · obtain ⟨w,told,hw,htold,hev⟩ := h.live e he
    obtain ⟨x,hx⟩ := htold.tale
    have hv : v = w ++ x.events ++ [.destroyed] := by simp [v, he, hev, hx]
    exact .inl (hv ▸ .destroyed (hw.story x))

/-- Nothing follows the end. -/
theorem eq_nil_of_destroyed {v w w' : List Event} (hv : Word v ∨ ∃ x, Story x ∧
      v = x ++ [.reconnecting, .destroyed]) (h : w ++ .destroyed :: w' <+: v) : w' = [] := by
  -- all of the word but its last letter
  obtain ⟨x,hx,hpre⟩ : ∃ x, .destroyed ∉ x ∧ w ++ .destroyed :: w' <+: x ++ [.destroyed] := by
    rcases hv with hv | ⟨x,hx,rfl⟩
    · cases hv with
      | story hx => exact ⟨v,hx.destroyed_not_mem,h.trans (List.prefix_append ..)⟩
      | destroyed hx => exact ⟨_,hx.destroyed_not_mem,h⟩
    · exact ⟨x ++ [.reconnecting],by simp [hx.destroyed_not_mem],by simpa using h⟩
  rcases List.eq_nil_or_concat w' with hn | ⟨l,y,rfl⟩
  · exact hn
  · have hmem : .destroyed ∈ x := by
      rcases List.prefix_concat_iff.mp hpre with heq | hpre
      · have heq : (w ++ .destroyed :: l) ++ [y] = x ++ [.destroyed] := by simpa using heq
        obtain ⟨hx,_⟩ := List.append_inj' heq rfl
        simp [← hx]
      · exact hpre.subset (by simp)
    exact absurd hmem hx

theorem settleEpisode_idle {u : State} {e' : Episode} {new : List Event}
    (hcount : u.events.count .reconnecting = s.events.count .reconnecting)
    (hev : (u.settleEpisode e').events = s.events ++ new) (hm : .reconnecting ∈ new) :
    (u.settleEpisode e').episode = none := by
  cases ho : e'.isOver with
  | true =>
    rw [settleEpisode_of_over ho]
    exact episode_onReleased ..
  | false =>
    rw [settleEpisode_of_not_over ho] at hev
    have hev : u.events = s.events ++ new := hev
    have hpos : 0 < new.count .reconnecting := List.count_pos_iff.mpr hm
    rw [hev, List.count_append] at hcount
    omega

/-- That the session connects again is told between two episodes. -/
theorem Effect.idle_of_reconnecting (h : Effect s a t) {new : List Event}
    (hev : t.events = s.events ++ new) (hm : .reconnecting ∈ new) : t.episode = none := by
  have hsame : t.events ≠ s.events := fun hsame => by
    rw [List.self_eq_append_right.mp (hsame.symm.trans hev)] at hm
    cases hm
  rcases h.cases with ⟨_,_,_,_,_,hturn,rfl⟩ | ⟨_,_,rfl⟩ | hb
  · exact settleEpisode_idle (hturn.count_events nofun nofun) hev hm
  · refine absurd ?_ hsame
    unfold execute
    split <;> rfl
  · rcases Option.eq_none_or_eq_some s.episode with hi | ⟨e,he⟩
    · exact hb.episode.trans hi
    · exact absurd (hb.events (by rw [he]; rfl)) hsame

end State

namespace Threads
open State
variable {th : Threads} {d : Deed} {deeds : List Deed}

theorem Whole.idle_of_reconnecting (h : th.Whole) (hd : d.isWhole = true) {new : List Event}
    (hev : (th.perform d).session.events = th.session.events ++ new)
    (hm : .reconnecting ∈ new) : (th.perform d).session.episode = none := by
  refine h.keeps (P := fun s => s.events = th.session.events ++ new → s.episode = none)
    (fun hev => ?_) (fun a _ hev => ?_) (fun _ hx hst hev => ?_) hd hev
  · rw [List.self_eq_append_right.mp hev] at hm
    cases hm
  · exact (effect_apply h.sound.sane a).idle_of_reconnecting hev hm
  · exact settleEpisode_idle (by rw [(hst.silent (by rw [hx]; rfl)).1]) hev hm

/-! ## One episode -/

def tidings (th : Threads) (deeds : List Deed) : List Event :=
  (th.course deeds).session.events.drop th.session.events.length

/-- The episode that is live goes on through all of the deeds. -/
def Lasts (th : Threads) (deeds : List Deed) : Prop :=
  ∀ l, l <+: deeds → (th.course l).session.episode.isSome = true

/-- An episode has begun with the last of the deeds, or with the session. -/
def Opens (th : Threads) (deeds : List Deed) : Prop :=
  (deeds = [] ∨ ∃ l d, deeds = l ++ [d] ∧ (th.course l).session.episode = none) ∧
    (th.course deeds).session.episode.isSome = true

theorem tidings_of_events {l : List Event}
    (h : (th.course deeds).session.events = th.session.events ++ l) : th.tidings deeds = l := by
  rw [tidings, h, List.drop_left]

theorem Whole.events_perform (h : th.Whole) (hd : d.isWhole = true) :
    (th.perform d).session.events = th.session.events ++ th.tidings [d] := by
  have hj : th.session.journal <+: (th.perform d).session.journal :=
    h.keeps (P := fun s => th.session.journal <+: s.journal) List.prefix_rfl
      (fun a _ => (effect_apply h.sound.sane a).grows)
      (fun _ _ hst => hst.grows.trans (prefix_settleEpisode ..)) hd
  obtain ⟨l,hl⟩ := hj.filterMap Entry.event?
  rw [← events_eq, ← events_eq] at hl
  have htold : th.tidings [d] = l := tidings_of_events hl.symm
  rw [htold, hl]

theorem Whole.proceeds (h : th.Whole) (he : th.session.episode = some e)
    (hk : th.session.isCancelled = false) (hd : d.isWhole = true) :
    Proceeds th.session e (th.perform d).session := by
  have hl : th.session.Live e := (h.sound.live e he).1
  refine h.keeps (P := Proceeds th.session e) (proceeds_of_events he rfl) (fun a _ => ?_)
    (fun {e₀ _ _ _ _ _} he₀ hx hst => ?_) hd
  · exact (effect_apply h.sound.sane a).proceeds h.sound he hk
  · obtain rfl : e = e₀ := Option.some.inj (he.symm.trans he₀)
    exact proceeds_stint hl (by rw [hx]; rfl) hst

/-- What an episode tells while it lasts. -/
theorem Lasts.tells (hl : th.Lasts deeds) (h : th.Whole) (hd : ∀ d ∈ deeds, d.isWhole = true)
    (he : th.session.episode = some e) (ht : e.Tells told)
    (hk : (th.course deeds).session.isCancelled = false) :
    ∃ e' new, (th.course deeds).session.episode = some e' ∧
      (th.course deeds).session.events = th.session.events ++ new ∧ e'.Tells (told ++ new) := by
  induction deeds generalizing th e told with
  | nil => exact ⟨e,[],he,(List.append_nil _).symm,by rwa [List.append_nil]⟩
  | cons d deeds ih =>
    have hfirst : d.isWhole = true := hd d (List.mem_cons_self ..)
    have hlater : ∀ d ∈ deeds, d.isWhole = true := fun d hx => hd d (List.mem_cons_of_mem _ hx)
    have hl' : (th.perform d).Lasts deeds := fun l hp =>
      hl (d :: l) (List.cons_prefix_cons.mpr ⟨rfl,hp⟩)
    have hks : th.session.isCancelled = false := h.isCancelled_of_course hd hk
    obtain ⟨e₁,new,he₁,hev₁,ht₁⟩ :=
      (h.proceeds he hks hfirst).tells told ht (hl' [] List.nil_prefix)
    obtain ⟨e₂,new',he₂,hev₂,ht₂⟩ := ih hl' (h.perform hfirst) hlater he₁ ht₁ hk
    refine ⟨e₂,new ++ new',he₂,?_,by rwa [← List.append_assoc]⟩
    rw [course_cons, hev₂, hev₁, List.append_assoc]

theorem Whole.fresh_of_begins (h : th.Whole) (hi : th.session.episode = none)
    (hl : (th.perform d).session.episode.isSome = true) (hd : d.isWhole = true) :
    (th.perform d).session.Fresh := by
  refine h.keeps (P := fun s => s.episode.isSome = true → s.Fresh) (fun hl => ?_) (fun a _ hl => ?_)
    (fun he _ _ => ?_) hd hl
  · rw [hi] at hl
    cases hl
  · exact (State.fresh_of_begins h.sound (by rw [begins, hi, hl]; rfl)).1
  · cases hi.symm.trans he

/-- At the beginning of an episode nothing has come of it. -/
theorem fresh_of_opens {c : Settings} {m : Mode} {monitor : Monitor} {listener : Option Nat}
    (h : (start c m monitor listener).Opens deeds) (hd : ∀ d ∈ deeds, d.isWhole = true) :
    ((start c m monitor listener).course deeds).session.Fresh := by
  obtain ⟨rfl | ⟨l,d,rfl,hi⟩,hl⟩ := h
  · exact fresh_start hl
  · have hw : ((start c m monitor listener).course l).Whole :=
      whole_course (whole_start ..) fun d' hx => hd d' (List.mem_append_left _ hx)
    rw [course_append] at hl ⊢
    exact hw.fresh_of_begins hi hl (hd d (by simp))

section
variable {during : List Deed}

/-- An episode of a session that stays open. -/
theorem Whole.tale_of_open (h : th.Whole) (hfresh : th.session.Fresh)
    (hd : ∀ d' ∈ during ++ [d], d'.isWhole = true) (hl : th.Lasts during)
    (hi : (th.course (during ++ [d])).session.episode = none)
    (hk : (th.course (during ++ [d])).session.isCancelled = false) :
    ∃ (x : Tale) (next : List Event), th.tidings (during ++ [d]) = x.events ++ next ∧
      (next = [] ∨ next = [.reconnecting]) ∧ x ≠ .closed := by
  have hduring : ∀ d' ∈ during, d'.isWhole = true := fun d' hx =>
    hd d' (List.mem_append_left _ hx)
  have hlast : d.isWhole = true := hd d (by simp)
  have hw : (th.course during).Whole := whole_course h hduring
  have hopen := (whole_course h hd).sound.not_closing hk
  have hcourse : th.course (during ++ [d]) = (th.course during).perform d := course_append ..
  rw [hcourse] at hk hi hopen
  have hkd : (th.course during).session.isCancelled = false :=
    hw.isCancelled_of_course (fun d' hx => List.mem_singleton.mp hx ▸ hlast) hk
  obtain ⟨e,told,he,hev,ht⟩ := hl.tells h hduring hfresh.episode (.nothing rfl rfl) hkd
  obtain ⟨new,last,hall,hev',hlast'⟩ := (hw.proceeds he hkd hlast).ends told ht hi hopen
  have hall : told ++ new = [last] := hall
  obtain ⟨x,hx,hxc⟩ : ∃ x : Tale, x.events = [last, .disconnected] ∧ x ≠ .closed := by
    rcases hlast' with ⟨⟨address,rfl⟩,_⟩ | ⟨⟨reason,rfl⟩,_⟩
    · exact ⟨.connected address,rfl,by simp⟩
    · exact ⟨.failed reason,rfl,by simp⟩
  refine ⟨x,if ((th.course during).perform d).session.reconnectDue then [.reconnecting] else [],
    tidings_of_events ?_,?_,hxc⟩
  · rw [hcourse, hev', hev, List.append_assoc th.session.events, hall, hx]
    simp only [List.append_assoc, List.cons_append, List.nil_append]
  · split
    · exact .inr rfl
    · exact .inl rfl

/-- Closing itself does not end an episode. -/
theorem Lasts.closed_during (hl : th.Lasts during)
    (hi : (th.course (during ++ [d])).session.episode = none) {l rest : List Deed}
    (h : during ++ [d] = l ++ .act .close :: rest) :
    ∃ rest', during = l ++ .act .close :: rest' := by
  rcases List.eq_nil_or_concat rest with rfl | ⟨rest',b,rfl⟩
  · obtain ⟨rfl,hx⟩ := List.append_inj' h rfl
    obtain rfl : d = .act .close := List.head_eq_of_cons_eq hx
    have hlive : (th.course during).session.episode.isSome = true := hl during List.prefix_rfl
    rw [← episode_close] at hlive
    rw [course_append] at hi
    have hi : (th.course during).session.close.episode = none := hi
    rw [hi] at hlive
    cases hlive
  · have h : during ++ [d] = (l ++ .act .close :: rest') ++ [b] := by simpa using h
    exact ⟨rest',(List.append_inj' h rfl).1⟩

/-- An episode in which the session has been closed. -/
theorem Whole.tale_of_closed (h : th.Whole) (hfresh : th.session.Fresh)
    (hd : ∀ d' ∈ during ++ [d], d'.isWhole = true) (hl : th.Lasts during)
    (hi : (th.course (during ++ [d])).session.episode = none)
    (hm : (th.course (during ++ [d])).session.monitor.cancelled = false)
    (hk : (th.course (during ++ [d])).session.isCancelled = true) :
    ∃ x : Tale, th.tidings (during ++ [d]) = x.events ++ [.destroyed] ∧
      ∃ l rest, during = l ++ .act .close :: rest ∧ (th.course l).session.closing = false := by
  obtain ⟨l,rest,hdeeds,hkl⟩ := h.exists_close hfresh.notCancelled hd hm hk
  obtain ⟨rest',rfl⟩ := hl.closed_during hi hdeeds
  have hbefore : ∀ d' ∈ l, d'.isWhole = true := fun d' hx => hd d' (by simp [hx])
  have hafter : ∀ d' ∈ rest, d'.isWhole = true := fun d' hx => hd d' (by simp [hdeeds, hx])
  have hlasts : th.Lasts l := fun k hp => hl k (hp.trans (List.prefix_append ..))
  have hw : (th.course l).Whole := whole_course h hbefore
  obtain ⟨e,told,he,hev,htold⟩ := hlasts.tells h hbefore hfresh.episode (.nothing rfl rfl) hkl
  obtain ⟨x,hx⟩ := htold.tale
  refine ⟨x,tidings_of_events ?_,l,rest',rfl,hw.sound.not_closing hkl⟩
  have hend := hw.events_of_close hkl hafter
  have hfarewell : (th.course (l ++ .act .close :: rest' ++ [d])).session.farewell = [] := by
    rw [farewell, hi]
    rfl
  dsimp only at hend
  rw [← course_append, ← hdeeds, hfarewell, he, hev] at hend
  simpa [hx] using hend

/-- What a whole episode has told when it ends, and what comes after it. -/
theorem Whole.tale (h : th.Whole) (hfresh : th.session.Fresh)
    (hd : ∀ d' ∈ during ++ [d], d'.isWhole = true) (hl : th.Lasts during)
    (hi : (th.course (during ++ [d])).session.episode = none)
    (hm : (th.course (during ++ [d])).session.monitor.cancelled = false) :
    ∃ (x : Tale) (next : List Event),
      th.tidings (during ++ [d]) = x.events ++ next ∧
      (next = [] ∨ next = [.reconnecting] ∨ next = [.destroyed]) ∧
      (x = .closed → ∃ l rest, during = l ++ .act .close :: rest ∧
        (th.course l).session.closing = false) := by
  cases hk : (th.course (during ++ [d])).session.isCancelled with
  | false =>
    obtain ⟨x,next,htold,hnext,hx⟩ := h.tale_of_open hfresh hd hl hi hk
    exact ⟨x,next,htold,hnext.imp_right .inl,fun hc => absurd hc hx⟩
  | true =>
    obtain ⟨x,htold,hclosed⟩ := h.tale_of_closed hfresh hd hl hi hm hk
    exact ⟨x,[.destroyed],htold,.inr (.inr rfl),fun _ => hclosed⟩

end

/-- What is told begins a word of the grammar, unless the session is closed after the announcement
that it connects again and before that episode begins. -/
theorem events_prefix (c : Settings) (m : Mode) (monitor : Monitor) (listener : Option Nat)
    (hd : ∀ d ∈ deeds, d.isWhole = true)
    (hm : ((start c m monitor listener).course deeds).session.monitor.cancelled = false) :
    let s := start c m monitor listener
    ∃ w, (s.course deeds).session.events <+: w ∧
      (Word w ∨ (∃ v, Story v ∧ w = v ++ [.reconnecting, .destroyed]) ∧
        ∃ l, l ++ [.act .close] <+: deeds ∧ (s.course l).session.reconnectDue = true) := by
  intro s
  have hs : s.Whole := whole_start ..
  have hks : s.session.isCancelled = false := Bool.eq_false_iff.mpr fun hk => by
    have hroot : s.session.rootStopped = false := rootStopped_start ..
    rw [State.isCancelled, hroot, Bool.false_or] at hk
    cases hm.symm.trans (hs.cancelled_course hk hd)
  have hchronicle : s.session.Chronicle := chronicle_start hks
  cases hk : (s.course deeds).session.isCancelled with
  | false =>
    obtain ⟨w,hw,hp⟩ := (hchronicle.course hs hd hk).word
    exact ⟨w,hp,.inl hw⟩
  | true =>
    obtain ⟨l,rest,rfl,hkl⟩ := hs.exists_close hks hd hm hk
    have hbefore : ∀ d ∈ l, d.isWhole = true := fun d hx => hd d (List.mem_append_left _ hx)
    have hafter : ∀ d ∈ rest, d.isWhole = true := fun d hx => hd d (by simp [hx])
    have hl : (s.course l).session.Chronicle := hchronicle.course hs hbefore hkl
    have hend := (whole_course hs hbefore).events_of_close hkl hafter
    dsimp only at hend
    rw [← course_append] at hend
    have hclose : l ++ [.act .close] <+: l ++ .act .close :: rest := ⟨rest,by simp⟩
    refine ⟨_,hend ▸ List.prefix_append ..,?_⟩
    rcases hl.closed with hw | ⟨hdue,hw⟩
    · exact .inl hw
    · exact .inr ⟨hw,l,hclose,hdue⟩

/-- In a session whose application is not shut down, what is told begins a word of the grammar, but
for a session that is closed between the announcement that it connects again and the beginning of
that episode: there that announcement and the end of the session are the last things told. So it
begins a word if the tasks are at rest whenever the session is closed. Nothing follows the end.
That the session connects again is never told while an episode is live, and every episode tells one
of three things: that connecting has succeeded, or that it has failed, or neither, and then the
session has been closed in it. -/
theorem events_follow_grammar (c : Settings) (m : Mode) (monitor : Monitor)
    (listener : Option Nat) (deeds : List Deed) (hd : ∀ d ∈ deeds, d.isWhole = true)
    (hm : ((start c m monitor listener).course deeds).session.monitor.cancelled = false) :
    let s := start c m monitor listener
    let th := s.course deeds
    let told := th.session.events
    (∃ w, told <+: w ∧ (Word w ∨ (∃ v, Story v ∧ w = v ++ [.reconnecting, .destroyed]) ∧
      ∃ l, l ++ [.act .close] <+: deeds ∧ (s.course l).session.reconnectDue = true)) ∧
    ((∀ l, l ++ [.act .close] <+: deeds → (s.course l).isQuiescent = true) →
      ∃ w, Word w ∧ told <+: w) ∧
    (∀ w w', told = w ++ .destroyed :: w' → w' = []) ∧
    (∀ d, d.isWhole = true → .reconnecting ∈ th.tidings [d] →
      (th.perform d).session.episode = none) ∧
    ∀ before during d, deeds = before ++ during ++ [d] → s.Opens before →
      (s.course before).Lasts during → th.session.episode = none →
      ∃ (x : Tale) (next : List Event),
        (s.course before).tidings (during ++ [d]) = x.events ++ next ∧
        (next = [] ∨ next = [.reconnecting] ∨ next = [.destroyed]) ∧
        (x = .closed → ∃ l rest, during = l ++ .act .close :: rest ∧
          (s.course (before ++ l)).session.closing = false) := by
  intro s th told
  have hs : s.Whole := whole_start ..
  have hgrammar := events_prefix c m monitor listener hd hm
  refine ⟨hgrammar,fun hrest => ?_,fun w w' hev => ?_,fun d hx hr => ?_,?_⟩
  · obtain ⟨w,hp,hw | ⟨_,l,hl,hdue⟩⟩ := hgrammar
    · exact ⟨w,hw,hp⟩
    · cases (not_reconnectDue_of_quiescent (hrest l hl)).symm.trans hdue
  · obtain ⟨v,hp,hv⟩ := hgrammar
    have hpre : w ++ .destroyed :: w' <+: v := hev ▸ hp
    exact eq_nil_of_destroyed (hv.imp_right And.left) hpre
  · exact (whole_course hs hd).idle_of_reconnecting hx ((whole_course hs hd).events_perform hx) hr
  · intro before during d hdeeds ho hl hi
    have hbefore : ∀ d' ∈ before, d'.isWhole = true := fun d' hx => hd d' (by simp [hdeeds, hx])
    have hduring : ∀ d' ∈ during ++ [d], d'.isWhole = true := fun d' hx =>
      hd d' (by rw [hdeeds, List.append_assoc]; exact List.mem_append_right _ hx)
    have hcourse : th = (s.course before).course (during ++ [d]) := by
      rw [← course_append, ← List.append_assoc, ← hdeeds]
    have hm : th.session.monitor.cancelled = false := hm
    rw [hcourse] at hi hm
    have hfresh : (s.course before).session.Fresh := fresh_of_opens ho hbefore
    obtain ⟨x,next,htold,hnext,hx⟩ := (whole_course hs hbefore).tale hfresh hduring hl hi hm
    refine ⟨x,next,htold,hnext,fun hc => ?_⟩
    obtain ⟨l,rest,hparts,hclosing⟩ := hx hc
    exact ⟨l,rest,hparts,by rwa [course_append]⟩

/-- A session is closed while the first connect hangs. -/
theorem events_follow_grammar_closed :
    let s := start .sample .hang {} none
    let during : List Deed := [.act (.move .sender), .act .close, .act (.move .sender)]
    let deeds := during ++ [.act (.move .receiver)]
    (∃ w, Word w ∧ (s.course deeds).session.events <+: w) ∧
      ∃ l rest, during = l ++ .act .close :: rest ∧ (s.course l).session.closing = false := by
  intro s during deeds
  have hd : ∀ d ∈ deeds, d.isWhole = true := by decide
  have hm : (s.course deeds).session.monitor.cancelled = false := by decide +kernel
  obtain ⟨_,hword,_,_,htale⟩ := events_follow_grammar .sample .hang {} none deeds hd hm
  have hrest : ∀ p ∈ deeds.inits, p.getLast? = some (.act .close) →
      (s.course p.dropLast).isQuiescent = true := by decide +kernel
  have hlasts : ∀ l ∈ during.inits, (s.course l).session.episode.isSome = true := by
    decide +kernel
  have hidle : (s.course deeds).session.episode = none := by decide +kernel
  have htold : s.tidings deeds = [.disconnected, .destroyed] := by decide +kernel
  refine ⟨hword fun l hp => ?_,?_⟩
  · have hquiet := hrest (l ++ [.act .close]) ((List.mem_inits ..).mpr hp) List.getLast?_concat
    rwa [List.dropLast_concat] at hquiet
  · obtain ⟨x,next,htold',_,hx⟩ := htale [] during (.act (.move .receiver)) rfl
      ⟨.inl rfl,by decide +kernel⟩ (fun l hp => hlasts l ((List.mem_inits ..).mpr hp)) hidle
    refine hx ?_
    have htold' : s.tidings deeds = x.events ++ next := htold'
    rw [htold] at htold'
    cases x with
    | closed => rfl
    | connected | failed => simp [Tale.events] at htold'

/-- A session that is paused is closed right after a send, before the next episode begins. -/
theorem closed_before_reconnect :
    let deeds : List Deed := [
      .act (.move .sender), .act (.move .receiver), .act (.send 0 ⟨"echo","a"⟩), .act .close]
    let s := ((start .sample .refuse {} none).course deeds).session
    (∀ d ∈ deeds, d.isWhole = true) ∧ s.monitor.cancelled = false ∧
      s.events.drop 1 = [.disconnected, .reconnecting, .destroyed] ∧
      ∀ w, Word w → ¬ s.events <+: w := by
  intro deeds s
  have hev : s.events = s.events.take 2 ++ [.reconnecting, .destroyed] := by decide +kernel
  refine ⟨by decide,by decide +kernel,by decide +kernel,fun w hw hp => ?_⟩
  rw [hev] at hp
  exact hw.not_reconnecting_destroyed _ hp

end Threads
end Majordomo.Client
