import Majordomo.Proofs.Client.Acts

/-! # The episodes of a run

An episode begins with a reconnect that is due, or with the session. It lasts until the act in
which the last of what it uses is given up; up to then it has told at most one thing, whether
connecting has succeeded or failed, and the session remembers whether the application has sent.
-/
namespace Majordomo.Client

/-- What an episode has told that nothing has told to end. -/
inductive Episode.Tells (e : Episode) : List Event → Prop
  | nothing (hs : e.sender.isConnecting = true) (hr : e.receiver = .waiting) : Tells e []
  | connected (address : String) (hs : e.sender.isConnecting = false)
      (hf : e.connectFailed = false) : Tells e [.connected address]
  | failed (reason : String) (hs : e.sender.isConnecting = false)
      (hf : e.connectFailed = true) : Tells e [.connectFailed reason]

section Turn
variable {s t : State} {e e' : Episode} {told : List Event}

theorem Episode.Valid.isStopped (h : e.Valid) (hs : e.sender.isConnecting = true)
    (hr : e.receiver = .waiting) (hk : s.isCancelled = false) : s.isStopped e = false := by
  have hst : e.stopped = false := by
    refine Bool.eq_false_iff.mpr fun hst => ?_
    rcases h.stopped.mp hst with hx | hx
    · rw [hx] at hs
      cases hs
    · cases hr.symm.trans hx
  rw [State.isStopped, hst, hk]
  rfl

/-- Once connecting has succeeded or failed, an episode has no more to tell. -/
theorem Turn.silent (h : Turn s e t e') (hs : e.sender.isConnecting = false) :
    t.events = s.events ∧ e'.sender.isConnecting = false ∧
      e'.connectFailed = e.connectFailed := by
  simp only [State.events_eq]
  cases h with
  | count =>
    refine ⟨?_,hs,rfl⟩
    split <;> simp [State.events_deliveries, Entry.event?, List.filterMap_cons]
  | halt | write | trip | lose | excuse | overlook | accept | desist | finish | skip =>
    simp_all [Entry.event?, Episode.quit, Episode.hangUp, Sender.isConnecting]
  | _ => simp_all [Sender.isConnecting]

theorem Stint.silent {hand hand' : Option Outbound} (h : Stint hand s e hand' t e')
    (hs : e.sender.isConnecting = false) :
    t.events = s.events ∧ e'.sender.isConnecting = false ∧
      e'.connectFailed = e.connectFailed := by
  cases h with
  | turn ht => exact ht.silent hs
  | misfire hx =>
    rw [hx] at hs
    cases hs
  | take => exact ⟨by simp [State.events_eq, Entry.event?],hs,rfl⟩
  | put _ hput =>
    have hev {t : State} {x : Entry} (hj : t.journal = s.journal ++ [x]) (hx : x.event? = none) :
        t.events = s.events := by
      simp [State.events_eq, hj, hx]
    cases hput with
    | write => exact ⟨hev rfl rfl,hs,rfl⟩
    | trip | lose => exact ⟨hev rfl rfl,rfl,rfl⟩

theorem Episode.Tells.silent (h : e.Tells told) (hs : e.sender.isConnecting = false)
    (hs' : e'.sender.isConnecting = false) (hf : e'.connectFailed = e.connectFailed) :
    e'.Tells told := by
  cases h with
  | nothing hx => cases hs.symm.trans hx
  | connected address _ hx => exact .connected address hs' (hf.trans hx)
  | failed reason _ hx => exact .failed reason hs' (hf.trans hx)

theorem State.events_giveUp (f : Fault) (s : State) :
    (s.giveUp f).events = s.events ++ [.connectFailed f.message] := by
  simp [State.events_eq, State.giveUp, Entry.event?]

/-- Connecting goes on, or it succeeds or fails, and then just that is told. -/
theorem Turn.tells_connecting (h : Turn s e t e') (hs : e.sender.isConnecting = true)
    (hr : e.receiver = .waiting) (hx : s.isStopped e = false) (hf : e.connectFailed = false) :
    ∃ new, t.events = s.events ++ new ∧ e'.Tells new := by
  cases h with
  | reject | timeOut => exact ⟨_,State.events_giveUp .. ,.failed _ rfl rfl⟩
  | refuse | refuseOwn =>
    refine ⟨_,(State.events_giveUp ..).trans (congrArg (· ++ _) ?_),.failed _ rfl rfl⟩
    simp [State.events_eq, Entry.event?]
  | establish =>
    refine ⟨_,?_,.connected s.settings.server rfl hf⟩
    simp [State.events_eq, State.events_deliveries, Entry.event?]
  | @establishOwn _ _ _ _ _ _ address =>
    refine ⟨_,?_,.connected address rfl hf⟩
    simp [State.events_eq, State.events_deliveries, Entry.event?, List.filterMap_cons]
  | hang | greet | hangOwn | expire =>
    exact ⟨[],by simp [State.events_eq, Entry.event?],.nothing rfl hr⟩
  | _ => simp_all [Sender.isConnecting]

theorem Turn.tells (h : Turn s e t e') (hv : e.Valid) (hk : s.isCancelled = false)
    (ht : e.Tells told) : ∃ new, t.events = s.events ++ new ∧ e'.Tells (told ++ new) := by
  cases hs : e.sender.isConnecting with
  | true =>
    cases ht with
    | nothing _ hr =>
      have hf : e.connectFailed = false := Bool.eq_false_iff.mpr fun hf => by
        rw [(hv.failed hf).1] at hs
        cases hs
      exact h.tells_connecting hs hr (hv.isStopped hs hr hk) hf
    | connected _ hx | failed _ hx => cases hs.symm.trans hx
  | false =>
    obtain ⟨hev,hs',hf⟩ := h.silent hs
    exact ⟨[],by rw [hev, List.append_nil],by simpa using ht.silent hs hs' hf⟩

end Turn

namespace State
variable {s s' t : State} {e e' : Episode} {a : Act} {told : List Event}

/-! ## How episodes begin -/

def begins (s : State) (a : Act) : Bool := s.episode.isNone && (s.apply a).episode.isSome

def beginnings (s : State) : List Act → Nat
  | [] => 0
  | a :: acts => (s.begins a).toNat + (s.apply a).beginnings acts

structure Fresh (s : State) : Prop where
  episode : s.episode = some {}
  notDue : s.reconnectDue = false
  requested : s.sendRequested = false
  notCancelled : s.isCancelled = false

theorem run_append (s : State) (acts later : List Act) :
    s.run (acts ++ later) = (s.run acts).run later :=
  List.foldl_append ..

theorem begins_of_episode (h : s.episode = some e) (a : Act) : s.begins a = false := by
  simp [begins, h]

theorem begins_of_episode_eq (h : (s.apply a).episode = s.episode) : s.begins a = false := by
  rw [begins, h]
  cases s.episode <;> rfl

theorem fresh_execute (hc : s.canExecute = true) (hd : s.reconnectDue = false) :
    s.execute.Fresh := by
  have hk : s.isCancelled = false := by
    simp only [canExecute, Bool.and_eq_true, Bool.not_eq_true'] at hc
    exact hc.1.1.2
  rw [execute_of_canExecute hc]
  exact ⟨rfl,hd,rfl,hk⟩

theorem journal_start (c : Settings) (m : Mode) (monitor : Monitor) (listener : Option Nat) :
    (start c m monitor listener).journal = [] := by
  unfold start build execute
  split <;> rfl

/-- A session begins with an episode, unless it is to end. -/
theorem fresh_start {c : Settings} {m : Mode} {monitor : Monitor} {listener : Option Nat}
    (h : (start c m monitor listener).episode.isSome = true) :
    (start c m monitor listener).Fresh := by
  cases hc : canExecute { settings := c, network := { mode := m }, monitor, listener : State } with
  | true => exact fresh_execute hc rfl
  | false =>
    have hv : start c m monitor listener = _ := execute_of_not_canExecute hc
    rw [hv] at h
    cases h

/-- An episode begins only with a reconnect that is due, and then nothing else happens. -/
theorem begins_iff (hs : s.Sound) :
    s.begins a = true ↔ a = .move .reconnect ∧ s.reconnectDue = true ∧ s.isCancelled = false := by
  constructor
  · intro hb
    rcases (effect_apply hs.sane a).cases with ⟨_,_,_,_,he,_⟩ | ⟨rfl,hd,hv⟩ | hbeside
    · cases (begins_of_episode he a).symm.trans hb
    · refine ⟨rfl,hd,Bool.eq_false_iff.mpr fun hk => ?_⟩
      have hc := hs.canExecute_of_due hd
      rw [hk] at hc
      have he : (s.apply (.move .reconnect)).episode = s.episode := by
        rw [hv, execute_of_not_canExecute hc]
      cases (begins_of_episode_eq he).symm.trans hb
    · cases (begins_of_episode_eq hbeside.episode).symm.trans hb
  · rintro ⟨rfl,hd,hk⟩
    have hc := hs.canExecute_of_due hd
    rw [hk] at hc
    have hv : s.apply (.move .reconnect) = execute
        { s with reconnectDue := false, releasePhase := s.releasePhase.next .finished } := by
      simp [apply, move, reconnectMove, hd]
    rw [begins, hs.idle_of_due hd, hv, execute_of_canExecute hc]
    rfl

theorem fresh_of_begins (hs : s.Sound) (hb : s.begins a = true) :
    (s.apply a).Fresh ∧ (s.apply a).journal = s.journal ∧ (s.apply a).network = s.network := by
  obtain ⟨rfl,hd,hk⟩ := (begins_iff hs).mp hb
  have hc := hs.canExecute_of_due hd
  rw [hk] at hc
  have hv : s.apply (.move .reconnect) = execute
      { s with reconnectDue := false, releasePhase := s.releasePhase.next .finished } := by
    simp [apply, move, reconnectMove, hd]
  rw [hv]
  refine ⟨fresh_execute hc rfl,?_⟩
  rw [execute_of_canExecute hc]
  exact ⟨rfl,rfl⟩

def tidings (s : State) (acts : List Act) : List Event := (s.run acts).events.drop s.events.length

theorem tidings_of_events {acts : List Act} {l : List Event}
    (h : (s.run acts).events = s.events ++ l) : s.tidings acts = l := by
  rw [tidings, h, List.drop_left]

/-! ## While an episode lasts -/

/-- The episode that is live goes on through all of the acts. -/
def Lasts (s : State) (acts : List Act) : Prop :=
  ∀ l, l <+: acts → (s.run l).episode.isSome = true

/-- An episode has begun with the last of the acts, or with the session. -/
def Opens (s : State) (acts : List Act) : Prop :=
  acts = [] ∧ s.episode.isSome = true ∨ ∃ l a, acts = l ++ [a] ∧ (s.run l).begins a = true

/-- At the beginning of an episode nothing has come of it. -/
theorem fresh_of_opens {c : Settings} {m : Mode} {monitor : Monitor} {listener : Option Nat}
    {acts : List Act} (h : (start c m monitor listener).Opens acts) :
    ((start c m monitor listener).run acts).Fresh := by
  rcases h with ⟨rfl,hl⟩ | ⟨l,a,rfl,hb⟩
  · exact fresh_start hl
  · rw [run_append]
    exact (fresh_of_begins (sound_run (sound_start ..) l) hb).1

theorem lasts_nil : s.Lasts [] ↔ s.episode.isSome = true := by
  simp [Lasts, run]

theorem lasts_cons {acts : List Act} :
    s.Lasts (a :: acts) ↔ s.episode.isSome = true ∧ (s.apply a).Lasts acts := by
  constructor
  · intro h
    refine ⟨h [] (List.nil_prefix),fun l hl => h (a :: l) ?_⟩
    exact List.cons_prefix_cons.mpr ⟨rfl,hl⟩
  · rintro ⟨hi,h⟩ l hl
    cases l with
    | nil => exact hi
    | cons b l =>
      obtain ⟨rfl,hp⟩ := List.cons_prefix_cons.mp hl
      exact h l hp

theorem Lasts.isSome {acts : List Act} (h : s.Lasts acts) : s.episode.isSome = true :=
  h [] List.nil_prefix

theorem isCancelled_of_run (hs : s.Sound) {acts : List Act}
    (hk : (s.run acts).isCancelled = false) : s.isCancelled = false :=
  Bool.eq_false_iff.mpr fun hc => by cases hk.symm.trans (isCancelled_run hs.sane hc acts)

theorem isCancelled_of_apply (hs : s.Sound) (hk : (s.apply a).isCancelled = false) :
    s.isCancelled = false := by
  have hrun : (s.run [a]).isCancelled = false := hk
  exact isCancelled_of_run hs hrun

/-! ## What the session remembers of an episode -/

/-- A session that is closed stays closed. -/
theorem Effect.closing (h : Effect s a t) (hc : s.closing = true) : t.closing = true := by
  cases h with
  | @turn _ _ e' u _ _ hturn =>
    have hu : u.closing = true := (congrArg State.closing hturn.frame :).trans hc
    cases ho : e'.isOver with
    | false =>
      rw [settleEpisode_of_not_over ho]
      exact hu
    | true =>
      rw [settleEpisode_of_over ho]
      exact closing_onReleased (by rw [hu]; rfl) e'.connectFailed
  | revive => rwa [execute_of_not_canExecute (by simp [canExecute, hc])]
  | request _ hn => cases hn.symm.trans hc
  | close => exact closing_close s
  | pass _ _ hu => exact (congrArg State.closing hu.core :).trans hc

theorem closing_run (hs : s.Sane) (hc : s.closing = true) (acts : List Act) :
    (s.run acts).closing = true := by
  induction acts generalizing s with
  | nil => exact hc
  | cons a acts ih => exact ih (sane_apply hs a) ((effect_apply hs a).closing hc)

theorem closing_of_run (hs : s.Sane) {acts : List Act} (hc : (s.run acts).closing = false) :
    s.closing = false :=
  Bool.eq_false_iff.mpr fun hx => by cases hc.symm.trans (closing_run hs hx acts)

theorem Effect.requested (h : Effect s a t) (hs : s.Sound) (he : s.episode = some e)
    (hl : t.episode.isSome = true) (hc : s.closing = false) :
    t.sendRequested = (s.sendRequested || a.isSend) := by
  cases h with
  | @turn _ _ e' u ha _ hturn =>
    have hn : a.isSend = false := by
      cases a with
      | move | overlook => rfl
      | _ => cases ha
    have hu : u.sendRequested = s.sendRequested := (congrArg State.sendRequested hturn.frame :)
    cases ho : e'.isOver with
    | false =>
      rw [settleEpisode_of_not_over ho, hn, Bool.or_false]
      exact hu
    | true =>
      rw [settleEpisode_of_over ho, episode_onReleased] at hl
      cases hl
  | revive hd => cases he.symm.trans (hs.idle_of_due hd)
  | request ha _ hu =>
    have hr : t.sendRequested = s.requestSend.sendRequested :=
      (congrArg State.sendRequested hu.core :)
    rw [hr, requestSend_of_live he, ha, Bool.or_true]
  | close =>
    rw [close_of_live hc he]
    exact (Bool.or_false _).symm
  | pass _ hsend hu =>
    have hn : a.isSend = false := Bool.eq_false_iff.mpr fun ha => by
      cases hc.symm.trans (hsend ha)
    rw [hn, Bool.or_false]
    exact (congrArg State.sendRequested hu.core :)

/-- While an episode lasts the session remembers whether the application has sent. -/
theorem Lasts.requested {acts : List Act} (hl : s.Lasts acts) (hs : s.Sound)
    (hc : (s.run acts).closing = false) :
    (s.run acts).sendRequested = (s.sendRequested || acts.any Act.isSend) := by
  induction acts generalizing s with
  | nil => exact (Bool.or_false _).symm
  | cons a acts ih =>
    obtain ⟨hi,hl'⟩ := lasts_cons.mp hl
    obtain ⟨e,he⟩ := Option.isSome_iff_exists.mp hi
    have hc' : s.closing = false := closing_of_run hs.sane hc
    have hone := (effect_apply hs.sane a).requested hs he hl'.isSome hc'
    rw [run_cons, ih hl' (hs.apply a) hc, hone, List.any_cons, Bool.or_assoc]

/-! ## How an episode ends -/

/-- After an episode of a session that is not to end, the session pauses or connects again. -/
theorem Live.onReleased_cases (hl : s.Live e) (hc : (s.closing || s.isCancelled) = false) :
    (e.connectFailed = true ∧ s.sendRequested = false ∧
      s.onReleased e.connectFailed = s.released) ∨
    ((e.connectFailed = false ∨ s.sendRequested = true) ∧ ∃ requested,
      s.onReleased e.connectFailed =
        { s.released with
          sendRequested := requested
          releasePhase := .started
          reconnectDue := true
          journal := s.released.journal ++ [.event .reconnecting] }) := by
  have hagain (hr : e.connectFailed = false ∨ s.sendRequested = true) :
      ∃ requested, s.onReleased e.connectFailed =
        { s.released with
          sendRequested := requested
          releasePhase := .started
          reconnectDue := true
          journal := s.released.journal ++ [.event .reconnecting] } := by
    obtain ⟨requested,h⟩ := onReleased_of_again hc hr
    have hclosing : s.closing = false := (Bool.or_eq_false_iff.mp hc).1
    have hp : releasePhase { s.released with sendRequested := requested } = .new :=
      hl.release hclosing
    exact ⟨requested,by rw [h, reconnect_of_new hp]⟩
  cases hf : e.connectFailed with
  | false => exact .inr ⟨.inl rfl,hf ▸ hagain (.inl hf)⟩
  | true =>
    cases hr : s.sendRequested with
    | false => exact .inl ⟨rfl,rfl,onReleased_of_paused hc hr⟩
    | true => exact .inr ⟨.inr rfl,hf ▸ hagain (.inr hr)⟩

/-- When an episode is over, in a session that is not to end, it has told that connecting succeeded
or failed, and by that it is decided whether the next one is due. -/
theorem Live.ends (hl : s.Live e) (ht : e.Tells told) (ho : e.isOver = true)
    (hc : (s.onReleased e.connectFailed).closing = false) :
    let t := s.onReleased e.connectFailed
    ∃ last, told = [last] ∧
      t.events = s.events ++ [.disconnected] ++ (if t.reconnectDue then [.reconnecting] else []) ∧
      ((∃ address, last = .connected address) ∧ t.reconnectDue = true ∨
        (∃ reason, last = .connectFailed reason) ∧ t.reconnectDue = s.sendRequested) := by
  intro t
  have hgo : (s.closing || s.isCancelled) = false := Bool.eq_false_iff.mpr fun hx => by
    cases hc.symm.trans (closing_onReleased hx e.connectFailed)
  have hended : e.sender.isConnecting = false := by
    rw [(hl.valid.isOver_iff.mp ho).1]
    rfl
  have hnotDue : s.released.reconnectDue = false := hl.notDue
  rcases hl.onReleased_cases hgo with ⟨hf,hr,hv⟩ | ⟨hr,requested,hv⟩
  · have ht' : t = s.released := hv
    rw [ht', events_released, hnotDue, hr]
    cases ht with
    | nothing hx => cases hended.symm.trans hx
    | connected _ _ hx => cases hf.symm.trans hx
    | failed reason => exact ⟨_,rfl,(List.append_nil _).symm,.inr ⟨⟨reason,rfl⟩,rfl⟩⟩
  · have hevents : t.events = s.events ++ [.disconnected] ++ [.reconnecting] := by
      rw [← events_released, show t = _ from hv]
      simp [events_eq, Entry.event?]
    have hdue : t.reconnectDue = true := (congrArg reconnectDue hv :)
    rw [hevents, hdue]
    cases ht with
    | nothing hx => cases hended.symm.trans hx
    | connected address => exact ⟨_,rfl,rfl,.inl ⟨⟨address,rfl⟩,rfl⟩⟩
    | failed reason _ hf =>
      have hx : s.sendRequested = true := hr.resolve_left fun hx => by cases hf.symm.trans hx
      exact ⟨_,rfl,rfl,.inr ⟨⟨reason,rfl⟩,hx.symm⟩⟩

/-- The session `t` comes after `s`, in which the episode `e` is live: `e` goes on, or it has ended
and it is decided whether the next one is due. -/
structure Proceeds (s : State) (e : Episode) (t : State) : Prop where
  tells : ∀ told, e.Tells told → t.episode.isSome = true →
    ∃ e' new, t.episode = some e' ∧ t.events = s.events ++ new ∧ e'.Tells (told ++ new)
  ends : ∀ told, e.Tells told → t.episode = none → t.closing = false →
    ∃ new last, told ++ new = [last] ∧
      t.events = s.events ++ new ++ [.disconnected] ++
        (if t.reconnectDue then [.reconnecting] else []) ∧
      ((∃ address, last = .connected address) ∧ t.reconnectDue = true ∨
        (∃ reason, last = .connectFailed reason) ∧ t.reconnectDue = s.sendRequested)

theorem proceeds_of_events (he : t.episode = some e) (hev : t.events = s.events) :
    Proceeds s e t where
  tells told ht _ := ⟨e,[],he,by rw [hev, List.append_nil],by rwa [List.append_nil]⟩
  ends told ht hi := by cases he.symm.trans hi

theorem proceeds_settleEpisode (hl : t.Live e') (hr : t.sendRequested = s.sendRequested)
    (h : ∀ told, e.Tells told → ∃ new, t.events = s.events ++ new ∧ e'.Tells (told ++ new)) :
    Proceeds s e (t.settleEpisode e') := by
  cases ho : e'.isOver with
  | false =>
    rw [settleEpisode_of_not_over ho]
    refine ⟨fun told ht _ => ?_,fun told ht hi => by cases hi⟩
    obtain ⟨new,hev,hnew⟩ := h told ht
    exact ⟨e',new,rfl,hev,hnew⟩
  | true =>
    rw [settleEpisode_of_over ho]
    refine ⟨fun told ht hi => ?_,fun told ht _ hc => ?_⟩
    · rw [episode_onReleased] at hi
      cases hi
    · obtain ⟨new,hev,hnew⟩ := h told ht
      obtain ⟨last,hall,hevents,hlast⟩ := hl.ends hnew ho hc
      rw [hr] at hlast
      exact ⟨new,last,hall,hev ▸ hevents,hlast⟩

theorem Effect.proceeds (h : Effect s a t) (hs : s.Sound) (he : s.episode = some e)
    (hk : s.isCancelled = false) : Proceeds s e t := by
  rcases h.cases with ⟨e₀,e',u,_,he₀,hturn,rfl⟩ | ⟨_,hd,_⟩ | hb
  · obtain rfl : e = e₀ := Option.some.inj (he.symm.trans he₀)
    have hl : s.Live e := (hs.live e he).1
    exact proceeds_settleEpisode (hturn.live hl) (congrArg State.sendRequested hturn.frame :)
      fun told ht => hturn.tells hl.valid hk ht
  · cases he.symm.trans (hs.idle_of_due hd)
  · exact proceeds_of_events (hb.episode.trans he) (hb.events (by rw [he]; rfl))

/-- A sender that has messages to write tells nothing, unless the episode is over. -/
theorem proceeds_stint {hand hand' : Option Outbound} (hl : s.Live e)
    (hs : e.sender.isConnecting = false) (hst : Stint hand s e hand' t e') :
    Proceeds s e (t.settleEpisode e') := by
  obtain ⟨hev,hs',hf⟩ := hst.silent hs
  have hr : t.sendRequested = s.sendRequested := by
    cases hst with
    | turn ht => exact (congrArg State.sendRequested ht.frame :)
    | misfire | take => rfl
    | put _ hput => cases hput <;> rfl
  refine proceeds_settleEpisode (hst.live hl) hr fun told ht => ⟨[],?_,?_⟩
  · rw [hev, List.append_nil]
  · simpa using ht.silent hs hs' hf

/-- What an episode tells while it lasts. -/
theorem Lasts.tells {acts : List Act} (hl : s.Lasts acts) (hs : s.Sound)
    (he : s.episode = some e) (ht : e.Tells told) (hk : (s.run acts).isCancelled = false) :
    ∃ e' new, (s.run acts).episode = some e' ∧ (s.run acts).events = s.events ++ new ∧
      e'.Tells (told ++ new) := by
  induction acts generalizing s e told with
  | nil => exact ⟨e,[],he,(List.append_nil _).symm,by rwa [List.append_nil]⟩
  | cons a acts ih =>
    obtain ⟨_,hl'⟩ := lasts_cons.mp hl
    have hk' : s.isCancelled = false := isCancelled_of_run hs hk
    obtain ⟨e₁,new,he₁,hev₁,ht₁⟩ :=
      ((effect_apply hs.sane a).proceeds hs he hk').tells told ht hl'.isSome
    obtain ⟨e₂,new',he₂,hev₂,ht₂⟩ := ih hl' (hs.apply a) he₁ ht₁ hk
    refine ⟨e₂,new ++ new',he₂,?_,by rwa [← List.append_assoc]⟩
    rw [run_cons, hev₂, hev₁, List.append_assoc]

/-- A whole episode of a session that is not to end, from its beginning to the act with which it
ends. -/
theorem Fresh.ends (h : s.Fresh) (hs : s.Sound) {during : List Act} (hl : s.Lasts during)
    (hi : (s.run (during ++ [a])).episode = none)
    (hk : (s.run (during ++ [a])).isCancelled = false) :
    let u := s.run (during ++ [a])
    ∃ last, s.tidings (during ++ [a]) = [last, .disconnected] ++
        (if u.reconnectDue then [.reconnecting] else []) ∧
      ((∃ address, last = .connected address) ∧ u.reconnectDue = true ∨
        (∃ reason, last = .connectFailed reason) ∧ u.reconnectDue = during.any Act.isSend) := by
  intro u
  have hu : u = (s.run during).apply a := run_append s during [a]
  have hd : (s.run during).Sound := sound_run hs during
  have hkd : (s.run during).isCancelled = false :=
    isCancelled_of_apply hd ((congrArg State.isCancelled hu).symm.trans hk)
  have hcu : u.closing = false := (sound_run hs (during ++ [a])).not_closing hk
  obtain ⟨e,told,he,hev,ht⟩ := hl.tells hs h.episode (.nothing rfl rfl) hkd
  have heffect : Effect (s.run during) a u := hu ▸ effect_apply hd.sane a
  obtain ⟨new,last,hall,hev',hlast⟩ := (heffect.proceeds hd he hkd).ends told ht hi hcu
  refine ⟨last,tidings_of_events ?_,hlast.imp_right fun ⟨hf,hdue⟩ => ⟨hf,?_⟩⟩
  · have hall : told ++ new = [last] := hall
    rw [hev', hev, List.append_assoc s.events, hall]
    simp only [List.append_assoc, List.cons_append, List.nil_append]
  · rw [hdue, hl.requested hs (hd.not_closing hkd), h.requested, Bool.false_or]

end State
end Majordomo.Client
