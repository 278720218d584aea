import Majordomo.Proofs.Worker.Departures
import Majordomo.Proofs.Worker.Signs

/-! # How long a silent broker is waited for

A worker counts the waits that are over without a word of the broker, and with every word it begins
to count anew. A notice that it passes on does not make it count anew, but its wait begins once
more. So it never leaves too early; and it leaves in time after the last word or notice, but as long
as notices come it waits for ever.
-/
namespace Majordomo.Worker

def Settings.patience (c : Settings) : Nat := max 1 c.liveness * c.period

/-- The broker says something on the connection. READY counts as a word, since the silence begins
with it. -/
def Entry.isWord (id : Nat) : Entry → Bool
  | .heard k _ => k == id
  | .wrote k o => k == id && o == .ready
  | _ => false

/-- The wait on the connection begins once more with a word or a notice. -/
def Entry.isTouch (id : Nat) : Entry → Bool
  | .wrote k (.shutdown _) => k == id
  | e => e.isWord id

theorem Settings.patience_eq (c : Settings) :
    c.patience = c.period + (c.liveness - 1) * c.period := by
  rw [patience, Nat.add_comm, ← Nat.succ_mul]
  congr 1
  omega

theorem Settings.patience_pos (c : Settings) : 0 < c.patience :=
  Nat.mul_pos (Nat.lt_of_lt_of_le Nat.zero_lt_one (Nat.le_max_left ..)) c.period_pos

theorem Entry.isTouch_of_isWord {id : Nat} {e : Entry} (h : e.isWord id = true) :
    e.isTouch id = true := by
  cases e with
  | wrote k o =>
    cases o with
    | shutdown => simp [isWord] at h
    | _ => exact h
  | _ => exact h

theorem any_isWord_eq_false {id : Nat} {es : List Entry} (h : es.any (Entry.isTouch id) = false) :
    es.any (Entry.isWord id) = false := by
  rw [List.any_eq_false] at h ⊢
  exact fun e he hw => h e he (Entry.isTouch_of_isWord hw)

/-! ## The watch -/

/-- At a time a worker whose broker had its last word at `word`, and that begun its wait anew at
`touch` for the last time, will wait neither too short nor too long. -/
structure Patient (c : Settings) (now word touch : Nat) (v : Vigil) : Prop where
  order : word ≤ touch
  recent : touch ≤ now
  liveness : v.liveness ≤ c.liveness
  clock : now ≤ v.waitUntil
  waitUntil : v.waitUntil ≤ now + c.period
  lower : word + c.patience ≤ v.waitUntil + (v.liveness - 1) * c.period
  upper : v.waitUntil + (v.liveness - 1) * c.period ≤ touch + c.patience

section
variable {c : Settings} {now now' word touch : Nat} {v v' : Vigil}

theorem patient_of_word (hl : v.liveness = c.liveness) (hw : v.waitUntil = now + c.period) :
    Patient c now now now v := by
  have hp := c.patience_eq
  constructor <;> (try rw [hl]) <;> omega

theorem Patient.notice (h : Patient c now word touch v) (hl : v'.liveness = v.liveness)
    (hw : v'.waitUntil = now + c.period) : Patient c now word now v' := by
  obtain ⟨horder,hrecent,hlive,hclock,huntil,hlower,hupper⟩ := h
  have hp := c.patience_eq
  have hmul : (v.liveness - 1) * c.period ≤ (c.liveness - 1) * c.period :=
    Nat.mul_le_mul_right _ (Nat.sub_le_sub_right hlive 1)
  constructor <;> (try rw [hl]) <;> omega

theorem Patient.pass (h : Patient c now word touch v) (hw : v.waitUntil ≤ now)
    (hl : 1 < v.liveness) (hl' : v'.liveness = v.liveness - 1)
    (hw' : v'.waitUntil = now + c.period) : Patient c now word touch v' := by
  obtain ⟨horder,hrecent,hlive,hclock,huntil,hlower,hupper⟩ := h
  have hmul : (v.liveness - 1) * c.period = (v.liveness - 1 - 1) * c.period + c.period := by
    rw [← Nat.succ_mul]
    congr 1
    omega
  constructor <;> (try rw [hl']) <;> omega

theorem Patient.later (h : Patient c now word touch v) (hle : now ≤ now')
    (hw : now' ≤ v.waitUntil) : Patient c now' word touch v := by
  obtain ⟨horder,hrecent,hlive,hclock,huntil,hlower,hupper⟩ := h
  constructor <;> omega

end

/-! ## One turn -/

inductive Heed (s : State) : List Entry → Stage → Prop
  /-- Afterwards the worker serves no connection. -/
  | away {es : List Entry} {t : Stage} (ht : t.watch? = none) : Heed s es t
  | word {id : Nat} {v' : Vigil} {es : List Entry} (he : es.any (Entry.isWord id) = true)
      (hl : v'.liveness = s.settings.liveness) (hw : v'.waitUntil = s.clock + s.settings.period) :
    Heed s es (.serving id v')
  | call {id done : Nat} {v' : Vigil} {e : Envelope} {result : Except Fault Message}
      {es : List Entry} (he : es.any (Entry.isWord id) = true)
      (hl : v'.liveness = s.settings.liveness) : Heed s es (.handling id v' e result done)
  | notice {id : Nat} {v v' : Vigil} {es : List Entry} (hs : s.stage = .serving id v)
      (he : es.any (Entry.isTouch id) = true) (hn : es.any (Entry.isWord id) = false)
      (hl : v'.liveness = v.liveness) (hw : v'.waitUntil = s.clock + s.settings.period) :
    Heed s es (.serving id v')
  | pass {id : Nat} {v v' : Vigil} {es : List Entry} (hs : s.stage = .serving id v)
      (he : es.any (Entry.isTouch id) = false) (hu : v.waitUntil ≤ s.clock)
      (hl : 1 < v.liveness) (hl' : v'.liveness = v.liveness - 1)
      (hw : v'.waitUntil = s.clock + s.settings.period) : Heed s es (.serving id v')
  | answer {id done : Nat} {v v' : Vigil} {e : Envelope} {result : Except Fault Message}
      {es : List Entry} (hs : s.stage = .handling id v e result done)
      (he : es.any (Entry.isTouch id) = false) (hl : v'.liveness = v.liveness)
      (hw : v'.waitUntil = s.clock + s.settings.period) : Heed s es (.serving id v')

section
variable {s : State} {es : List Entry} {t : Stage}

/-- A round ends with a new wait, or the connection breaks. -/
theorem RoundEnd.waits {c : Settings} {now id : Nat} {v : Vigil} (h : RoundEnd c now id v es t) :
    t.watch? = none ∨ es.any (Entry.isTouch id) = false ∧ ∃ v', t = .serving id v' ∧
      v'.liveness = v.liveness ∧ v'.waitUntil = now + c.period := by
  cases h with
  | rest => exact .inr ⟨rfl,_,rfl,rfl,rfl⟩
  | beat => exact .inr ⟨by simp [Entry.isTouch, Entry.isWord],_,rfl,rfl,rfl⟩
  | sever => exact .inl rfl

theorem Turn.heed (h : Turn s es t) : Heed s es t := by
  cases h with
  | halt | refuse | hang | wake | stop | vanish | dismiss | silence | sever => exact .away rfl
  | connect => exact .word (by simp [Entry.isWord]) rfl rfl
  | notify hs _ _ hr =>
    rcases hr.waits with ht | ⟨he,v',rfl,hl,hw⟩
    · exact .away ht
    · refine .notice hs ?_ ?_ hl hw
      · simp [Entry.isTouch]
      · simpa [Entry.isWord] using any_isWord_eq_false he
  | hear _ _ _ _ hr =>
    rcases hr.waits with ht | ⟨_,v',rfl,hl,hw⟩
    · exact .away ht
    · exact .word (by simp [Entry.isWord]) hl hw
  | call => exact .call (by simp [Entry.isWord]) rfl
  | pass hs _ hu hlive hr =>
    rcases hr.waits with ht | ⟨he,v',rfl,hl,hw⟩
    · exact .away ht
    · exact .pass hs he hu hlive hl hw
  | reply hs _ hr | fail hs _ hr =>
    rcases hr.waits with ht | ⟨he,v',rfl,hl,hw⟩
    · exact .away ht
    · exact .answer hs (by simpa [Entry.isTouch, Entry.isWord] using he) hl hw

end

namespace State
variable {s s' : State} {es : List Entry} {a : Act}

def last? (p : Entry → Bool) (s : State) : Option Nat :=
  ((s.journal.filter (p ·.2)).getLast?).map Prod.fst

theorem Adds.last? (h : Adds es s s') (p : Entry → Bool) :
    s'.last? p = if es.any p then some s.clock else s.last? p := by
  have hfilter : (es.map (s.clock,·)).filter (p ·.2) = (es.filter p).map (s.clock,·) := by
    rw [List.filter_map]
    rfl
  rw [State.last?, h.journal, List.filter_append, hfilter, List.getLast?_append, List.getLast?_map]
  cases ha : es.any p with
  | false =>
    have hnone : es.filter p = [] := List.filter_eq_nil_iff.mpr (List.any_eq_false.mp ha)
    simp [hnone, State.last?]
  | true =>
    obtain ⟨e,he,hp⟩ := List.any_eq_true.mp ha
    have hsome : es.filter p ≠ [] := List.ne_nil_of_mem (List.mem_filter.mpr ⟨he,hp⟩)
    rw [List.getLast?_eq_some_getLast hsome]
    rfl

structure Waits (s : State) : Prop where
  serving : ∀ id v, s.stage = .serving id v → ∃ word touch,
    s.last? (Entry.isWord id) = some word ∧ s.last? (Entry.isTouch id) = some touch ∧
      Patient s.settings s.clock word touch v
  handling : ∀ id v e result done, s.stage = .handling id v e result done →
    v.liveness = s.settings.liveness ∧ s.last? (Entry.isWord id) = some s.clock ∧
      s.last? (Entry.isTouch id) = some s.clock

theorem waits_of_watch?_eq_none (h : s.stage.watch? = none) : Waits s := by
  constructor
  · intro id v hs
    rw [hs] at h
    cases h
  · intro id v e result done hs
    rw [hs] at h
    cases h

/-- A worker that waits on the connection `id` waits as long as it should. -/
theorem waits_of_serving {id : Nat} {v : Vigil} (word touch : Nat) (hs : s.stage = .serving id v)
    (hw : s.last? (Entry.isWord id) = some word) (ht : s.last? (Entry.isTouch id) = some touch)
    (hp : Patient s.settings s.clock word touch v) : Waits s := by
  constructor
  · intro k v' hs'
    cases hs.symm.trans hs'
    exact ⟨word,touch,hw,ht,hp⟩
  · intro k v' e result done hs'
    cases hs.symm.trans hs'

theorem any_isTouch {id : Nat} (h : es.any (Entry.isWord id) = true) :
    es.any (Entry.isTouch id) = true := by
  obtain ⟨e,he,hw⟩ := List.any_eq_true.mp h
  exact List.any_eq_true.mpr ⟨e,he,Entry.isTouch_of_isWord hw⟩

theorem Waits.turn (h : Waits s) (ha : Adds es s s') (ht : Turn s es s'.stage) : Waits s' := by
  generalize hstage : s'.stage = stage at ht
  cases ht.heed with
  | away hn => exact waits_of_watch?_eq_none (hstage ▸ hn)
  | word he hl hw =>
    refine waits_of_serving _ _ hstage (by rw [ha.last?, if_pos he])
      (by rw [ha.last?, if_pos (any_isTouch he)]) ?_
    rw [ha.settings, ha.clock]
    exact patient_of_word hl hw
  | call he hl =>
    constructor
    · intro k v hs
      cases hstage.symm.trans hs
    · intro k v e result done hs
      cases hstage.symm.trans hs
      rw [ha.last?, ha.last?, if_pos he, if_pos (any_isTouch he), ha.settings, ha.clock]
      exact ⟨hl,rfl,rfl⟩
  | notice hs he hn hl hw =>
    obtain ⟨word,touch,hword,_,hp⟩ := h.serving _ _ hs
    refine waits_of_serving word _ hstage ?_ (by rw [ha.last?, if_pos he]) ?_
    · rw [ha.last?, hn]
      exact hword
    · rw [ha.settings, ha.clock]
      exact hp.notice hl hw
  | pass hs he hu hlive hl hw =>
    obtain ⟨word,touch,hword,htouch,hp⟩ := h.serving _ _ hs
    refine waits_of_serving word touch hstage ?_ ?_ ?_
    · rw [ha.last?, any_isWord_eq_false he]
      exact hword
    · rw [ha.last?, he]
      exact htouch
    · rw [ha.settings, ha.clock]
      exact hp.pass hu hlive hl hw
  | answer hs he hl hw =>
    obtain ⟨hlive,hword,htouch⟩ := h.handling _ _ _ _ _ hs
    refine waits_of_serving s.clock s.clock hstage ?_ ?_ ?_
    · rw [ha.last?, any_isWord_eq_false he]
      exact hword
    · rw [ha.last?, he]
      exact htouch
    · rw [ha.settings, ha.clock]
      exact patient_of_word (hl.trans hlive) hw

/-- While the handler is called no time passes. -/
theorem Steady.not_allows_tick {id done ms : Nat} {v : Vigil} {e : Envelope}
    {result : Except Fault Message} (h : Steady s) (hs : s.stage = .handling id v e result done) :
    ¬ s.Allows (.tick ms) := by
  intro ha
  obtain ⟨hmove,_⟩ := ha (by rw [hs]; rfl)
  simp [move, hs, h.prompt _ _ _ _ _ hs] at hmove

theorem Effect.waits (h : Effect s a s') (ha : s.Allows a) (hs : Steady s) (hw : Waits s) :
    Waits s' := by
  cases h with
  | turn hadds ht => exact hw.turn hadds ht
  | resume => exact waits_of_watch?_eq_none rfl
  | pass hb =>
    have hlast (p : Entry → Bool) : s'.last? p = s.last? p := by
      rw [State.last?, hb.journal, State.last?]
    constructor
    · intro id v hstage
      rw [hb.stage] at hstage
      obtain ⟨word,touch,hword,htouch,hp⟩ := hw.serving id v hstage
      refine ⟨word,touch,(hlast _).trans hword,(hlast _).trans htouch,?_⟩
      rw [hb.settings]
      refine hp.later hb.clock_le ?_
      rw [hb.clock]
      cases a with
      | tick ms => exact hs.le_waitUntil ha (by rw [hstage]; rfl)
      | _ => exact hp.clock
    · intro id v e result done hstage
      rw [hb.stage] at hstage
      have hclock : s'.clock = s.clock := by
        rw [hb.clock]
        cases a with
        | tick ms => exact absurd ha (hs.not_allows_tick hstage)
        | _ => rfl
      rw [hlast, hlast, hb.settings, hclock]
      exact hw.handling id v e result done hstage

theorem waits_run {c : Settings} (hd : ∀ n client body, (c.handler n client body).delay = 0)
    (m : Mode) (monitor : Monitor) {acts : List Act}
    (ha : (start c { mode := m } monitor).Timely acts) :
    Waits ((start c { mode := m } monitor).run acts) := by
  refine (timely_invariant (P := fun s => s.settings = c ∧ Steady s ∧ Waits s) (fun s a ha hs => ?_)
    ⟨rfl,steady_start c m monitor,waits_of_watch?_eq_none rfl⟩ ha).2.2
  obtain ⟨hc,hsteady,hwaits⟩ := hs
  have he := effect_apply s a
  exact ⟨he.settings.trans hc,he.steady ha (hc ▸ hd) hsteady,he.waits ha hsteady hwaits⟩

theorem lt_waitUntil_of_move_none {id : Nat} {v : Vigil} (hs : s.stage = .serving id v)
    (hm : s.move = none) : s.clock < v.waitUntil := by
  simp only [move, hs, serve] at hm
  split at hm
  · cases hm
  · split at hm
    · cases hm
    · split at hm
      · cases hm
      · cases hm
      · cases hm
      · split at hm
        · cases hm
        · rename_i hw
          exact Nat.lt_of_not_le hw

/-- While a worker serves a connection, it has had the last word of the broker and has begun its
wait for the last time not too long ago. -/
theorem Waits.recent (h : Waits s) {id : Nat} (hl : s.stage.link? = some id) :
    ∃ word touch, s.last? (Entry.isWord id) = some word ∧ s.last? (Entry.isTouch id) = some touch ∧
      word ≤ touch ∧ s.clock ≤ touch + s.settings.patience ∧
      (s.move = none → s.clock < touch + s.settings.patience) ∧
      (Cause s id .silence → word + s.settings.patience ≤ s.clock) := by
  cases hs : s.stage with
  | serving k v =>
    rw [hs] at hl
    cases hl
    obtain ⟨word,touch,hword,htouch,hp⟩ := h.serving _ v hs
    have huntil : v.waitUntil ≤ touch + s.settings.patience :=
      Nat.le_trans (Nat.le_add_right ..) hp.upper
    refine ⟨word,touch,hword,htouch,hp.order,Nat.le_trans hp.clock huntil,fun hm => ?_,fun hc => ?_⟩
    · exact Nat.lt_of_lt_of_le (lt_waitUntil_of_move_none hs hm) huntil
    · cases hc with
      | silence hs' _ hw hlive =>
        cases hs.symm.trans hs'
        have hlower := hp.lower
        rw [Nat.sub_eq_zero_of_le hlive, Nat.zero_mul] at hlower
        exact Nat.le_trans hlower hw
  | handling k v e result done =>
    rw [hs] at hl
    cases hl
    obtain ⟨_,hword,htouch⟩ := h.handling _ _ _ _ _ hs
    refine ⟨s.clock,s.clock,hword,htouch,Nat.le_refl _,Nat.le_add_right ..,fun _ => ?_,fun hc => ?_⟩
    · exact Nat.lt_add_of_pos_right s.settings.patience_pos
    · cases hc with
      | silence hs' => cases hs.symm.trans hs'
  | _ =>
    rw [hs] at hl
    cases hl

/-- A worker that answers at once does not serve a connection beyond the time that it grants the
broker after the last word or notice; and unless it has to stop, the broker sends DISCONNECT or the
connection breaks, it does not leave before that time has passed since the last word. So without
notices it leaves exactly then. -/
theorem silence_is_bounded {c : Settings}
    (hd : ∀ n client body, (c.handler n client body).delay = 0) (m : Mode) (monitor : Monitor)
    {acts : List Act} (ha : (start c { mode := m } monitor).Timely acts) {id : Nat}
    (hl : ((start c { mode := m } monitor).run acts).stage.link? = some id) :
    let s := (start c { mode := m } monitor).run acts
    ∃ word touch, s.last? (Entry.isWord id) = some word ∧ s.last? (Entry.isTouch id) = some touch ∧
      word ≤ touch ∧ s.clock ≤ touch + c.patience ∧
      (s.move = none → s.clock < touch + c.patience) ∧
      ∀ a, (s.apply a).stage.link? = some id ∨ ∃ why, Cause s id why ∧
        (s.apply a).departures = s.departures ++ [(id,why)] ∧
        (why = .silence → word + c.patience ≤ s.clock) := by
  intro s
  have hc : s.settings = c := settings_run _ acts
  obtain ⟨st,hs⟩ := told_run c m monitor acts
  obtain ⟨word,touch,hword,htouch,hle,hclock,hrest,hsilence⟩ :=
    (waits_run hd m monitor ha).recent hl
  rw [hc] at hclock hrest hsilence
  refine ⟨word,touch,hword,htouch,hle,hclock,hrest,fun a => ?_⟩
  refine (stays_or_leaves a (fun _ => hs.lt) hl).imp_right ?_
  rintro ⟨why,hcause,hleft⟩
  refine ⟨why,hcause,hleft,?_⟩
  rintro rfl
  exact hsilence hcause

/-- Three intervals after READY a worker leaves a broker that says nothing. -/
theorem silence_is_bounded_ready :
    let acts : List Act := [.move, .tick 100, .move, .tick 100, .move, .tick 100]
    let s := (start .sample {} {}).run acts
    s.stage.link? = some 0 ∧ s.clock = 0 + Settings.sample.patience ∧
      (s.apply .move).departures = [(0,.silence)] ∧
      ∃ touch, s.last? (Entry.isTouch 0) = some touch ∧
        s.clock ≤ touch + Settings.sample.patience := by
  intro acts s
  have hd : ∀ n client body, (Settings.sample.handler n client body).delay = 0 := fun _ _ _ => rfl
  have htimely : (start .sample {} {}).Timely acts := by decide +kernel
  have hlink : ((start .sample {} {}).run acts).stage.link? = some 0 := by decide +kernel
  obtain ⟨_,touch,_,htouch,_,hclock,_⟩ := silence_is_bounded hd .accept {} htimely hlink
  exact ⟨hlink,by decide +kernel,by decide +kernel,touch,htouch,hclock⟩

/-- The broker says nothing after READY, but notices that come faster than one wait is over put off
the end for ever. -/
theorem notices_put_off_silence :
    let notice : List Act := [.tick 60, .notice ⟨.ofText "client",[]⟩, .move]
    let acts : List Act := .move :: (List.replicate 6 notice).flatten ++ [.tick 60]
    let s := (start .sample {} {}).run acts
    (∀ n client body, (Settings.sample.handler n client body).delay = 0) ∧
      (start .sample {} {}).Timely acts ∧ s.network.reads 0 = true ∧
      s.stage.link? = some 0 ∧ s.move = none ∧ s.last? (Entry.isWord 0) = some 0 ∧
      0 + Settings.sample.patience < s.clock := by
  intro notice acts s
  exact ⟨fun _ _ _ => rfl,by decide +kernel⟩

end State
end Majordomo.Worker
