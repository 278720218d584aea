import Majordomo.Proofs.Worker.Script
import Mathlib.Data.List.Chain

/-! # Signs of life

READY and the HEARTBEATs after it tell the broker that a worker lives. While a worker serves a
connection it looks at the clock at the end of every round, and no round takes longer than one
period; so a sign comes at least one period after the one before, and less than two.
-/
namespace Majordomo.Worker

def Output.isSign : Output → Bool
  | .ready | .heartbeat => true
  | .reply _ | .shutdown _ | .disconnect => false

def Entry.sign? (id : Nat) (e : Entry) : Option Output := (e.wrote? id).filter (·.isSign)

def Entry.isMute : Entry → Bool
  | .wrote _ o => !o.isSign
  | _ => true

def Stage.watch? : Stage → Option (Nat × Vigil)
  | .serving id v | .handling id v .. => some (id,v)
  | _ => none

theorem Stage.link?_eq_watch? (t : Stage) : t.link? = t.watch?.map Prod.fst := by
  cases t <;> rfl

theorem Stage.exists_watch? {t : Stage} {id : Nat} (h : t.link? = some id) :
    ∃ v, t.watch? = some (id,v) := by
  rw [link?_eq_watch?, Option.map_eq_some_iff] at h
  obtain ⟨⟨k,v⟩,hv,rfl⟩ := h
  exact ⟨v,hv⟩

theorem sign?_eq_none_of_isMute {e : Entry} (h : e.isMute = true) (id : Nat) :
    e.sign? id = none := by
  cases e with
  | wrote k o =>
    have ho : o.isSign = false := by simpa [Entry.isMute] using h
    by_cases hk : k = id <;> simp [Entry.sign?, Entry.wrote?, hk, ho]
  | _ => rfl

theorem filterMap_sign?_wrote {o : Output} (ho : o.isSign = true) (id k : Nat) :
    [Entry.wrote id o].filterMap (Entry.sign? k) = if k = id then [o] else [] := by
  by_cases hk : k = id
  · have hw : (Entry.wrote id o).sign? k = some o := by simp [Entry.sign?, Entry.wrote?, ho, hk]
    rw [if_pos hk, List.filterMap_cons_some hw, List.filterMap_nil]
  · have hne : ¬ id = k := fun e => hk e.symm
    have hw : (Entry.wrote id o).sign? k = none := by simp [Entry.sign?, Entry.wrote?, hne]
    rw [if_neg hk, List.filterMap_cons_none hw, List.filterMap_nil]

theorem filterMap_sign?_of_isMute {es : List Entry} (h : ∀ e ∈ es, e.isMute = true) (id : Nat) :
    es.filterMap (Entry.sign? id) = [] :=
  List.filterMap_eq_nil_iff.mpr fun e he => sign?_eq_none_of_isMute (h e he) id

theorem any_isSign_of_isMute {es : List Entry} (h : ∀ e ∈ es, e.isMute = true) (id : Nat) :
    (es.filterMap (Entry.wrote? id)).any (·.isSign) = false := by
  refine List.any_eq_false.mpr fun o ho => ?_
  obtain ⟨e,he,hw⟩ := List.mem_filterMap.mp ho
  have hsign := sign?_eq_none_of_isMute (h e he) id
  simpa [Entry.sign?, hw] using hsign

/-! ## One turn -/

inductive Pace (s : State) : List Entry → Stage → Prop
  /-- Afterwards the worker serves no connection. -/
  | away {es : List Entry} {t : Stage} (ht : t.watch? = none) (he : ∀ e ∈ es, e.isMute = true) :
    Pace s es t
  | begin {t : Stage} (hs : s.stage.watch? = none)
      (ht : t.watch? = some (s.network.links.length,
        ⟨s.settings.liveness,s.clock + s.settings.period,s.clock + s.settings.period⟩)) :
    Pace s ([.dialled,.opened s.network.links.length] ++ [.wrote s.network.links.length .ready]) t
  /-- The worker gives no sign; it goes on with its wait, or waits once more. -/
  | keep {id : Nat} {v v' : Vigil} {es : List Entry} {t : Stage}
      (hs : s.stage.watch? = some (id,v)) (ht : t.watch? = some (id,v'))
      (he : ∀ e ∈ es, e.isMute = true) (hb : v'.heartbeatAt = v.heartbeatAt)
      (hw : v'.waitUntil = v.waitUntil ∨
        s.clock < v.heartbeatAt ∧ v'.waitUntil = s.clock + s.settings.period) :
    Pace s es t
  | beat {id : Nat} {v v' : Vigil} {es : List Entry} {t : Stage}
      (hs : s.stage.watch? = some (id,v)) (ht : t.watch? = some (id,v'))
      (he : ∀ e ∈ es, e.isMute = true) (hb : v.heartbeatAt ≤ s.clock)
      (hb' : v'.heartbeatAt = s.clock + s.settings.period)
      (hw : v'.waitUntil = s.clock + s.settings.period) :
    Pace s (es ++ [.wrote id .heartbeat]) t

section
variable {s : State} {id : Nat} {v w : Vigil} {es : List Entry} {t : Stage}

theorem RoundEnd.pace (h : RoundEnd s.settings s.clock id w es t)
    (hs : s.stage.watch? = some (id,v)) (hb : w.heartbeatAt = v.heartbeatAt) {pre : List Entry}
    (hp : ∀ e ∈ pre, e.isMute = true) : Pace s (pre ++ es) t := by
  cases h with
  | rest hlt => exact .keep hs rfl (by simpa using hp) hb (.inr ⟨hb ▸ hlt,rfl⟩)
  | beat hle => exact .beat hs rfl hp (hb ▸ hle) rfl rfl
  | sever => exact .away rfl (by simpa [or_imp, forall_and, Entry.isMute] using hp)

theorem Turn.pace (h : Turn s es t) : Pace s es t := by
  have hquiet {e : Entry} (he : e.isMute = true) : ∀ e' ∈ [e], e'.isMute = true := by
    simpa using he
  have hserve {id : Nat} {v : Vigil} (hs : s.stage = .serving id v) :
      s.stage.watch? = some (id,v) := by
    rw [hs]
    rfl
  have hhandle {id done : Nat} {v : Vigil} {e : Envelope} {r : Except Fault Message}
      (hs : s.stage = .handling id v e r done) : s.stage.watch? = some (id,v) := by
    rw [hs]
    rfl
  cases h with
  | halt | wake => exact .away rfl (by simp)
  | connect hs => exact .begin (by rw [hs]; rfl) rfl
  | refuse | hang | stop | vanish | dismiss | silence =>
    exact .away rfl (by simp [Entry.isMute, Output.isSign])
  | sever => exact .away rfl (by simp [Entry.isMute])
  | notify hs _ _ hr | hear hs _ _ _ hr => exact hr.pace (hserve hs) rfl (hquiet rfl)
  | call hs => exact .keep (hserve hs) rfl (by simp [Entry.isMute]) rfl (.inl rfl)
  | pass hs _ _ _ hr =>
    have hp : Pace s ([] ++ es) t := hr.pace (hserve hs) rfl (by simp)
    exact hp
  | reply hs _ hr | fail hs _ hr => exact hr.pace (hhandle hs) rfl (hquiet rfl)

end

namespace State
variable {s s' : State} {id : Nat} {a : Act}

/-! ## Runs without delay -/

/-- The act comes in time: while a connection is served, time passes only when the worker waits,
and not beyond the end of its wait. -/
def Allows (s : State) : Act → Prop
  | .tick ms => s.stage.link?.isSome = true → s.move.isNone = true ∧
      ∀ due ∈ s.nextDeadline?, s.clock + ms ≤ due
  | _ => True

instance (s : State) (a : Act) : Decidable (s.Allows a) :=
  match a with
  | .tick _ => inferInstanceAs (Decidable (_ → _ ∧ _))
  | .move | .persist | .resume | .notice _ | .askStop | .shutdown | .network _ => .isTrue trivial

def Timely : State → List Act → Prop
  | _, [] => True
  | s, a :: acts => s.Allows a ∧ (s.apply a).Timely acts

instance decidableTimely : (acts : List Act) → (s : State) → Decidable (s.Timely acts)
  | [], _ => .isTrue trivial
  | a :: acts, s =>
    have := decidableTimely acts (s.apply a)
    inferInstanceAs (Decidable (_ ∧ _))

/-- What every timely act keeps, every timely run keeps. -/
theorem timely_invariant {P : State → Prop} (h : ∀ s a, s.Allows a → P s → P (s.apply a))
    (hs : P s) {acts : List Act} (ha : s.Timely acts) : P (s.run acts) := by
  induction acts generalizing s with
  | nil => exact hs
  | cons a acts ih => exact ih (h s a ha.1 hs) ha.2

def signs (id : Nat) (s : State) : List (Nat × Output) :=
  s.journal.filterMap fun x => (x.2.sign? id).map (x.1,·)

theorem Adds.signs {es : List Entry} (h : Adds es s s') (id : Nat) :
    s'.signs id = s.signs id ++ (es.filterMap (Entry.sign? id)).map (s.clock,·) := by
  rw [State.signs, h.journal, List.filterMap_append, List.filterMap_map, List.map_filterMap]
  rfl

/-- The later of two signs comes a period and more after the earlier one, but less than two. -/
def Spaced (period : Nat) (x y : Nat × Output) : Prop :=
  x.1 + period ≤ y.1 ∧ y.1 < x.1 + 2 * period

end State

/-- The worker watches time so that fewer than two periods pass after its last sign. -/
structure Vigilant (period now last : Nat) (v : Vigil) : Prop where
  heartbeatAt : v.heartbeatAt = last + period
  clock : now ≤ v.waitUntil
  waitUntil : v.waitUntil < last + 2 * period

section
variable {period now last : Nat} {v v' : Vigil}

theorem vigilant_of_sign (hp : 0 < period) (hb : v.heartbeatAt = now + period)
    (hw : v.waitUntil = now + period) : Vigilant period now now v := by
  constructor <;> omega

theorem Vigilant.keep (h : Vigilant period now last v) (hb : v'.heartbeatAt = v.heartbeatAt)
    (hw : v'.waitUntil = v.waitUntil ∨ now < v.heartbeatAt ∧ v'.waitUntil = now + period) :
    Vigilant period now last v' := by
  obtain ⟨hbeat,hclock,huntil⟩ := h
  constructor <;> omega

theorem Vigilant.spaced (h : Vigilant period now last v) (hb : v.heartbeatAt ≤ now) :
    last + period ≤ now ∧ now < last + 2 * period := by
  obtain ⟨hbeat,hclock,huntil⟩ := h
  constructor <;> omega

end

theorem Settings.period_pos (c : Settings) : 0 < c.period := Nat.le_max_left ..

namespace State
variable {s s' : State} {id : Nat} {a : Act}

structure Steady (s : State) : Prop where
  spaced : ∀ id, (s.signs id).IsChain (Spaced s.settings.period)
  unopened : ∀ id, s.network.links.length ≤ id → s.signs id = []
  vigilant : ∀ id v, s.stage.watch? = some (id,v) → id < s.network.links.length ∧
    ∃ x, (s.signs id).getLast? = some x ∧ Vigilant s.settings.period s.clock x.1 v
  /-- An answer does not have to be waited for. -/
  prompt : ∀ id v e r done, s.stage = .handling id v e r done → done ≤ s.clock

/-- Nobody gives a sign, and time is watched as before. -/
theorem Steady.of_mute (hs : Steady s) (hc : s'.settings = s.settings)
    (hsigns : ∀ id, s'.signs id = s.signs id)
    (hlen : s.network.links.length ≤ s'.network.links.length)
    (hv : ∀ id v, s'.stage.watch? = some (id,v) → ∃ v₀, s.stage.watch? = some (id,v₀) ∧
      ∀ last, Vigilant s.settings.period s.clock last v₀ →
        Vigilant s.settings.period s'.clock last v)
    (hp : ∀ id v e r done, s'.stage = .handling id v e r done → done ≤ s'.clock) : Steady s' where
  spaced id := by
    rw [hsigns, hc]
    exact hs.spaced id
  unopened id h := by
    rw [hsigns]
    exact hs.unopened id (Nat.le_trans hlen h)
  vigilant id v h := by
    obtain ⟨v₀,hw,hlast⟩ := hv id v h
    obtain ⟨hid,x,hx,hvig⟩ := hs.vigilant id v₀ hw
    rw [hsigns, hc]
    exact ⟨Nat.lt_of_lt_of_le hid hlen,x,hx,hlast _ hvig⟩
  prompt := hp

/-- A sign is given on the connection that is served afterwards. -/
theorem Steady.of_sign (hs : Steady s) (hc : s'.settings = s.settings)
    (hclock : s'.clock = s.clock) {o : Output}
    (hsigns : ∀ k, s'.signs k = s.signs k ++ if k = id then [(s.clock,o)] else [])
    (hlen : s.network.links.length ≤ s'.network.links.length)
    (hid : id < s'.network.links.length)
    (hlast : ∀ x, (s.signs id).getLast? = some x → Spaced s.settings.period x (s.clock,o))
    {v : Vigil} (hw : s'.stage.watch? = some (id,v))
    (hv : Vigilant s.settings.period s.clock s.clock v)
    (hp : ∀ id v e r done, s'.stage = .handling id v e r done → done ≤ s'.clock) : Steady s' where
  spaced k := by
    rw [hsigns, hc]
    split
    · rename_i hk
      subst hk
      refine List.isChain_append.mpr ⟨hs.spaced k,.singleton _,fun x hx y hy => ?_⟩
      cases hy
      exact hlast x hx
    · rw [List.append_nil]
      exact hs.spaced k
  unopened k h := by
    rw [hsigns, if_neg (by omega), List.append_nil]
    exact hs.unopened k (Nat.le_trans hlen h)
  vigilant k w h := by
    cases hw.symm.trans h
    refine ⟨hid,(s.clock,o),?_,?_⟩
    · rw [hsigns, if_pos rfl, List.getLast?_concat]
    · rwa [hc, hclock]
  prompt := hp

/-- An answer that takes no time is there at once. -/
theorem done_le_of_turn {v : Vigil} {e : Envelope} {r : Except Fault Message} {done : Nat}
    {es : List Entry} (hd : ∀ n client body, (s.settings.handler n client body).delay = 0)
    (h : Turn s es (.handling id v e r done)) : done ≤ s.clock := by
  cases h with
  | call => exact Nat.le_of_eq (by rw [hd, Nat.add_zero])
  | notify _ _ _ hr | hear _ _ _ _ hr | pass _ _ _ _ hr | reply _ _ hr | fail _ _ hr => cases hr

theorem Steady.turn {es : List Entry} (hs : Steady s) (ha : Adds es s s')
    (hd : ∀ n client body, (s.settings.handler n client body).delay = 0)
    (ht : Turn s es s'.stage) : Steady s' := by
  have hlen : s.network.links.length ≤ s'.network.links.length := by
    rw [ha.opened]
    exact Nat.le_add_right ..
  have hp : ∀ id v e r done, s'.stage = .handling id v e r done → done ≤ s'.clock := by
    intro id v e r done hh
    rw [hh] at ht
    rw [ha.clock]
    exact done_le_of_turn hd ht
  have hmute (he : ∀ e ∈ es, e.isMute = true) (id : Nat) : s'.signs id = s.signs id := by
    rw [ha.signs, filterMap_sign?_of_isMute he, List.map_nil, List.append_nil]
  have hpos := s.settings.period_pos
  generalize hstage : s'.stage = stage at ht
  cases ht.pace with
  | away ht he =>
    refine hs.of_mute ha.settings (hmute he) hlen (fun id v hw => ?_) hp
    rw [hstage, ht] at hw
    cases hw
  | keep hw hw' he hb hu =>
    refine hs.of_mute ha.settings (hmute he) hlen (fun id v h => ?_) hp
    rw [hstage] at h
    cases hw'.symm.trans h
    refine ⟨_,hw,fun last hv => ?_⟩
    rw [ha.clock]
    exact hv.keep hb hu
  | begin hw hw' =>
    refine hs.of_sign (o := .ready) ha.settings ha.clock (fun k => ?_) hlen ?_ (fun x hx => ?_)
      (hstage ▸ hw') (vigilant_of_sign hpos rfl rfl) hp
    · rw [ha.signs, List.filterMap_append, filterMap_sign?_wrote rfl,
        filterMap_sign?_of_isMute (by simp [Entry.isMute])]
      split <;> rfl
    · rw [ha.opened]
      simp [List.countP_cons, Entry.isOpened]
    · rw [hs.unopened _ (Nat.le_refl _)] at hx
      cases hx
  | @beat id v v' es _ hw hw' he hb hb' hu =>
    obtain ⟨hid,y,hy,hv⟩ := hs.vigilant id v hw
    refine hs.of_sign (o := .heartbeat) ha.settings ha.clock (fun k => ?_) hlen
      (Nat.lt_of_lt_of_le hid hlen) (fun x hx => ?_) (hstage ▸ hw')
      (vigilant_of_sign hpos hb' hu) hp
    · rw [ha.signs, List.filterMap_append, filterMap_sign?_wrote rfl,
        filterMap_sign?_of_isMute he]
      split <;> rfl
    · cases hy.symm.trans hx
      exact hv.spaced hb

/-- Time that passes without delay does not pass beyond the end of the wait. -/
theorem Steady.le_waitUntil (hs : Steady s) {ms : Nat} (ha : s.Allows (.tick ms)) {v : Vigil}
    (hw : s.stage.watch? = some (id,v)) : s.clock + ms ≤ v.waitUntil := by
  obtain ⟨hmove,hdue⟩ := ha (by rw [Stage.link?_eq_watch?, hw]; rfl)
  cases hstage : s.stage with
  | serving k w =>
    rw [hstage] at hw
    cases hw
    exact hdue _ (by rw [nextDeadline?, hstage]; rfl)
  | handling k w e r done =>
    have hdone := hs.prompt _ _ _ _ _ hstage
    simp [move, hstage, hdone] at hmove
  | _ =>
    rw [hstage] at hw
    cases hw

theorem Effect.steady (h : Effect s a s') (ha : s.Allows a)
    (hd : ∀ n client body, (s.settings.handler n client body).delay = 0) (hs : Steady s) :
    Steady s' := by
  cases h with
  | turn hadds ht => exact hs.turn hadds hd ht
  | resume hh =>
    refine hs.of_mute rfl (fun _ => rfl) (Nat.le_refl _) (fun id v hw => ?_) ?_
    · cases hw
    · nofun
  | pass hb =>
    refine hs.of_mute hb.settings (fun id => ?_) (Nat.le_of_eq hb.opened.symm)
      (fun id v hw => ?_) fun id v e r done hh => ?_
    · rw [State.signs, hb.journal]
      rfl
    · rw [hb.stage] at hw
      refine ⟨v,hw,fun last hv => ⟨hv.heartbeatAt,?_,hv.waitUntil⟩⟩
      rw [hb.clock]
      cases a with
      | tick ms => exact hs.le_waitUntil ha hw
      | _ => exact hv.clock
    · rw [hb.stage] at hh
      have hdone := hs.prompt _ _ _ _ _ hh
      rw [hb.clock]
      cases a with
      | tick ms => exact Nat.le_add_right_of_le hdone
      | _ => exact hdone

/-- What an act that takes no time writes to the connection that is served afterwards, and what
becomes of the time of the next sign. -/
theorem Effect.watched (h : Effect s a s') {v : Vigil}
    (hw : s'.stage.watch? = some (id,v)) :
    (s.network.links.length = id ∧ s'.written id = s.written id ++ [.ready] ∧
        v.heartbeatAt = s.clock + s.settings.period) ∨
      ∃ v₀ outs, s.stage.watch? = some (id,v₀) ∧ s'.written id = s.written id ++ outs ∧
        v.heartbeatAt = if outs.any (·.isSign) then s.clock + s.settings.period
          else v₀.heartbeatAt := by
  cases h with
  | turn hadds ht =>
    generalize s'.stage = stage at ht hw
    cases ht.pace with
    | away hn => cases hn.symm.trans hw
    | begin _ hn =>
      cases hn.symm.trans hw
      refine .inl ⟨rfl,?_,rfl⟩
      rw [hadds.written]
      simp [List.filterMap_cons, Entry.wrote?]
    | keep hs hn he hb =>
      cases hn.symm.trans hw
      refine .inr ⟨_,_,hs,hadds.written id,?_⟩
      rw [any_isSign_of_isMute he]
      exact hb
    | beat hs hn he _ hb =>
      cases hn.symm.trans hw
      refine .inr ⟨_,_,hs,hadds.written id,?_⟩
      rw [List.filterMap_append, List.any_append, any_isSign_of_isMute he]
      simpa [Entry.wrote?, Output.isSign] using hb
  | resume => cases hw
  | pass hb =>
    rw [hb.stage] at hw
    refine .inr ⟨v,[],hw,?_,rfl⟩
    rw [State.written, hb.journal, List.append_nil]
    rfl

theorem steady_start (c : Settings) (m : Mode) (monitor : Monitor) :
    Steady (start c { mode := m } monitor) where
  spaced _ := .nil
  unopened _ _ := rfl
  vigilant := nofun
  prompt := nofun

theorem steady_run {c : Settings} (hd : ∀ n client body, (c.handler n client body).delay = 0)
    (m : Mode) (monitor : Monitor) {acts : List Act}
    (ha : (start c { mode := m } monitor).Timely acts) :
    Steady ((start c { mode := m } monitor).run acts) := by
  refine (timely_invariant (P := fun s => s.settings = c ∧ Steady s) (fun s a ha hs => ?_)
    ⟨rfl,steady_start c m monitor⟩ ha).2
  have he := effect_apply s a
  exact ⟨he.settings.trans hs.1,he.steady ha (hs.1 ▸ hd) hs.2⟩

end State
end Majordomo.Worker
