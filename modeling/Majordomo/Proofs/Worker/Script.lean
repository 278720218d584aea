import Majordomo.Proofs.Worker.Standing

/-! # What a worker writes to its connections

On each connection a worker follows a script, and only on the last one it gets to the end of it.
The journal of a run is a path from which this is read, and the path leads to what the worker is
about in its present stage.
-/
namespace Majordomo.Worker

/-- The stage at a time, of a worker about which its journal tells `place`. -/
def Stage.Fits (now opened : Nat) : Stage → Place → Prop
  | .dialling, .apart due | .hanging, .apart due => due ≤ now
  | .pausing wake, .apart due => due ≤ wake
  | .serving id _, .engaged | .handling id .., .engaged => opened = id + 1
  | .stopped, .apart _ | .stopped, .finished => True
  | _, _ => False

section
variable {now opened id : Nat} {t : Stage} {place : Place}

theorem Stage.Fits.engaged (h : t.Fits now opened place) (hid : t.link? = some id) :
    opened = id + 1 ∧ place = .engaged := by
  cases t with
  | serving | handling =>
    cases hid
    cases place with
    | engaged => exact ⟨h,rfl⟩
    | _ => cases h
  | _ => cases hid

theorem Stage.Fits.stopped (h : t.Fits now opened place) (hid : t.link? = none) :
    Stage.stopped.Fits now opened place := by
  cases t with
  | serving | handling => cases hid
  | _ =>
    cases place with
    | apart | finished => trivial
    | _ => exact h

theorem Stage.Fits.not_parted (h : t.Fits now opened place) : place ≠ .parted := by
  rintro rfl
  cases t <;> exact h

theorem Stage.Fits.resumed (h : Stage.hanging.Fits now opened place) :
    Stage.dialling.Fits now opened place := by
  cases place <;> exact h

theorem Stage.Fits.later {now' : Nat} (h : t.Fits now opened place) (hle : now ≤ now') :
    t.Fits now' opened place := by
  cases t <;> cases place <;> first | exact h | exact Nat.le_trans h hle

end

/-- The entries made at a time lead on to what fits the stage. -/
def Leads (delay now : Nat) (st : Standing) (es : List Entry) (t : Stage) : Prop :=
  ∃ st', Path delay st (es.map (now,·)) st' ∧
    st'.opened = st.opened + es.countP Entry.isOpened ∧ st'.time ≤ now ∧
    t.Fits now st'.opened st'.place

section
variable {delay now id u : Nat} {es : List Entry} {t : Stage} {f : Fault}

theorem Leads.upkeep {e : Entry} (hu : u ≤ now) (he : e.isUpkeep id = true)
    (h : Leads delay now ⟨id + 1,now,.engaged⟩ es t) :
    Leads delay now ⟨id + 1,u,.engaged⟩ (e :: es) t := by
  obtain ⟨st',hp,ho,ht,hf⟩ := h
  have hopened : e.isOpened = false := by
    cases e with
    | opened => cases he
    | _ => rfl
  exact ⟨st',.cons (.upkeep hu he) hp,by simpa [hopened] using ho,ht,hf⟩

theorem leads_leave {why : Exit} (hu : u ≤ now) (hw : why ≠ .stopped) :
    Leads delay now ⟨id + 1,u,.engaged⟩ [.left id why] (.pausing (now + delay)) :=
  ⟨_,.single (.leave hu hw),rfl,Nat.le_refl _,Nat.le_refl (now + delay)⟩

theorem leads_sever (hu : u ≤ now) :
    Leads delay now ⟨id + 1,u,.engaged⟩ [.left id (.fault f),.reported f]
      (.pausing (now + delay)) :=
  ⟨_,.cons (.leave hu (by simp)) (.single (.reported (Nat.le_refl now))),rfl,Nat.le_refl _,
    Nat.le_refl (now + delay)⟩

theorem RoundEnd.leads {c : Settings} {v : Vigil} (h : RoundEnd c now id v es t)
    (hu : u ≤ now) : Leads c.delay now ⟨id + 1,u,.engaged⟩ es t := by
  cases h with
  | rest => exact ⟨_,.nil _,rfl,hu,rfl⟩
  | beat =>
    exact .upkeep hu (by simp [Entry.isUpkeep, Output.isMiddle])
      ⟨_,.nil _,rfl,Nat.le_refl _,rfl⟩
  | sever => exact leads_sever hu

end

namespace State
variable {s : State} {st : Standing}

def written (id : Nat) (s : State) : List Output := writtenIn id s.journal

structure Told (st : Standing) (s : State) : Prop where
  path : Path s.settings.delay {} s.journal st
  opened : st.opened = s.network.links.length
  time : st.time ≤ s.clock
  fits : s.stage.Fits s.clock st.opened st.place

theorem Told.engaged {id : Nat} (h : Told st s) (hid : s.stage.link? = some id) :
    st = ⟨id + 1,st.time,.engaged⟩ := by
  obtain ⟨ho,hp⟩ := h.fits.engaged hid
  cases st
  cases ho
  cases hp
  rfl

/-- The worker has no connection and may try for one. -/
theorem Told.apart (h : Told st s) (hs : Stage.dialling.Fits s.clock st.opened st.place) :
    ∃ due, st = ⟨s.network.links.length,st.time,.apart due⟩ ∧ due ≤ s.clock := by
  obtain ⟨_,ho,_,_⟩ := h
  obtain ⟨n,u,place⟩ := st
  cases ho
  cases place with
  | apart due => exact ⟨due,rfl,hs⟩
  | _ => cases hs

end State

open State in
theorem Turn.leads {s : State} {st : Standing} {es : List Entry} {t : Stage} (h : Turn s es t)
    (hs : Told st s) : Leads s.settings.delay s.clock st es t := by
  have hnow := hs.time
  have hon {id : Nat} (hid : s.stage.link? = some id) := hs.engaged hid
  have hserve {id : Nat} {v : Vigil} (hv : s.stage = .serving id v) :=
    hon (by rw [hv]; rfl : s.stage.link? = some id)
  have hhandle {id done : Nat} {v : Vigil} {e : Envelope} {r : Except Fault Message}
      (hv : s.stage = .handling id v e r done) :=
    hon (by rw [hv]; rfl : s.stage.link? = some id)
  cases h with
  | halt hl => exact ⟨st,.nil st,rfl,hnow,hs.fits.stopped hl⟩
  | connect hd =>
    obtain ⟨due,he,hdue⟩ := hs.apart (hd ▸ hs.fits)
    rw [he]
    exact ⟨_,.cons (.dialled hnow hdue)
      (.cons (.opened (Nat.le_refl s.clock) hdue) (.single (.ready (Nat.le_refl s.clock)))),
      rfl,Nat.le_refl _,rfl⟩
  | refuse hd =>
    obtain ⟨due,he,hdue⟩ := hs.apart (hd ▸ hs.fits)
    rw [he]
    exact ⟨_,.cons (.dialled hnow hdue) (.single (.reported (Nat.le_refl s.clock))),rfl,
      Nat.le_refl _,Nat.le_add_right_of_le hdue⟩
  | hang hd =>
    obtain ⟨due,he,hdue⟩ := hs.apart (hd ▸ hs.fits)
    rw [he]
    exact ⟨_,.single (.dialled hnow hdue),rfl,Nat.le_refl _,hdue⟩
  | wake hw hle =>
    have hf := hs.fits
    rw [hw] at hf
    refine ⟨st,.nil st,rfl,hnow,?_⟩
    cases hp : st.place with
    | apart due => exact Nat.le_trans (by rwa [hp] at hf) hle
    | _ => exact (by rwa [hp] at hf)
  | stop hv =>
    rw [hserve hv]
    exact ⟨_,.cons (.part hnow) (.single (.stop (Nat.le_refl s.clock))),rfl,Nat.le_refl _,trivial⟩
  | vanish hv =>
    rw [hserve hv]
    exact ⟨_,.single (.vanish hnow),rfl,Nat.le_refl _,trivial⟩
  | notify hv _ _ hr =>
    rw [hserve hv]
    exact .upkeep hnow (by simp [Entry.isUpkeep, Output.isMiddle]) (hr.leads (Nat.le_refl _))
  | hear hv _ _ _ hr =>
    rw [hserve hv]
    exact .upkeep hnow (by simp [Entry.isUpkeep]) (hr.leads (Nat.le_refl _))
  | call hv =>
    rw [hserve hv]
    exact .upkeep hnow (by simp [Entry.isUpkeep])
      (.upkeep (Nat.le_refl _) rfl ⟨_,.nil _,rfl,Nat.le_refl _,rfl⟩)
  | dismiss hv =>
    rw [hserve hv]
    exact .upkeep hnow (by simp [Entry.isUpkeep]) (leads_leave (Nat.le_refl _) (by simp))
  | silence hv =>
    rw [hserve hv]
    exact leads_leave hnow (by simp)
  | pass hv _ _ _ hr =>
    rw [hserve hv]
    exact hr.leads hnow
  | reply hv _ hr =>
    rw [hhandle hv]
    exact .upkeep hnow (by simp [Entry.isUpkeep, Output.isMiddle]) (hr.leads (Nat.le_refl _))
  | fail hv _ hr =>
    rw [hhandle hv]
    exact .upkeep hnow rfl (hr.leads (Nat.le_refl _))
  | sever hid =>
    rw [hon hid]
    exact leads_sever hnow

/-- A worker says that it goes only if it has to stop. -/
theorem Turn.isStopping {s : State} {es : List Entry} {t : Stage} {id : Nat} (h : Turn s es t)
    (he : .wrote id .disconnect ∈ es) : s.isStopping = true := by
  have hround {k : Nat} {v : Vigil} {es : List Entry} {t : Stage}
      (hr : RoundEnd s.settings s.clock k v es t) : .wrote id .disconnect ∉ es := by
    cases hr <;> simp
  cases h with
  | halt _ hx | stop _ hx | vanish _ hx => exact hx
  | notify _ _ _ hr | hear _ _ _ _ hr | pass _ _ _ _ hr | reply _ _ hr | fail _ _ hr =>
    exact absurd (by simpa using he) (hround hr)
  | connect | refuse | hang | wake | call | dismiss | silence | sever => simp at he

namespace State
variable {s s' : State} {st : Standing} {a : Act}

theorem Effect.told (h : Effect s a s') (hs : Told st s) : ∃ st', Told st' s' := by
  cases h with
  | turn ha ht =>
    obtain ⟨st',hp,ho,htime,hf⟩ := ht.leads hs
    refine ⟨st',?_,?_,?_,?_⟩
    · rw [ha.settings, ha.journal]
      exact hs.path.append hp
    · rw [ho, ha.opened, hs.opened]
    · rw [ha.clock]
      exact htime
    · rw [ha.clock]
      exact hf
  | resume hh =>
    have hf := hs.fits
    rw [hh] at hf
    exact ⟨st,hs.path,hs.opened,hs.time,hf.resumed⟩
  | pass hb =>
    have hle : s.clock ≤ s'.clock := hb.clock_le
    refine ⟨st,?_,?_,Nat.le_trans hs.time hle,?_⟩
    · rw [hb.settings, hb.journal]
      exact hs.path
    · rw [hb.opened]
      exact hs.opened
    · rw [hb.stage]
      exact hs.fits.later hle

/-- Nothing is written to a connection before it is opened. -/
theorem Told.written_of_length_le (h : Told st s) {id : Nat}
    (hid : s.network.links.length ≤ id) : s.written id = [] :=
  (h.path.writtenIn_admits (Standing.admits_nil id)).unopened (h.opened ▸ hid)

/-- While the worker serves a connection it has not gone beyond the middle of its script. -/
theorem Told.begun (h : Told st s) {id : Nat} (hid : s.stage.link? = some id) :
    Begun (s.written id) := by
  obtain ⟨ho,hp⟩ := h.fits.engaged hid
  exact (h.path.writtenIn_admits (Standing.admits_nil id)).engaged ho hp

theorem told_run (c : Settings) (m : Mode) (monitor : Monitor) (acts : List Act) :
    ∃ st, Told st ((start c { mode := m } monitor).run acts) := by
  refine run_invariant (P := fun s => ∃ st, Told st s)
    (fun s a ⟨_,h⟩ => (effect_apply s a).told h) ?_ acts
  exact ⟨{},.nil _,rfl,Nat.le_refl _,Nat.le_refl _⟩

theorem Adds.written {es : List Entry} (h : Adds es s s') (id : Nat) :
    s'.written id = s.written id ++ es.filterMap (Entry.wrote? id) := by
  rw [State.written, h.journal, writtenIn_append]
  simp only [writtenIn, List.filterMap_map]
  rfl

/-- What the far ends have taken is what is noted. -/
def Faithful (s : State) : Prop :=
  ∀ id, s.network.takenBy id = (s.written id).map (·.frames s.settings.service)

theorem Effect.faithful (h : Effect s a s') (hs : Faithful s) : Faithful s' := by
  intro id
  cases h with
  | turn ha => rw [ha.taken, ha.settings, hs id, ha.written, List.map_append]
  | resume => exact hs id
  | pass hb =>
    rw [hb.taken, hb.settings, State.written, hb.journal]
    exact hs id

theorem faithful_run (c : Settings) (m : Mode) (monitor : Monitor) (acts : List Act) :
    Faithful ((start c { mode := m } monitor).run acts) :=
  run_invariant (fun s a h => (effect_apply s a).faithful h) (fun _ => rfl) acts

theorem Effect.isStopping {id : Nat} (h : Effect s a s') (hd : .disconnect ∈ s'.written id) :
    .disconnect ∈ s.written id ∨ s.isStopping = true := by
  cases h with
  | turn ha ht =>
    rw [ha.written] at hd
    rcases List.mem_append.1 hd with hd | hd
    · exact .inl hd
    · obtain ⟨e,he,hw⟩ := List.mem_filterMap.1 hd
      exact .inr (ht.isStopping (Entry.wrote?_eq_some.mp hw ▸ he))
  | resume => exact .inl hd
  | pass hb =>
    rw [State.written, hb.journal] at hd
    exact .inl hd

theorem Told.isStopped (h : Told st s) (hp : st.place = .finished) : s.isStopped = true := by
  have hf := h.fits
  rw [hp] at hf
  unfold State.isStopped
  cases hs : s.stage with
  | stopped => rfl
  | _ => rw [hs] at hf; cases hf

/-- On each connection a worker follows its script. It gets to the end of it only when it has to
stop, and then it opens no other connection; otherwise it writes no more on a connection that it
has left, and tries for the next one only after a while. -/
theorem connections_follow_script (c : Settings) (m : Mode) (monitor : Monitor)
    (acts : List Act) (id : Nat) :
    let s := (start c { mode := m } monitor).run acts
    s.network.takenBy id = (s.written id).map (·.frames c.service) ∧
      Scripted (s.written id) ∧
      (∀ a, .disconnect ∈ (s.apply a).written id →
        .disconnect ∈ s.written id ∨ s.isStopping = true) ∧
      (∀ before t after, s.journal = before ++ (t,.wrote id .disconnect) :: after →
        s.network.links.length = id + 1 ∧ s.isStopped = true ∧
          ∃ u, after = [(u,.left id .stopped)]) ∧
      (∀ before t why after, s.journal = before ++ (t,.left id why) :: after →
        (∀ o, o ∉ writtenIn id after) ∧ (why = .stopped → after = [] ∧ s.isStopped = true) ∧
          (why ≠ .stopped → ∀ x ∈ after, x.2.isAttempt = true → t + c.delay ≤ x.1)) ∧
      ∀ before t after, s.journal = before ++ (t,.opened (id + 1)) :: after →
        ∃ u why, (u,.left id why) ∈ before ∧ why ≠ .stopped ∧ u + c.delay ≤ t := by
  intro s
  obtain ⟨st,hs⟩ := told_run c m monitor acts
  have hc : s.settings = c := settings_run _ acts
  have hpath : Path c.delay {} s.journal st := hc ▸ hs.path
  refine ⟨hc ▸ faithful_run c m monitor acts id,?_,fun a => (effect_apply s a).isStopping,
    fun before t after hj => ?_,fun before t why after hj => ?_,fun before t after hj => ?_⟩
  · exact (hpath.writtenIn_admits (Standing.admits_nil id)).scripted
  · obtain ⟨st',_,hrest⟩ := (hj ▸ hpath).exists_of_append
    obtain ⟨hopened,hover,hafter⟩ := hrest.of_disconnect hs.fits.not_parted
    exact ⟨hs.opened ▸ hopened,hs.isStopped hover,hafter⟩
  · obtain ⟨st',_,hrest⟩ := (hj ▸ hpath).exists_of_append
    obtain ⟨hwritten,hstopped,hdue⟩ := hrest.of_left
    exact ⟨hwritten,fun hw => ⟨(hstopped hw).1,hs.isStopped (hstopped hw).2⟩,hdue⟩
  · obtain ⟨st',hbefore,hrest⟩ := (hj ▸ hpath).exists_of_append
    cases hrest with
    | cons hx =>
      cases hx with
      | opened _ hd =>
        rcases hbefore.left_mem_or rfl rfl with ⟨u,why,hmem,hw,hu⟩ | ⟨h,_⟩
        · exact ⟨u,why,hmem,hw,hu ▸ hd⟩
        · cases h
      | upkeep _ he => cases he

/-- A worker that stops after a while has gone through its script. -/
example : ((start .sample {} {}).run [.move, .tick 100, .move, .notice ⟨⟨[1]⟩,[]⟩, .move, .askStop,
    .move]).written 0 = [.ready, .heartbeat, .shutdown ⟨⟨[1]⟩,[]⟩, .disconnect] := by
  decide +kernel

end State
end Majordomo.Worker
