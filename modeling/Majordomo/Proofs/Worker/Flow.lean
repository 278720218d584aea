import Majordomo.Worker.Session
import Majordomo.Proofs.Link
import Majordomo.Proofs.Exchange.Parcel
import Mathlib.Data.List.Count

/-! # What flows through a worker

A request that waits on a connection becomes a call of the handler, and what the
handler answers is written to the same connection. No move makes a request or a reply
of nothing.
-/
namespace Majordomo
open Exchange

/-- What a connection carries between the broker and a worker of the service, of whose
messages the broker has taken some. -/
def Link.parcels (service : String) (taken : Nat) (l : Link) : List Parcel :=
  l.arrivals.filterMap (fun
    | .message frames => Parcel.sought? service frames
    | .failure _ => none) ++
  (l.taken.drop taken).filterMap (Parcel.given? service)

namespace Worker

def Settings.announced (c : Settings) : String := (Frame.ofText c.service).toText

namespace State
variable {s s' s'' : State}

def callLog (s : State) : List (Frame × Message) :=
  s.journal.filterMap fun
    | (_,.called client body) => some (client,body)
    | _ => none

def Spoken (s : State) : Prop :=
  ∀ n l, s.network.link? n = some l → ∀ m ∈ l.taken, ∃ o : Output, m = o.frames s.settings.service

def carried (n taken : Nat) (s : State) : List Parcel :=
  (s.network.link? n).elim [] (·.parcels s.settings.announced taken)

def prepared (n : Nat) (s : State) : List Parcel :=
  match s.stage with
  | .handling id _ e (.ok body) _ =>
    if id = n then
      (Parcel.given? s.settings.announced (Wire.reply (e.withBody body))).toList
    else []
  | _ => []

/-- Nothing changes but that the connection `id` may carry `ps` in addition, and loses `qs`. -/
structure Passes (id : Nat) (qs ps : List Parcel) (s s' : State) : Prop where
  settings : s'.settings = s.settings
  calls : s'.calls = s.calls
  callLog : s'.callLog = s.callLog
  opened : s.network.links.length ≤ s'.network.links.length
  spoken : s.Spoken → s'.Spoken
  carried : ∀ n taken t,
    (s'.carried n taken).count t + (if n = id then qs.count t else 0) ≤
      (s.carried n taken).count t + if n = id then ps.count t else 0

def parcels (n taken : Nat) (s : State) : List Parcel := s.carried n taken ++ s.prepared n

def AtRest (s : State) : Prop := ∀ n, s.prepared n = []

theorem Passes.trans {id : Nat} {qs ps : List Parcel} (h : Passes id qs ps s s')
    (h' : Passes id [] [] s' s'') : Passes id qs ps s s'' := by
  refine ⟨h'.settings.trans h.settings,h'.calls.trans h.calls,h'.callLog.trans h.callLog,
    Nat.le_trans h.opened h'.opened,fun hs => h'.spoken (h.spoken hs),?_⟩
  intro n taken t
  have hc := h.carried n taken t
  have hc' := h'.carried n taken t
  simp only [List.count_nil, ite_self, Nat.add_zero] at hc'
  omega

/-- Where nothing is lost or added, it does not matter which connection is meant. -/
theorem Passes.at {id : Nat} (h : Passes id [] [] s s') (k : Nat) : Passes k [] [] s s' := by
  refine ⟨h.settings,h.calls,h.callLog,h.opened,h.spoken,?_⟩
  intro n taken t
  simpa using h.carried n taken t

theorem Passes.more {id : Nat} (h : Passes id [] [] s s') (ps : List Parcel) :
    Passes id [] ps s s' := by
  refine ⟨h.settings,h.calls,h.callLog,h.opened,h.spoken,?_⟩
  intro n taken t
  have hc := h.carried n taken t
  simp only [List.count_nil, ite_self, Nat.add_zero] at hc ⊢
  omega

/-- A change of the parts on which nothing of this depends. -/
theorem passes_of_eq (id : Nat) (hs : s'.settings = s.settings) (hc : s'.calls = s.calls)
    (hl : s'.callLog = s.callLog) (hn : s'.network.links = s.network.links) :
    Passes id [] [] s s' := by
  refine ⟨hs,hc,hl,Nat.le_of_eq (congrArg List.length hn.symm),?_,?_⟩
  · intro h
    simp only [Spoken, Network.link?, hs, hn]
    exact h
  · intro n taken t
    simp [State.carried, Network.link?, hs, hn]

/-! ## Changes of a connection -/

/-- A change of one connection that makes nothing of nothing. -/
theorem passes_update {id : Nat} {qs ps : List Parcel} {f : Link → Link}
    (hc : ∀ l, s.network.link? id = some l → ∀ taken t,
      ((f l).parcels s.settings.announced taken).count t + qs.count t ≤
        (l.parcels s.settings.announced taken).count t + ps.count t)
    (hn : s.network.link? id = none → qs = [])
    (hm : ∀ l, s.network.link? id = some l → ∀ m ∈ (f l).taken,
      m ∈ l.taken ∨ ∃ o : Output, m = o.frames s.settings.service) :
    Passes id qs ps s { s with network := s.network.update id f } := by
  refine ⟨rfl,rfl,rfl,by simp,?_,?_⟩
  · intro h n l hl m hml
    simp only [Network.link?_update] at hl
    split at hl
    · rename_i he
      subst he
      obtain ⟨l',hl',rfl⟩ := Option.map_eq_some_iff.mp hl
      rcases hm l' hl' m hml with hml | ho
      · exact h id l' hl' m hml
      · exact ho
    · exact h n l hl m hml
  · intro n taken t
    simp only [State.carried, Network.link?_update]
    by_cases he : id = n
    · subst he
      cases hl : s.network.link? id with
      | none => simp [hn hl]
      | some l => simpa using hc l hl taken t
    · have hne : ¬ n = id := fun e => he e.symm
      simp [he, hne]

/-- A connection may lose marks without which it carries the same. -/
theorem passes_mark (id : Nat) {f : Link → Link} (ha : ∀ l, (f l).arrivals = l.arrivals)
    (ht : ∀ l, (f l).taken = l.taken) (s : State) :
    Passes id [] [] s { s with network := s.network.update id f } := by
  apply passes_update
  · intro l _ taken t
    simp [Link.parcels, ha, ht]
  · intro _
    rfl
  · intro l _ m hm
    exact .inl (ht l ▸ hm)

theorem passes_drop (id : Nat) (s : State) :
    Passes id [] [] s { s with network := s.network.drop id } :=
  (passes_mark id (f := fun l => { l with sinkHeld := false })
    (fun _ => rfl) (fun _ => rfl) s).trans
    (passes_mark id (f := fun l => { l with streamHeld := false }) (fun _ => rfl) (fun _ => rfl)
      { s with network := s.network.dropSink id })

theorem callLog_log (e : Entry) (s : State) :
    (s.log e).callLog = s.callLog ++ match e with
      | .called client body => [(client,body)]
      | _ => [] := by
  cases e <;> simp [callLog, log, List.filterMap_append]

theorem passes_log (id : Nat) {e : Entry} (he : ∀ client body, e ≠ .called client body)
    (s : State) : Passes id [] [] s (s.log e) := by
  refine passes_of_eq id rfl rfl ?_ rfl
  rw [callLog_log]
  cases e with
  | called client body => exact absurd rfl (he client body)
  | _ => exact List.append_nil _

theorem passes_report (id : Nat) (f : Fault) (s : State) : Passes id [] [] s (s.report f) :=
  passes_of_eq id rfl rfl ((callLog_log (.reported f) _).trans (List.append_nil _)) rfl

/-- What is written stands on the connection. -/
theorem passes_write {id : Nat} {o : Output} (h : s.write id o = .ok s') :
    Passes id [] (Parcel.given? s.settings.announced (o.frames s.settings.service)).toList s s' ∧
      s'.stage = s.stage ∧ s'.clock = s.clock := by
  unfold write at h
  cases hn : s.network.send id (o.frames s.settings.service) with
  | error f =>
    rw [hn] at h
    cases h
  | ok n =>
    rw [hn] at h
    cases h
    obtain ⟨l,hl,rfl⟩ := Network.send_eq_ok hn
    refine ⟨?_,rfl,rfl⟩
    refine Passes.trans (passes_update ?_ ?_ ?_) (passes_log id (by simp) _)
    · intro k hk taken t
      obtain rfl : l = k := Option.some.inj (hl.symm.trans hk)
      have hd : ((l.taken ++ [o.frames s.settings.service]).drop taken).Sublist
          (l.taken.drop taken ++ [o.frames s.settings.service]) := by
        rw [List.drop_append]
        exact (List.Sublist.refl _).append (List.drop_sublist ..)
      have hf := (hd.filterMap (Parcel.given? s.settings.announced)).count_le t
      have ho : [o.frames s.settings.service].filterMap (Parcel.given? s.settings.announced) =
          (Parcel.given? s.settings.announced (o.frames s.settings.service)).toList := by
        cases hg : Parcel.given? s.settings.announced (o.frames s.settings.service) <;> simp [hg]
      rw [List.filterMap_append, List.count_append, ho] at hf
      simp only [Link.parcels, List.count_append, List.count_nil]
      omega
    · intro _
      rfl
    · intro k hk m hm
      obtain rfl : l = k := Option.some.inj (hl.symm.trans hk)
      rcases List.mem_append.mp hm with hm | hm
      · exact .inl hm
      · exact .inr ⟨o,List.mem_singleton.mp hm⟩

/-- What is not a reply puts no parcel on the connection. -/
theorem passes_write_of_not_reply {id : Nat} {o : Output} (h : s.write id o = .ok s')
    (ho : ∀ e, o ≠ .reply e) : Passes id [] [] s s' := by
  have hp := (passes_write h).1
  rwa [Parcel.given?_frames ho] at hp

/-- What the worker takes is no longer on the connection. -/
theorem passes_receive {id : Nat} {l : Link} {a : Arrival} {rest : List Arrival}
    (hl : s.network.link? id = some l) (ha : l.arrivals = a :: rest) :
    Passes id (match a with
      | .message frames => (Parcel.sought? s.settings.announced frames).toList
      | .failure _ => []) []
      s { s with network := s.network.update id ({ · with arrivals := rest }) } := by
  apply passes_update
  · intro k hk taken t
    obtain rfl : l = k := Option.some.inj (hl.symm.trans hk)
    simp only [Link.parcels, ha, List.count_append, List.count_nil]
    cases a with
    | failure reason => simp
    | message frames =>
      cases hg : Parcel.sought? s.settings.announced frames with
      | none => simp [hg]
      | some p =>
        simp only [hg, List.filterMap_cons, Option.toList_some, List.count_cons, List.count_nil]
        omega
  · intro hn
    rw [hl] at hn
    cases hn
  · intro k _ m hm
    exact .inl hm

/-- A fresh connection carries nothing. -/
theorem passes_open (id : Nat) (address : String) (s : State) :
    Passes id [] [] s
      { s with network :=
        { s.network with links := s.network.links ++ [({ address } : Link)] } } := by
  have hc : ∀ n, (s.network.links ++ [({ address } : Link)])[n]? = s.network.link? n ∨
      (s.network.links ++ [({ address } : Link)])[n]? = some ({ address } : Link) ∧
        s.network.link? n = none := by
    intro n
    by_cases hn : n < s.network.links.length
    · exact .inl (List.getElem?_append_left hn)
    · rw [List.getElem?_append_right (Nat.le_of_not_lt hn)]
      have hx : s.network.link? n = none := List.getElem?_eq_none (Nat.le_of_not_lt hn)
      cases n - s.network.links.length with
      | zero => exact .inr ⟨rfl,hx⟩
      | succ k => exact .inl hx.symm
  refine ⟨rfl,rfl,rfl,by simp,?_,?_⟩
  · intro h n l hl m hm
    rcases hc n with he | ⟨he,_⟩
    · exact h n l (he.symm.trans hl) m hm
    · obtain rfl := Option.some.inj (he.symm.trans hl)
      cases hm
  · intro n taken t
    simp only [State.carried, Network.link?]
    rcases hc n with he | ⟨he,hx⟩
    · rw [he]
      exact Nat.le_refl _
    · rw [he]
      simp [Link.parcels]

/-! ## Moves -/

theorem leave_passes (id : Nat) (why : Exit) (s : State) :
    Passes id [] [] s (s.leave id why) ∧ (s.leave id why).AtRest := by
  have h : Passes id [] [] s ({ s with network := s.network.drop id }.log (.left id why)) :=
    (passes_drop id s).trans (passes_log id (by simp) _)
  cases why with
  | stopped | dismissed | silence =>
    exact ⟨h.trans (passes_of_eq id rfl rfl rfl rfl),fun _ => rfl⟩
  | fault f =>
    exact ⟨(h.trans (passes_report id f _)).trans (passes_of_eq id rfl rfl rfl rfl),fun _ => rfl⟩

theorem watch_passes (id : Nat) (v : Vigil) (s : State) :
    Passes id [] [] s (s.watch id v) ∧ (s.watch id v).AtRest :=
  ⟨passes_of_eq id rfl rfl rfl rfl,fun _ => rfl⟩

theorem endRound_passes (id : Nat) (v : Vigil) (s : State) :
    Passes id [] [] s (s.endRound id v) ∧ (s.endRound id v).AtRest := by
  unfold endRound
  split
  · split
    · rename_i s' hw
      obtain ⟨hp,hr⟩ := watch_passes id { v with heartbeatAt := s'.clock + s'.settings.period } s'
      exact ⟨(passes_write_of_not_reply hw (by simp)).trans hp,hr⟩
    · exact leave_passes id _ s
  · exact watch_passes id v s

theorem writeRound_passes (id : Nat) (o : Output) (v : Vigil) (s : State) :
    Passes id [] (Parcel.given? s.settings.announced (o.frames s.settings.service)).toList s
        (s.writeRound id o v) ∧
      (s.writeRound id o v).AtRest := by
  unfold writeRound
  split
  · rename_i s' hw
    obtain ⟨hp,hr⟩ := endRound_passes id v s'
    exact ⟨(passes_write hw).1.trans hp,hr⟩
  · obtain ⟨hp,hr⟩ := leave_passes id (.fault ‹_›) s
    exact ⟨hp.more _,hr⟩

theorem announce_passes (id : Nat) (s : State) :
    Passes id [] [] s (s.announce id) ∧ (s.announce id).AtRest := by
  unfold announce
  split
  · rename_i s' hw
    obtain ⟨hp,hr⟩ := watch_passes id ⟨s'.settings.liveness,0,s'.clock + s'.settings.period⟩ s'
    exact ⟨(passes_write_of_not_reply hw (by simp)).trans hp,hr⟩
  · exact leave_passes id _ s

theorem dial_passes (id : Nat) (s : State) : Passes id [] [] s s.dial ∧ s.dial.AtRest := by
  unfold dial
  rcases s.network.dial_cases s.settings.address with hd | ⟨f,hd⟩ | hd <;> rw [hd]
  · obtain ⟨hp,hr⟩ := announce_passes s.network.links.length
      (({ s with network := { s.network with
        links := s.network.links ++ [({ address := s.settings.address } : Link)] } }.log
          .dialled).log (.opened s.network.links.length))
    exact ⟨(((passes_open id _ s).trans (passes_log id (by simp) _)).trans
      (passes_log id (by simp) _)).trans (hp.at id),hr⟩
  · exact ⟨((passes_log id (e := .dialled) (by simp) s).trans (passes_report id f _)).trans
      (passes_of_eq id rfl rfl rfl rfl),fun _ => rfl⟩
  · exact ⟨(passes_log id (e := .dialled) (by simp) s).trans (passes_of_eq id rfl rfl rfl rfl),
      fun _ => rfl⟩

def Docked (s : State) : Prop := ∀ n, s.prepared n ≠ [] → n < s.network.links.length

/-- A connection that there is not carries nothing. -/
theorem Docked.parcels_eq_nil (h : s.Docked) {n : Nat} (hn : s.network.links.length ≤ n)
    (taken : Nat) : s.parcels n taken = [] := by
  have hl : s.network.link? n = none := List.getElem?_eq_none hn
  have hp : s.prepared n = [] := by
    by_contra hp
    exact absurd (h n hp) (Nat.not_lt_of_le hn)
  simp [State.parcels, State.carried, hl, hp]

theorem AtRest.docked (h : s.AtRest) : s.Docked := fun n hn => absurd (h n) hn

structure Keeps (s s' : State) : Prop where
  settings : s'.settings = s.settings
  calls : s'.calls = s.calls
  callLog : s'.callLog = s.callLog
  opened : s.network.links.length ≤ s'.network.links.length
  spoken : s.Spoken → s'.Spoken
  docked : s.Docked → s'.Docked
  parcels : ∀ n taken t, (s'.parcels n taken).count t ≤ (s.parcels n taken).count t

/-- A move by which the handler is called: its reply, if there is one, takes the place of the
request on the connection `id`. -/
structure Calls (id : Nat) (client : Frame) (body : Message) (s s' : State) : Prop where
  settings : s'.settings = s.settings
  calls : s'.calls = s.calls + 1
  callLog : s'.callLog = s.callLog ++ [(client,body)]
  opened : s.network.links.length ≤ s'.network.links.length
  spoken : s.Spoken → s'.Spoken
  docked : s'.Docked
  here : id < s.network.links.length
  parcels : ∀ n taken t,
    (s'.parcels n taken).count t +
        (if n = id then [Parcel.request client s.settings.announced body].count t else 0) ≤
      (s.parcels n taken).count t + if n = id then
        ((s.settings.handler s.calls client body).result.toOption.map
          (Parcel.reply client s.settings.announced)).toList.count t else 0

theorem Passes.keeps {id : Nat} {qs ps : List Parcel} (h : Passes id qs ps s s') (hr : s'.AtRest)
    (hp : ∀ t, ps.count t ≤ (s.prepared id).count t) : Keeps s s' := by
  refine ⟨h.settings,h.calls,h.callLog,h.opened,h.spoken,fun _ => hr.docked,?_⟩
  intro n taken t
  have hc := h.carried n taken t
  simp only [State.parcels, hr n, List.count_append, List.count_nil]
  by_cases hn : n = id
  · subst hn
    have := hp t
    simp only [if_true] at hc
    omega
  · simp only [hn, if_false] at hc
    omega

theorem Passes.keeps' {id : Nat} {qs : List Parcel} (h : Passes id qs [] s s') (hr : s'.AtRest) :
    Keeps s s' :=
  h.keeps hr fun t => by simp

theorem Passes.prepared_of_stage {id : Nat} {qs ps : List Parcel} (h : Passes id qs ps s s')
    (hs : s'.stage = s.stage) (n : Nat) : s'.prepared n = s.prepared n := by
  simp only [prepared, hs, h.settings]

theorem Passes.docked_of_stage {id : Nat} {qs ps : List Parcel} (h : Passes id qs ps s s')
    (hs : s'.stage = s.stage) (hd : s.Docked) : s'.Docked := by
  intro n hn
  rw [h.prepared_of_stage hs] at hn
  exact Nat.lt_of_lt_of_le (hd n hn) h.opened

/-- While the worker stands where it stood it is about to write the same. -/
theorem Passes.parcels_of_stage {id : Nat} {qs ps : List Parcel} (h : Passes id qs ps s s')
    (hs : s'.stage = s.stage) (n taken : Nat) (t : Parcel) :
    (s'.parcels n taken).count t + (if n = id then qs.count t else 0) ≤
      (s.parcels n taken).count t + if n = id then ps.count t else 0 := by
  have hc := h.carried n taken t
  simp only [State.parcels, h.prepared_of_stage hs, List.count_append]
  omega

theorem Passes.keeps_of_stage {id : Nat} (h : Passes id [] [] s s') (hs : s'.stage = s.stage) :
    Keeps s s' := by
  refine ⟨h.settings,h.calls,h.callLog,h.opened,h.spoken,h.docked_of_stage hs,?_⟩
  intro n taken t
  simpa using h.parcels_of_stage hs n taken t

theorem keeps_of_stage (hs : s'.settings = s.settings) (hc : s'.calls = s.calls)
    (hl : s'.callLog = s.callLog) (hn : s'.network.links = s.network.links)
    (hst : s'.stage = s.stage) : Keeps s s' :=
  (passes_of_eq 0 hs hc hl hn).keeps_of_stage hst

theorem keeps_of_eq (hs : s'.settings = s.settings) (hc : s'.calls = s.calls)
    (hl : s'.callLog = s.callLog) (hn : s'.network.links = s.network.links) (hr : s'.AtRest) :
    Keeps s s' :=
  (passes_of_eq 0 hs hc hl hn).keeps' hr

theorem answer_keeps {id done : Nat} {v : Vigil} {e : Envelope} {result : Except Fault Message}
    (hs : s.stage = .handling id v e result done) : Keeps s (s.answer id v e result) := by
  cases result with
  | ok body =>
    obtain ⟨hp,hr⟩ := writeRound_passes id (.reply (e.withBody body)) v s
    refine hp.keeps hr ?_
    intro t
    simp only [prepared, hs, if_true]
    exact Nat.le_refl _
  | error f =>
    obtain ⟨hp,hr⟩ := endRound_passes id v (s.report f)
    exact ((passes_report id f s).trans hp).keeps' hr

/-- The reply that a handler has given is about to be written. -/
theorem prepared_handling {id done : Nat} {v : Vigil} {client : Frame} {body : Message}
    {result : Except Fault Message}
    (hs : s.stage = .handling id v ((Envelope.ofBody body).wrap client) result done) (n : Nat) :
    s.prepared n = if n = id then
      (result.toOption.map (Parcel.reply client s.settings.announced)).toList else [] := by
  simp only [prepared, hs]
  cases result with
  | error f => simp [Except.toOption]
  | ok b =>
    have hg : Parcel.given? s.settings.announced
        (Wire.reply (((Envelope.ofBody body).wrap client).withBody b)) =
        some (.reply client s.settings.announced b) :=
      Parcel.given?_reply s.settings.announced client b
    simp only [hg, Except.toOption, Option.map_some, eq_comm]

theorem call_calls {id : Nat} (v : Vigil) {client : Frame} {body : Message} (hr : s.AtRest)
    (hid : id < s.network.links.length)
    (h : Passes id [.request client s.settings.announced body] [] s s') :
    Calls id client body s (s'.call id v ((Envelope.ofBody body).wrap client)) := by
  have hx : (s'.call id v ((Envelope.ofBody body).wrap client)).settings = s.settings := h.settings
  have hst : (s'.call id v ((Envelope.ofBody body).wrap client)).stage =
      .handling id v ((Envelope.ofBody body).wrap client)
        (s'.settings.handler s'.calls client body).result
        (s'.clock + (s'.settings.handler s'.calls client body).delay) := rfl
  refine ⟨hx,congrArg (· + 1) h.calls,?_,h.opened,h.spoken,?_,hid,?_⟩
  · rw [← h.callLog]
    exact callLog_log (.called client body) { s' with calls := s'.calls + 1 }
  · intro n hn
    rw [prepared_handling hst] at hn
    split at hn
    · rename_i he
      subst he
      exact Nat.lt_of_lt_of_le hid h.opened
    · exact absurd rfl hn
  · intro n taken t
    have hp := h.carried n taken t
    have hc : (s'.call id v ((Envelope.ofBody body).wrap client)).carried n taken =
        s'.carried n taken := rfl
    have hw : (s'.settings.handler s'.calls client body).result =
        (s.settings.handler s.calls client body).result := by rw [h.settings, h.calls]
    have hl := prepared_handling hst n
    rw [hx, hw] at hl
    simp only [State.parcels, hr n, List.append_nil, List.count_append, hc, hl]
    by_cases hn : n = id
    · simp only [hn, if_true, List.count_nil, Nat.add_zero] at hp ⊢
      omega
    · simpa [hn] using hp

/-- The handler's answer to a request takes its place. -/
theorem hear_cases {id : Nat} {v : Vigil} {l : Link} {frames : Message} {rest : List Arrival}
    (hs : s.stage = .serving id v) (hl : s.network.link? id = some l)
    (ha : l.arrivals = .message frames :: rest) :
    let s' := { s with network := s.network.update id ({ · with arrivals := rest }) }.hear
      id frames v
    Keeps s s' ∨ ∃ client body, Calls id client body s s' := by
  intro s'
  have h := (passes_receive hl ha).trans (passes_log id (e := .heard id frames) (by simp) _)
  have hr : s.AtRest := fun n => by simp [prepared, hs]
  simp only [s', hear]
  cases hb : Wire.BrokerCommand.ofFrames frames with
  | error f =>
    obtain ⟨hp,hr⟩ := endRound_passes id { v with liveness := s.settings.liveness }
      ({ s with network := s.network.update id ({ · with arrivals := rest }) }.log
        (.heard id frames))
    exact .inl ((h.trans hp).keeps' hr)
  | ok c =>
    cases c with
    | heartbeat =>
      obtain ⟨hp,hr⟩ := endRound_passes id { v with liveness := s.settings.liveness }
        ({ s with network := s.network.update id ({ · with arrivals := rest }) }.log
          (.heard id frames))
      exact .inl ((h.trans hp).keeps' hr)
    | disconnect =>
      obtain ⟨hp,hr⟩ := leave_passes id .dismissed
        ({ s with network := s.network.update id ({ · with arrivals := rest }) }.log
          (.heard id frames))
      exact .inl ((h.trans hp).keeps' hr)
    | request e =>
      have he : Wire.requestOf? frames = some e := by simp [Wire.requestOf?, hb]
      obtain ⟨client,hc⟩ := Envelope.eq_wrap_of_depth_eq_one (Wire.depth_of_requestOf? he)
      rw [hc] at he ⊢
      simp only [Parcel.sought?_of_requestOf? he, Option.toList_some] at h
      have hid : id < s.network.links.length := (List.getElem?_eq_some_iff.mp hl).1
      exact .inr ⟨client,e.body,call_calls _ hr hid h⟩

theorem stop_passes (id : Nat) (s : State) :
    Passes id [] [] s (s.stop id) ∧ (s.stop id).AtRest := by
  unfold stop
  split
  · rename_i s' hw
    obtain ⟨hp,hr⟩ := leave_passes id .stopped s'
    exact ⟨(passes_write_of_not_reply hw (by simp)).trans hp,hr⟩
  · exact leave_passes id .stopped s

theorem pass_passes (id : Nat) (v : Vigil) (s : State) :
    Passes id [] [] s (s.pass id v) ∧ (s.pass id v).AtRest := by
  unfold pass
  split
  · exact leave_passes id .silence s
  · exact endRound_passes id _ s

theorem serve_cases {id : Nat} {v : Vigil} (hs : s.stage = .serving id v)
    (h : s.serve id v = some s') : Keeps s s' ∨ ∃ id client body, Calls id client body s s' := by
  unfold serve at h
  split at h
  · cases h
    obtain ⟨hp,hr⟩ := stop_passes id s
    exact .inl (hp.keeps' hr)
  · split at h
    · rename_i n notices _
      cases h
      obtain ⟨hp,hr⟩ := writeRound_passes id (.shutdown n) v { s with notices }
      rw [Parcel.given?_frames (by simp)] at hp
      have hn : Passes id [] [] s { s with notices } := passes_of_eq id rfl rfl rfl rfl
      exact .inl ((hn.trans hp).keeps' hr)
    · cases hr : s.network.receive id with
      | none =>
        rw [hr] at h
        dsimp only at h
        split at h <;> cases h
        obtain ⟨hp,hr⟩ := pass_passes id v s
        exact .inl (hp.keeps' hr)
      | some x =>
        obtain ⟨r,n⟩ := x
        rw [hr] at h
        rcases Network.receive_cases hr with ⟨l,a,rest,hl,ha,rfl,rfl⟩ | ⟨rfl,rfl⟩
        · cases a with
          | message frames =>
            cases h
            exact (hear_cases hs hl ha).imp_right fun ⟨client,body,hc⟩ => ⟨id,client,body,hc⟩
          | failure reason =>
            cases h
            obtain ⟨hp,hr⟩ := leave_passes id (.fault (.transport reason))
              { s with network := s.network.update id ({ · with arrivals := rest }) }
            exact .inl (((passes_receive hl ha).trans hp).keeps' hr)
        · cases h
          obtain ⟨hp,hr⟩ := leave_passes id (.fault .interrupted) s
          exact .inl (hp.keeps' hr)

/-- What a move does: it keeps what is on its way, or it calls the handler. -/
theorem move_cases (h : s.move = some s') :
    Keeps s s' ∨ ∃ id client body, Calls id client body s s' := by
  unfold move at h
  cases hs : s.stage with
  | dialling =>
    rw [hs] at h
    dsimp only at h
    split at h <;> cases h
    · exact .inl (keeps_of_eq rfl rfl rfl rfl fun _ => rfl)
    · obtain ⟨hp,hr⟩ := dial_passes 0 s
      exact .inl (hp.keeps' hr)
  | hanging =>
    rw [hs] at h
    dsimp only at h
    split at h <;> cases h
    exact .inl (keeps_of_eq rfl rfl rfl rfl fun _ => rfl)
  | stopped =>
    rw [hs] at h
    cases h
  | pausing wake =>
    rw [hs] at h
    dsimp only at h
    split at h
    · cases h
      exact .inl (keeps_of_eq rfl rfl rfl rfl fun _ => rfl)
    · split at h <;> cases h
      exact .inl (keeps_of_eq rfl rfl rfl rfl fun _ => rfl)
  | handling id v e result done =>
    rw [hs] at h
    dsimp only at h
    split at h <;> cases h
    exact .inl (answer_keeps hs)
  | serving id v =>
    rw [hs] at h
    exact serve_cases hs h

/-! ## The environment -/

/-- What the broker sends to the connection is all that it may carry in addition. -/
theorem offer_passes (id : Nat) (a : Arrival) (s : State) :
    Passes id [] (match a with
      | .message frames => (Parcel.sought? s.settings.announced frames).toList
      | .failure _ => []) s (s.onNetwork (.offer id a)).2 := by
  have hs : (s.onNetwork (.offer id a)).2 =
      { s with network := (s.network.onEvent (.offer id a)).2 } := rfl
  rw [hs]
  rcases s.network.onEvent_offer id a with he | ⟨l,hl,he⟩ <;> rw [he]
  · exact Passes.more (passes_of_eq id rfl rfl rfl rfl) _
  · apply passes_update
    · intro k hk taken t
      obtain rfl : l = k := Option.some.inj (hl.symm.trans hk)
      simp only [Link.parcels, List.filterMap_append, List.count_append, List.count_nil]
      cases a with
      | failure reason => simp
      | message frames =>
        cases hg : Parcel.sought? s.settings.announced frames with
        | none => simp [hg]
        | some p =>
          simp only [hg, List.filterMap_cons, List.filterMap_nil, Option.toList_some]
          omega
    · intro _
      rfl
    · intro k hk m hm
      obtain rfl : l = k := Option.some.inj (hl.symm.trans hk)
      exact .inl hm

/-- A connection that is marked at most carries the same. -/
theorem onNetwork_passes (id : Nat) {e : Network.Event}
    (he : (s.network.onEvent e).2.links = s.network.links ∨ ∃ k f,
      (∀ l, Link.arrivals (f l) = l.arrivals) ∧ (∀ l, Link.taken (f l) = l.taken) ∧
      (s.network.onEvent e).2 = s.network.update k f) :
    Passes id [] [] s (s.onNetwork e).2 := by
  have hs : (s.onNetwork e).2 = { s with network := (s.network.onEvent e).2 } := rfl
  rw [hs]
  rcases he with he | ⟨k,f,ha,ht,he⟩
  · exact passes_of_eq id rfl rfl rfl he
  · rw [he]
    exact (passes_mark k ha ht s).at id

theorem hangUp_passes (id : Nat) (s : State) : Passes id [] [] s (s.onNetwork (.hangUp id)).2 := by
  apply onNetwork_passes
  unfold Network.onEvent
  dsimp only
  split
  · exact .inr ⟨id,fun l => { l with hungUp := true },fun _ => rfl,fun _ => rfl,rfl⟩
  · exact .inl rfl

theorem stopReading_passes (id : Nat) (s : State) :
    Passes id [] [] s (s.onNetwork (.stopReading id)).2 := by
  apply onNetwork_passes
  unfold Network.onEvent
  dsimp only
  split
  · exact .inr ⟨id,fun l => { l with reading := false },fun _ => rfl,fun _ => rfl,rfl⟩
  · exact .inl rfl

/-! ## What never changes -/

structure Continues (s s' : State) : Prop where
  settings : s'.settings = s.settings
  opened : s.network.links.length ≤ s'.network.links.length
  spoken : s.Spoken → s'.Spoken
  docked : s.Docked → s'.Docked
  counted : s.calls = s.callLog.length → s'.calls = s'.callLog.length
  logged : s.callLog <+: s'.callLog

theorem Continues.refl (s : State) : Continues s s :=
  ⟨rfl,Nat.le_refl _,fun h => h,fun h => h,fun h => h,List.prefix_refl _⟩

theorem Continues.trans (h : Continues s s') (h' : Continues s' s'') : Continues s s'' :=
  ⟨h'.settings.trans h.settings,Nat.le_trans h.opened h'.opened,fun hs => h'.spoken (h.spoken hs),
    fun hd => h'.docked (h.docked hd),fun hc => h'.counted (h.counted hc),h.logged.trans h'.logged⟩

theorem Passes.continues_of_stage {id : Nat} {qs ps : List Parcel} (h : Passes id qs ps s s')
    (hs : s'.stage = s.stage) : Continues s s' :=
  ⟨h.settings,h.opened,h.spoken,h.docked_of_stage hs,
    fun hc => h.calls.trans (hc.trans (congrArg _ h.callLog.symm)),h.callLog ▸ List.prefix_refl _⟩

theorem Keeps.continues (h : Keeps s s') : Continues s s' :=
  ⟨h.settings,h.opened,h.spoken,h.docked,
    fun hc => h.calls.trans (hc.trans (congrArg _ h.callLog.symm)),h.callLog ▸ List.prefix_refl _⟩

theorem Calls.continues {id : Nat} {client : Frame} {body : Message}
    (h : Calls id client body s s') : Continues s s' := by
  refine ⟨h.settings,h.opened,h.spoken,fun _ => h.docked,?_,h.callLog ▸ List.prefix_append ..⟩
  intro hc
  rw [h.calls, h.callLog, List.length_append, hc]
  rfl

end State
end Worker
end Majordomo
