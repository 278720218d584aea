import Majordomo.Proofs.Worker.Script

/-! # How a worker comes to leave a connection

A worker keeps the connection that it serves until it finds a reason to leave it, and what it noted
when it left shows the reason. What has arrived on the connection is heard in order, and nothing is
lost on the way.
-/
namespace Majordomo.Worker

def Entry.left? : Entry → Option (Nat × Exit)
  | .left id why => some (id,why)
  | _ => none

def Entry.heard? (id : Nat) : Entry → Option Message
  | .heard k frames => if k = id then some frames else none
  | _ => none

namespace State
variable {s s' u u' : State} {id : Nat}

def departures (s : State) : List (Nat × Exit) := s.journal.filterMap (·.2.left?)

def heard (id : Nat) (s : State) : List Message := s.journal.filterMap (·.2.heard? id)

theorem departures_log (e : Entry) (s : State) :
    (s.log e).departures = s.departures ++ e.left?.toList := by
  cases h : e.left? <;> simp [departures, log, h]

theorem heard_log (e : Entry) (s : State) :
    (s.log e).heard id = s.heard id ++ (e.heard? id).toList := by
  cases h : e.heard? id <;> simp [heard, log, h]

inductive Cause (s : State) (id : Nat) : Exit → Prop
  | stop {v : Vigil} (hs : s.stage = .serving id v) (hx : s.isStopping = true) :
    Cause s id .stopped
  | dismissal {v : Vigil} {frames : Message} {n : Network} (hs : s.stage = .serving id v)
      (hf : s.network.receive id = some (.message frames,n))
      (hb : Wire.BrokerCommand.ofFrames frames = .ok .disconnect) : Cause s id .dismissed
  | silence {v : Vigil} (hs : s.stage = .serving id v) (hf : s.network.receive id = none)
      (hw : v.waitUntil ≤ s.clock) (hl : v.liveness ≤ 1) : Cause s id .silence
  | failure {v : Vigil} {reason : String} {n : Network} (hs : s.stage = .serving id v)
      (hf : s.network.receive id = some (.failed (.transport reason),n)) :
    Cause s id (.fault (.transport reason))
  | ending {v : Vigil} {n : Network} (hs : s.stage = .serving id v)
      (hf : s.network.receive id = some (.ended,n)) : Cause s id (.fault .interrupted)
  /-- What is written does not get across. -/
  | unheard (hr : s.network.reads id = false) : Cause s id (.fault .interrupted)

/-- Since `s` the worker has taken from the connection only what it has heard there, it has left no
connection, and the far ends read as before. -/
structure Retains (id : Nat) (s u : State) : Prop where
  departures : u.departures = s.departures
  opened : u.network.links.length = s.network.links.length
  reads : ∀ k, u.network.reads k = s.network.reads k
  heard : ∃ taken, s.network.unread id = taken.map .message ++ u.network.unread id ∧
    u.heard id = s.heard id ++ taken

inductive Fate (id : Nat) (s s' : State) : Prop
  | stays (hl : s'.stage.link? = some id) (hk : Retains id s s')
  | leaves {why : Exit} (hl : s'.stage.link? = none) (hc : Cause s id why)
      (hd : s'.departures = s.departures ++ [(id,why)])
      (hr : ∀ k, s'.network.reads k = s.network.reads k)
      (hh : ∃ taken, taken.map .message <+: s.network.unread id ∧
        s'.heard id = s.heard id ++ taken)

/-! ## One move -/

theorem retains_of_eq (hj : u.journal = s.journal) (hn : u.network = s.network) :
    Retains id s u := by
  refine ⟨?_,?_,fun k => ?_,[],?_,?_⟩
  · rw [State.departures, hj, State.departures]
  · rw [hn]
  · rw [hn]
  · rw [hn]
    rfl
  · rw [State.heard, hj, List.append_nil, State.heard]

theorem Retains.stage (h : Retains id s u) (stage : Stage) : Retains id s { u with stage } :=
  ⟨h.departures,h.opened,h.reads,h.heard⟩

theorem Retains.log (h : Retains id s u) {e : Entry} (hl : e.left? = none)
    (hh : e.heard? id = none) : Retains id s (u.log e) := by
  obtain ⟨taken,hu,he⟩ := h.heard
  refine ⟨?_,h.opened,h.reads,taken,hu,?_⟩
  · rw [departures_log, hl, h.departures]
    exact List.append_nil _
  · rw [heard_log, hh, he]
    exact List.append_nil _

theorem Retains.report (h : Retains id s u) (f : Fault) : Retains id s (u.report f) :=
  Retains.log (u := { u with monitor := u.monitor.report f })
    ⟨h.departures,h.opened,h.reads,h.heard⟩ rfl rfl

theorem Retains.write (h : Retains id s u) {o : Output} (hw : u.write id o = .ok u') :
    Retains id s u' := by
  unfold State.write at hw
  cases hn : u.network.send id (o.frames u.settings.service) with
  | error f =>
    rw [hn] at hw
    cases hw
  | ok n =>
    rw [hn] at hw
    cases hw
    obtain ⟨taken,hu,hh⟩ := h.heard
    have hsent : Retains id s { u with network := n } := by
      refine ⟨h.departures,?_,fun k => ?_,taken,?_,hh⟩
      · rw [Network.links_send_length hn, h.opened]
      · rw [Network.reads_send hn, h.reads]
      · rw [Network.unread_send hn, hu]
    exact hsent.log rfl rfl

/-- The worker takes a message and notes that it has heard it. -/
theorem retains_hear {frames : Message} {n : Network}
    (hf : s.network.receive id = some (.message frames,n)) :
    Retains id s ({ s with network := n }.log (.heard id frames)) := by
  have hunread : s.network.unread id = .message frames :: n.unread id := by
    rcases Network.unread_receive hf with ⟨a,ha,hu⟩ | ⟨he,_⟩
    · cases a with
      | message m =>
        cases ha
        exact hu
      | failure reason => cases ha
    · cases he
  refine ⟨?_,Network.links_receive_length hf,Network.reads_receive hf,[frames],hunread,?_⟩
  · rw [departures_log]
    exact List.append_nil _
  · rw [heard_log]
    simp [Entry.heard?, State.heard]

theorem leave_eq (id : Nat) (why : Exit) (s : State) :
    (s.leave id why).departures = s.departures ++ [(id,why)] ∧
      (s.leave id why).heard id = s.heard id ∧ (s.leave id why).stage.link? = none ∧
      (s.leave id why).network = s.network.drop id := by
  cases why <;>
    simp [leave, State.report, State.departures, State.heard, State.log, Entry.left?, Entry.heard?,
      Stage.link?]

theorem Retains.leave (h : Retains id s u) {why : Exit} (hc : Cause s id why) :
    Fate id s (u.leave id why) := by
  obtain ⟨hd,hh,hl,hn⟩ := leave_eq id why u
  obtain ⟨taken,hu,ht⟩ := h.heard
  refine .leaves hl hc ?_ (fun k => ?_) ⟨taken,?_,?_⟩
  · rw [hd, h.departures]
  · rw [hn, Network.reads_drop, h.reads]
  · rw [hu]
    exact List.prefix_append ..
  · rw [hh, ht]

/-- The worker gives the connection up for a fault that it has received. -/
theorem leaves_of_receive {r : Received} {n : Network} {why : Exit}
    (hf : s.network.receive id = some (r,n)) (hc : Cause s id why) :
    Fate id s ({ s with network := n }.leave id why) := by
  obtain ⟨hd,hh,hl,hn⟩ := leave_eq id why { s with network := n }
  refine .leaves hl hc hd (fun k => ?_) ⟨[],List.nil_prefix,?_⟩
  · rw [hn, Network.reads_drop, Network.reads_receive hf]
  · rw [hh, List.append_nil]
    rfl

/-- What cannot be written does not get across. -/
theorem Retains.unheard (h : Retains id s u) (hid : id < s.network.links.length) {o : Output}
    {f : Fault} (hw : u.write id o = .error f) : Fate id s (u.leave id (.fault f)) := by
  obtain rfl := eq_interrupted_of_write hw
  refine h.leave (.unheard ?_)
  unfold State.write at hw
  cases hn : u.network.send id (o.frames u.settings.service) with
  | ok n =>
    rw [hn] at hw
    cases hw
  | error f =>
    rw [← h.reads]
    exact Network.not_reads_of_send hn (h.opened ▸ hid)

theorem Retains.endRound (h : Retains id s u) (hid : id < s.network.links.length) (v : Vigil) :
    Fate id s (u.endRound id v) := by
  unfold State.endRound
  split
  · split
    · rename_i u' hw
      exact .stays rfl ((h.write hw).stage _)
    · rename_i f hw
      exact h.unheard hid hw
  · exact .stays rfl (h.stage _)

theorem Retains.writeRound (h : Retains id s u) (hid : id < s.network.links.length) (o : Output)
    (v : Vigil) : Fate id s (u.writeRound id o v) := by
  unfold State.writeRound
  split
  · rename_i u' hw
    exact (h.write hw).endRound hid v
  · rename_i f hw
    exact h.unheard hid hw

theorem fate_hear {v : Vigil} {frames : Message} {n : Network} (hs : s.stage = .serving id v)
    (hid : id < s.network.links.length)
    (hf : s.network.receive id = some (.message frames,n)) :
    Fate id s ({ s with network := n }.hear id frames v) := by
  have hk := retains_hear hf
  unfold hear
  dsimp only
  cases hb : Wire.BrokerCommand.ofFrames frames with
  | error f => exact hk.endRound hid _
  | ok c =>
    cases c with
    | heartbeat => exact hk.endRound hid _
    | disconnect => exact hk.leave (.dismissal hs hf hb)
    | request e =>
      have he : Wire.requestOf? frames = some e := by simp [Wire.requestOf?, hb]
      obtain ⟨client,hc⟩ := Envelope.eq_wrap_of_depth_eq_one (Wire.depth_of_requestOf? he)
      rw [hc]
      have hcall : Retains id s
          { { s with network := n }.log (.heard id frames) with calls := s.calls + 1 } :=
        ⟨hk.departures,hk.opened,hk.reads,hk.heard⟩
      exact .stays rfl ((hcall.log rfl rfl).stage _)

theorem fate_serve {v : Vigil} (hs : s.stage = .serving id v) (hid : id < s.network.links.length)
    (h : s.serve id v = some s') : Fate id s s' := by
  have hself : Retains id s s := retains_of_eq rfl rfl
  unfold serve at h
  split at h
  · rename_i hx
    cases h
    unfold stop
    split
    · rename_i u hw
      exact (hself.write hw).leave (.stop hs hx)
    · exact hself.leave (.stop hs hx)
  · split at h
    · rename_i n notices _
      cases h
      exact (retains_of_eq rfl rfl : Retains id s { s with notices }).writeRound hid _ v
    · split at h
      · rename_i frames n hf
        cases h
        exact fate_hear hs hid hf
      · rename_i f n hf
        cases h
        refine leaves_of_receive hf ?_
        rcases Network.unread_receive hf with ⟨a,ha,_⟩ | ⟨he,_⟩
        · cases a with
          | message frames => cases ha
          | failure reason =>
            cases ha
            exact .failure hs hf
        · cases he
      · rename_i n hf
        cases h
        exact hself.leave (.ending hs hf)
      · rename_i hf
        split at h
        · rename_i hw
          cases h
          unfold pass
          split
          · rename_i hl
            exact hself.leave (.silence hs hf hw hl)
          · exact hself.endRound hid _
        · cases h

/-- A move keeps the connection that is served, or there is a reason to leave it. -/
theorem fate_move (hl : s.stage.link? = some id) (hid : id < s.network.links.length)
    (h : s.move = some s') : Fate id s s' := by
  have hself : Retains id s s := retains_of_eq rfl rfl
  unfold move at h
  split at h
  · rename_i hs
    rw [hs] at hl
    cases hl
  · rename_i hs
    rw [hs] at hl
    cases hl
  · rename_i hs
    rw [hs] at hl
    cases hl
    exact fate_serve hs hid h
  · rename_i k v e result done hs
    rw [hs] at hl
    cases hl
    split at h
    · cases h
      cases result with
      | ok body => exact hself.writeRound hid _ v
      | error f => exact (hself.report f).endRound hid v
    · cases h
  · rename_i hs
    rw [hs] at hl
    cases hl
  · rename_i hs
    cases h

end State

/-! ## One act -/

def Act.offers (id : Nat) (n : Network) : Act → List Arrival
  | .network event => n.offers id event
  | _ => []

theorem Act.offers_of_length_le {id : Nat} {n : Network} (h : n.links.length ≤ id) (a : Act) :
    a.offers id n = [] := by
  cases a with
  | network event => exact Network.offers_of_length_le h event
  | _ => rfl

namespace State
variable {s s' : State} {a : Act} {id : Nat}

structure Aloof (a : Act) (s s' : State) : Prop where
  departures : s'.departures = s.departures
  heard : ∀ k, s'.heard k = s.heard k
  unread : ∀ k, s'.network.unread k = s.network.unread k ++ a.offers k s.network
  reads : ∀ k, s'.network.reads k = true → s.network.reads k = true
  link : s'.stage.link? = s.stage.link? ∨
    s.stage.link? = none ∧ s'.stage.link? = some s.network.links.length

theorem aloof_of_eq (ha : ∀ k n, a.offers k n = []) (hj : s'.journal = s.journal)
    (hn : s'.network = s.network) (hl : s'.stage.link? = s.stage.link?) : Aloof a s s' := by
  refine ⟨?_,fun k => ?_,fun k => ?_,fun k h => ?_,.inl hl⟩
  · rw [State.departures, hj, State.departures]
  · rw [State.heard, hj, State.heard]
  · rw [ha, hn, List.append_nil]
  · rwa [hn] at h

theorem aloof_dial (ha : ∀ k n, a.offers k n = []) (hs : s.stage = .dialling) :
    Aloof a s s.dial := by
  have hlink : s.stage.link? = none := by rw [hs]; rfl
  unfold dial
  cases hm : s.network.mode with
  | accept =>
    rw [Network.dial_of_accept hm]
    dsimp only
    unfold announce write
    simp only [log, Network.send_open, Except.map]
    refine ⟨?_,fun k => ?_,fun k => ?_,fun k h => ?_,.inr ⟨hlink,rfl⟩⟩
    · simp [watch, State.departures, Entry.left?]
    · simp [watch, State.heard, Entry.heard?]
    · rw [ha, List.append_nil]
      simp only [watch, Network.unread_open]
      split
      · rename_i hk
        simp [hk, Network.unread, Network.part?, Network.link?]
      · rfl
    · simpa only [watch, Network.reads_open] using h
  | refuse =>
    rw [Network.dial_of_refuse hm]
    refine ⟨?_,fun k => ?_,fun k => ?_,fun k h => h,.inl hlink.symm⟩
    · simp [State.report, State.log, State.departures, Entry.left?]
    · simp [State.report, State.log, State.heard, Entry.heard?]
    · rw [ha, List.append_nil]
      rfl
  | hang =>
    rw [Network.dial_of_hang hm]
    refine ⟨?_,fun k => ?_,fun k => ?_,fun k h => h,.inl hlink.symm⟩
    · simp [State.log, State.departures, Entry.left?]
    · simp [State.log, State.heard, Entry.heard?]
    · rw [ha, List.append_nil]
      rfl

/-- Only a move hears anything or leaves a connection, and only that which is served. -/
theorem fate_or_aloof (a : Act)
    (hid : ∀ id, s.stage.link? = some id → id < s.network.links.length) :
    (∃ id, s.stage.link? = some id ∧ a = .move ∧ Fate id s (s.apply a)) ∨
      Aloof a s (s.apply a) := by
  cases a with
  | move =>
    simp only [apply]
    cases hm : s.move with
    | none => exact .inr (aloof_of_eq (fun _ _ => rfl) rfl rfl rfl)
    | some s' =>
      cases hl : s.stage.link? with
      | some id => exact .inl ⟨id,rfl,trivial,fate_move hl (hid id hl) hm⟩
      | none =>
        refine .inr ?_
        unfold move at hm
        split at hm
        · rename_i hs
          cases hm
          simp only [Option.getD_some]
          split
          · exact aloof_of_eq (fun _ _ => rfl) rfl rfl hl.symm
          · exact aloof_dial (fun _ _ => rfl) hs
        · split at hm
          · cases hm
            exact aloof_of_eq (fun _ _ => rfl) rfl rfl hl.symm
          · cases hm
        · rename_i hs
          rw [hs] at hl
          cases hl
        · rename_i hs
          rw [hs] at hl
          cases hl
        · split at hm
          · cases hm
            exact aloof_of_eq (fun _ _ => rfl) rfl rfl hl.symm
          · split at hm
            · cases hm
              exact aloof_of_eq (fun _ _ => rfl) rfl rfl hl.symm
            · cases hm
        · cases hm
  | persist =>
    simp only [apply, persist]
    split
    · rename_i hs
      exact .inr (aloof_dial (fun _ _ => rfl) hs)
    · rename_i hs
      split
      · exact .inr (aloof_of_eq (fun _ _ => rfl) rfl rfl (by rw [hs]; rfl))
      · exact .inr (aloof_of_eq (fun _ _ => rfl) rfl rfl rfl)
    · exact .inr (aloof_of_eq (fun _ _ => rfl) rfl rfl rfl)
  | resume =>
    simp only [apply, resume]
    split
    · rename_i hs
      exact .inr (aloof_of_eq (fun _ _ => rfl) rfl rfl (by rw [hs]; rfl))
    · exact .inr (aloof_of_eq (fun _ _ => rfl) rfl rfl rfl)
  | notice n =>
    simp only [apply, notice]
    split
    · exact .inr (aloof_of_eq (fun _ _ => rfl) rfl rfl rfl)
    · split <;> exact .inr (aloof_of_eq (fun _ _ => rfl) rfl rfl rfl)
  | tick | askStop | shutdown => exact .inr (aloof_of_eq (fun _ _ => rfl) rfl rfl rfl)
  | network e =>
    exact .inr ⟨rfl,fun _ => rfl,Network.unread_onEvent _ e,fun _ => Network.reads_of_onEvent,
      .inl rfl⟩

/-- The connection that is served is kept, or it is left for a reason. -/
theorem stays_or_leaves (a : Act)
    (hid : ∀ id, s.stage.link? = some id → id < s.network.links.length)
    (hl : s.stage.link? = some id) : (s.apply a).stage.link? = some id ∨
      ∃ why, Cause s id why ∧ (s.apply a).departures = s.departures ++ [(id,why)] := by
  rcases fate_or_aloof a hid with ⟨k,hk,_,hf⟩ | h
  · cases hk.symm.trans hl
    cases hf with
    | stays hl => exact .inl hl
    | leaves _ hc hd => exact .inr ⟨_,hc,hd⟩
  · rcases h.link with he | ⟨hn,_⟩
    · exact .inl (he.trans hl)
    · cases hn.symm.trans hl

/-- A connection is left for a reason, and no other way. -/
theorem leaves_for_cause (a : Act)
    (hid : ∀ id, s.stage.link? = some id → id < s.network.links.length) :
    (s.apply a).departures = s.departures ∨ ∃ id why, s.stage.link? = some id ∧ Cause s id why ∧
      (s.apply a).departures = s.departures ++ [(id,why)] := by
  rcases fate_or_aloof a hid with ⟨id,hl,_,hf⟩ | h
  · cases hf with
    | stays _ hk => exact .inl hk.departures
    | leaves _ hc hd => exact .inr ⟨id,_,hl,hc,hd⟩
  · exact .inl h.departures

theorem reads_of_apply (hid : ∀ id, s.stage.link? = some id → id < s.network.links.length) {k : Nat}
    (h : (s.apply a).network.reads k = true) : s.network.reads k = true := by
  rcases fate_or_aloof a hid with ⟨id,hl,_,hf⟩ | h'
  · cases hf with
    | stays _ hk => rwa [hk.reads] at h
    | leaves _ _ _ hr => rwa [hr] at h
  · exact h'.reads k h

theorem Told.lt {st : Standing} (h : Told st s) (hid : s.stage.link? = some id) :
    id < s.network.links.length := by
  have he := congrArg Standing.opened (h.engaged hid)
  rw [← h.opened, he]
  exact Nat.lt_succ_self id

end State
end Majordomo.Worker
