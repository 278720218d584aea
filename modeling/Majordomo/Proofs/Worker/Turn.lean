import Majordomo.Worker.Session
import Majordomo.Proofs.Link
import Majordomo.Proofs.Wire.Reading

/-! # What a worker can do in one move

A move of a worker notes what it does in the journal, and the notes tell of all that it does to
the connections and the reports (`Adds`). `Turn` lists what a move can note and where it leaves
the worker; what is shown of runs rests on this list.
-/
namespace Majordomo

theorem Network.eq_interrupted_of_send {n : Network} {id : Nat} {m : Message} {f : Fault}
    (h : n.send id m = .error f) : f = .interrupted := by
  unfold send at h
  split at h
  · exact (Except.error.inj h).symm
  · unfold Link.write at h
    split at h
    · cases h
    · exact (Except.error.inj h).symm

/-- A receive fails only in a way that is dealt with where it arises. -/
theorem Network.recoverable_of_receive {n n' : Network} {id : Nat} {f : Fault}
    (h : n.receive id = some (.failed f,n')) : f.isRecoverable = true := by
  rcases unread_receive h with ⟨a,ha,_⟩ | ⟨he,_⟩
  · cases a with
    | message frames => cases ha
    | failure reason =>
      cases ha
      rfl
  · cases he

namespace Worker

/-! ## The entries of a journal -/

def Entry.wrote? (id : Nat) : Entry → Option Output
  | .wrote k o => if k = id then some o else none
  | _ => none

def Entry.reported? : Entry → Option Fault
  | .reported f => some f
  | _ => none

theorem Entry.wrote?_eq_some {id : Nat} {e : Entry} {o : Output} :
    e.wrote? id = some o ↔ e = .wrote id o := by
  cases e with
  | wrote k o' =>
    simp only [wrote?, Option.ite_none_right_eq_some, Option.some.injEq, Entry.wrote.injEq]
  | _ => simp [wrote?]

theorem Entry.reported?_eq_some {e : Entry} {f : Fault} :
    e.reported? = some f ↔ e = .reported f := by
  cases e <;> simp [reported?]

def Entry.isOpened : Entry → Bool
  | .opened _ => true
  | _ => false

def Stage.link? : Stage → Option Nat
  | .serving id _ | .handling id .. => some id
  | _ => none

namespace State
variable {s s' s'' : State}

/-- The worker notes `es` at once, and does what they say and nothing else to its connections. -/
structure Adds (es : List Entry) (s s' : State) : Prop where
  settings : s'.settings = s.settings
  clock : s'.clock = s.clock
  stopAsked : s'.stopAsked = s.stopAsked
  journal : s'.journal = s.journal ++ es.map (s.clock,·)
  monitor : s'.monitor = (es.filterMap Entry.reported?).foldl (fun m f => m.report f) s.monitor
  opened : s'.network.links.length = s.network.links.length + es.countP Entry.isOpened
  taken : ∀ n, s'.network.takenBy n = s.network.takenBy n ++
    (es.filterMap (Entry.wrote? n)).map (·.frames s.settings.service)

theorem Adds.trans {es es' : List Entry} (h : Adds es s s') (h' : Adds es' s' s'') :
    Adds (es ++ es') s s'' := by
  refine ⟨h'.settings.trans h.settings,h'.clock.trans h.clock,h'.stopAsked.trans h.stopAsked,
    ?_,?_,?_,?_⟩
  · rw [h'.journal, h.journal, h.clock, List.map_append, List.append_assoc]
  · rw [h'.monitor, h.monitor, List.filterMap_append, List.foldl_append]
  · rw [h'.opened, h.opened, List.countP_append, Nat.add_assoc]
  · intro n
    rw [h'.taken, h.taken, h.settings, List.filterMap_append, List.map_append, List.append_assoc]

/-- A change of the parts on which nothing of this depends. -/
theorem adds_of_eq (hs : s'.settings = s.settings) (hc : s'.clock = s.clock)
    (ha : s'.stopAsked = s.stopAsked) (hj : s'.journal = s.journal) (hm : s'.monitor = s.monitor)
    (hl : s'.network.links.length = s.network.links.length)
    (ht : ∀ n, s'.network.takenBy n = s.network.takenBy n) : Adds [] s s' :=
  ⟨hs,hc,ha,hj.trans (List.append_nil _).symm,hm,hl,
    fun n => (ht n).trans (List.append_nil _).symm⟩

theorem adds_stage (stage : Stage) (s : State) : Adds [] s { s with stage } :=
  adds_of_eq rfl rfl rfl rfl rfl rfl fun _ => rfl

theorem adds_notices (notices : List Notice) (s : State) : Adds [] s { s with notices } :=
  adds_of_eq rfl rfl rfl rfl rfl rfl fun _ => rfl

/-- An entry that tells of no connection and no report. -/
theorem adds_log {e : Entry} (hr : e.reported? = none) (ho : e.isOpened = false)
    (hw : ∀ n, e.wrote? n = none) (s : State) : Adds [e] s (s.log e) := by
  refine ⟨rfl,rfl,rfl,rfl,?_,?_,fun n => ?_⟩
  · simp [log, hr]
  · simp [log, ho]
  · simp [log, hw n]

theorem adds_report (f : Fault) (s : State) : Adds [.reported f] s (s.report f) := by
  refine ⟨rfl,rfl,rfl,rfl,?_,?_,fun n => ?_⟩
  · simp [State.report, log, Entry.reported?]
  · simp [State.report, log, Entry.isOpened]
  · simp [State.report, log, Entry.wrote?]

theorem adds_drop (id : Nat) (s : State) : Adds [] s { s with network := s.network.drop id } :=
  adds_of_eq rfl rfl rfl rfl rfl (by simp [Network.drop, Network.dropSink, Network.dropStream])
    fun n => s.network.takenBy_drop id n

theorem adds_receive {id : Nat} {r : Received} {n : Network}
    (h : s.network.receive id = some (r,n)) : Adds [] s { s with network := n } :=
  adds_of_eq rfl rfl rfl rfl rfl (Network.links_receive_length h) (Network.takenBy_receive h)

theorem adds_write {id : Nat} {o : Output} (h : s.write id o = .ok s') :
    Adds [.wrote id o] s s' ∧ s'.stage = s.stage := by
  unfold write at h
  cases hn : s.network.send id (o.frames s.settings.service) with
  | error f =>
    rw [hn] at h
    cases h
  | ok n =>
    rw [hn] at h
    cases h
    refine ⟨⟨rfl,rfl,rfl,rfl,rfl,Network.links_send_length hn,fun k => ?_⟩,rfl⟩
    rw [show (State.log (.wrote id o) { s with network := n }).network = n from rfl,
      Network.takenBy_send hn]
    by_cases hk : k = id
    · simp [Entry.wrote?, hk]
    · have hne : ¬ id = k := fun e => hk e.symm
      simp [Entry.wrote?, hk, hne]

theorem eq_interrupted_of_write {id : Nat} {o : Output} {f : Fault}
    (h : s.write id o = .error f) : f = .interrupted := by
  unfold write at h
  cases hn : s.network.send id (o.frames s.settings.service) with
  | error g =>
    rw [hn] at h
    cases h
    exact Network.eq_interrupted_of_send hn
  | ok n =>
    rw [hn] at h
    cases h

theorem adds_left (id : Nat) (why : Exit) (s : State) :
    Adds [.left id why] s ({ s with network := s.network.drop id }.log (.left id why)) :=
  (adds_drop id s).trans (adds_log rfl rfl (fun _ => rfl) _)

theorem adds_leave_fault (id : Nat) (f : Fault) (s : State) :
    Adds [.left id (.fault f),.reported f] s (s.leave id (.fault f)) :=
  ((adds_left id (.fault f) s).trans (adds_report f _)).trans (adds_stage _ _)

/-- The worker gives the connection up without a report. -/
theorem adds_leave {why : Exit} (h : ∀ f, why ≠ .fault f) (id : Nat) (s : State) :
    Adds [.left id why] s (s.leave id why) := by
  cases why with
  | fault f => exact absurd rfl (h f)
  | stopped | dismissed | silence => exact (adds_left id _ s).trans (adds_stage _ _)

end State

/-! ## Rounds -/

inductive RoundEnd (c : Settings) (now id : Nat) (v : Vigil) : List Entry → Stage → Prop
  | rest (h : now < v.heartbeatAt) :
    RoundEnd c now id v [] (.serving id { v with waitUntil := now + c.period })
  | beat (h : v.heartbeatAt ≤ now) :
    RoundEnd c now id v [.wrote id .heartbeat]
      (.serving id ⟨v.liveness,now + c.period,now + c.period⟩)
  /-- The sign of life cannot be given. -/
  | sever (h : v.heartbeatAt ≤ now) :
    RoundEnd c now id v [.left id (.fault .interrupted),.reported .interrupted]
      (.pausing (now + c.delay))

inductive Turn (s : State) : List Entry → Stage → Prop
  /-- The worker stops while it has no connection. -/
  | halt (hs : s.stage.link? = none) (hx : s.isStopping = true) : Turn s [] .stopped
  | connect (hs : s.stage = .dialling) (hm : s.network.mode = .accept) :
    Turn s
      [.dialled,.opened s.network.links.length,.wrote s.network.links.length .ready]
      (.serving s.network.links.length
        ⟨s.settings.liveness,s.clock + s.settings.period,s.clock + s.settings.period⟩)
  | refuse (hs : s.stage = .dialling) (hm : s.network.mode = .refuse) :
    Turn s [.dialled,.reported (.refused s.settings.address)]
      (.pausing (s.clock + s.settings.delay))
  | hang (hs : s.stage = .dialling) (hm : s.network.mode = .hang) : Turn s [.dialled] .hanging
  | wake {wake : Nat} (hs : s.stage = .pausing wake) (hw : wake ≤ s.clock) : Turn s [] .dialling
  | stop {id : Nat} {v : Vigil} (hs : s.stage = .serving id v) (hx : s.isStopping = true) :
    Turn s [.wrote id .disconnect,.left id .stopped] .stopped
  /-- The worker stops and cannot tell the broker. -/
  | vanish {id : Nat} {v : Vigil} (hs : s.stage = .serving id v) (hx : s.isStopping = true) :
    Turn s [.left id .stopped] .stopped
  | notify {id : Nat} {v : Vigil} {n : Notice} {notices : List Notice} {es : List Entry}
      {t : Stage} (hs : s.stage = .serving id v) (hx : s.isStopping = false)
      (hn : s.notices = n :: notices) (hr : RoundEnd s.settings s.clock id v es t) :
    Turn s (.wrote id (.shutdown n) :: es) t
  /-- What the broker says calls for nothing, or cannot be read. -/
  | hear {id : Nat} {v : Vigil} {frames : Message} {n : Network} {es : List Entry} {t : Stage}
      (hs : s.stage = .serving id v) (hx : s.isStopping = false)
      (hf : s.network.receive id = some (.message frames,n))
      (hb : Wire.BrokerCommand.ofFrames frames = .ok .heartbeat ∨
        ∃ f, Wire.BrokerCommand.ofFrames frames = .error f)
      (hr : RoundEnd s.settings s.clock id { v with liveness := s.settings.liveness } es t) :
    Turn s (.heard id frames :: es) t
  | call {id : Nat} {v : Vigil} {frames : Message} {n : Network} {client : Frame}
      {body : Message} (hs : s.stage = .serving id v) (hx : s.isStopping = false)
      (hf : s.network.receive id = some (.message frames,n))
      (hb : Wire.BrokerCommand.ofFrames frames =
        .ok (.request ((Envelope.ofBody body).wrap client))) :
    Turn s [.heard id frames,.called client body]
      (.handling id { v with liveness := s.settings.liveness }
        ((Envelope.ofBody body).wrap client) (s.settings.handler s.calls client body).result
        (s.clock + (s.settings.handler s.calls client body).delay))
  | dismiss {id : Nat} {v : Vigil} {frames : Message} {n : Network}
      (hs : s.stage = .serving id v) (hx : s.isStopping = false)
      (hf : s.network.receive id = some (.message frames,n))
      (hb : Wire.BrokerCommand.ofFrames frames = .ok .disconnect) :
    Turn s [.heard id frames,.left id .dismissed] (.pausing (s.clock + s.settings.delay))
  | silence {id : Nat} {v : Vigil} (hs : s.stage = .serving id v) (hx : s.isStopping = false)
      (hw : v.waitUntil ≤ s.clock) (hl : v.liveness ≤ 1) :
    Turn s [.left id .silence] (.pausing (s.clock + s.settings.delay))
  | pass {id : Nat} {v : Vigil} {es : List Entry} {t : Stage} (hs : s.stage = .serving id v)
      (hx : s.isStopping = false) (hw : v.waitUntil ≤ s.clock) (hl : 1 < v.liveness)
      (hr : RoundEnd s.settings s.clock id { v with liveness := v.liveness - 1 } es t) :
    Turn s es t
  | reply {id done : Nat} {v : Vigil} {e : Envelope} {body : Message} {es : List Entry}
      {t : Stage} (hs : s.stage = .handling id v e (.ok body) done) (hd : done ≤ s.clock)
      (hr : RoundEnd s.settings s.clock id v es t) :
    Turn s (.wrote id (.reply (e.withBody body)) :: es) t
  /-- The handler has no answer. -/
  | fail {id done : Nat} {v : Vigil} {e : Envelope} {f : Fault} {es : List Entry} {t : Stage}
      (hs : s.stage = .handling id v e (.error f) done) (hd : done ≤ s.clock)
      (hr : RoundEnd s.settings s.clock id v es t) :
    Turn s (.reported f :: es) t
  /-- The connection breaks. -/
  | sever {id : Nat} {f : Fault} (hs : s.stage.link? = some id) (hf : f.isRecoverable = true) :
    Turn s [.left id (.fault f),.reported f] (.pausing (s.clock + s.settings.delay))

namespace State
variable {s s' : State} {id : Nat} {v : Vigil}

theorem endRound_adds (id : Nat) (v : Vigil) (s : State) :
    ∃ es, Adds es s (s.endRound id v) ∧
      RoundEnd s.settings s.clock id v es (s.endRound id v).stage := by
  unfold endRound
  split
  · rename_i hb
    split
    · rename_i s' hw
      obtain ⟨ha,_⟩ := adds_write hw
      refine ⟨_,ha.trans (adds_stage _ s'),?_⟩
      have hr : RoundEnd s.settings s.clock id v [.wrote id .heartbeat] _ := .beat hb
      simpa only [watch, ha.settings, ha.clock, List.append_nil] using hr
    · rename_i f hw
      obtain rfl := eq_interrupted_of_write hw
      exact ⟨_,adds_leave_fault id _ s,.sever hb⟩
  · rename_i hb
    exact ⟨[],adds_stage _ s,.rest (Nat.lt_of_not_le hb)⟩

/-- The end of a round that began with `es`. -/
theorem Adds.endRound {es : List Entry} (h : Adds es s s') (id : Nat) (v : Vigil) :
    ∃ es', Adds (es ++ es') s (s'.endRound id v) ∧
      RoundEnd s.settings s.clock id v es' (s'.endRound id v).stage := by
  obtain ⟨es',ha,hr⟩ := endRound_adds id v s'
  rw [h.settings, h.clock] at hr
  exact ⟨es',h.trans ha,hr⟩

theorem writeRound_adds {es : List Entry} (h : Adds es s s') (id : Nat) (o : Output)
    (v : Vigil) :
    (∃ es', Adds (es ++ .wrote id o :: es') s (s'.writeRound id o v) ∧
      RoundEnd s.settings s.clock id v es' (s'.writeRound id o v).stage) ∨
    Adds (es ++ [.left id (.fault .interrupted),.reported .interrupted]) s
        (s'.writeRound id o v) ∧
      (s'.writeRound id o v).stage = .pausing (s.clock + s.settings.delay) := by
  unfold writeRound
  split
  · rename_i u hw
    obtain ⟨es',ha,hr⟩ := (h.trans (adds_write hw).1).endRound id v
    rw [List.append_assoc] at ha
    exact .inl ⟨es',ha,hr⟩
  · rename_i f hw
    obtain rfl := eq_interrupted_of_write hw
    refine .inr ⟨h.trans (adds_leave_fault id _ s'),?_⟩
    rw [← h.clock, ← h.settings]
    rfl

theorem dial_adds (hs : s.stage = .dialling) :
    ∃ es, Adds es s s.dial ∧ Turn s es s.dial.stage := by
  unfold dial
  cases hm : s.network.mode with
  | accept =>
    rw [Network.dial_of_accept hm]
    dsimp only
    unfold announce write
    simp only [log, Network.send_open, Except.map]
    refine ⟨_,⟨rfl,rfl,rfl,?_,rfl,?_,fun n => ?_⟩,.connect hs hm⟩
    · simp [watch]
    · simp [watch, List.countP_cons, Entry.isOpened]
    · by_cases hn : n = s.network.links.length
      · subst hn
        simp [watch, Network.takenBy_open, Network.takenBy_length, List.filterMap_cons,
          Entry.wrote?]
      · have hne : ¬ s.network.links.length = n := fun e => hn e.symm
        simp [watch, Network.takenBy_open, List.filterMap_cons, Entry.wrote?, hn, hne]
  | refuse =>
    rw [Network.dial_of_refuse hm]
    exact ⟨_,((adds_log rfl rfl (fun _ => rfl) s).trans (adds_report _ _)).trans (adds_stage _ _),
      .refuse hs hm⟩
  | hang =>
    rw [Network.dial_of_hang hm]
    exact ⟨_,(adds_log rfl rfl (fun _ => rfl) s).trans (adds_stage _ _),.hang hs hm⟩

theorem call_adds (id : Nat) (v : Vigil) (client : Frame) (body : Message) (s : State) :
    Adds [.called client body] s (s.call id v ((Envelope.ofBody body).wrap client)) := by
  have hc : Adds [] s { s with calls := s.calls + 1 } :=
    adds_of_eq rfl rfl rfl rfl rfl rfl fun _ => rfl
  exact (hc.trans (adds_log rfl rfl (fun _ => rfl) _)).trans (adds_stage _ _)

/-- The worker takes a message of the broker. -/
theorem turn_hear {frames : Message} {n : Network} (hs : s.stage = .serving id v)
    (hx : s.isStopping = false) (hf : s.network.receive id = some (.message frames,n)) :
    ∃ es, Adds es s ({ s with network := n }.hear id frames v) ∧
      Turn s es ({ s with network := n }.hear id frames v).stage := by
  have h : Adds [.heard id frames] s ({ s with network := n }.log (.heard id frames)) :=
    (adds_receive hf).trans (adds_log rfl rfl (fun _ => rfl) _)
  unfold hear
  dsimp only
  cases hb : Wire.BrokerCommand.ofFrames frames with
  | error f =>
    obtain ⟨es,ha,hr⟩ := h.endRound id { v with liveness := s.settings.liveness }
    exact ⟨_,ha,.hear hs hx hf (.inr ⟨f,hb⟩) hr⟩
  | ok c =>
    cases c with
    | heartbeat =>
      obtain ⟨es,ha,hr⟩ := h.endRound id { v with liveness := s.settings.liveness }
      exact ⟨_,ha,.hear hs hx hf (.inl hb) hr⟩
    | disconnect =>
      exact ⟨_,h.trans (adds_leave (by simp) id _),.dismiss hs hx hf hb⟩
    | request e =>
      have he : Wire.requestOf? frames = some e := by simp [Wire.requestOf?, hb]
      obtain ⟨client,hc⟩ := Envelope.eq_wrap_of_depth_eq_one (Wire.depth_of_requestOf? he)
      rw [hc] at hb ⊢
      exact ⟨_,h.trans (call_adds ..),.call hs hx hf hb⟩

theorem turn_serve (hs : s.stage = .serving id v) (h : s.serve id v = some s') :
    ∃ es, Adds es s s' ∧ Turn s es s'.stage := by
  unfold serve at h
  split at h
  · rename_i hx
    cases h
    unfold stop
    split
    · rename_i u hw
      exact ⟨_,(adds_write hw).1.trans (adds_leave (by simp) id u),.stop hs hx⟩
    · exact ⟨_,adds_leave (by simp) id s,.vanish hs hx⟩
  · rename_i hx
    have hx : s.isStopping = false := by simpa using hx
    have hlink : s.stage.link? = some id := by rw [hs]; rfl
    split at h
    · rename_i n notices hn
      cases h
      rcases writeRound_adds (adds_notices notices s) id (.shutdown n) v with
        ⟨es,ha,hr⟩ | ⟨ha,ht⟩
      · exact ⟨_,ha,.notify hs hx hn hr⟩
      · rw [ht]
        exact ⟨_,ha,.sever hlink rfl⟩
    · split at h
      · rename_i frames n hf
        cases h
        exact turn_hear hs hx hf
      · rename_i f n hf
        cases h
        exact ⟨_,(adds_receive hf).trans (adds_leave_fault id f _),
          .sever hlink (Network.recoverable_of_receive hf)⟩
      · cases h
        exact ⟨_,adds_leave_fault id _ s,.sever hlink rfl⟩
      · split at h
        · rename_i hw
          cases h
          unfold pass
          split
          · rename_i hl
            exact ⟨_,adds_leave (by simp) id s,.silence hs hx hw hl⟩
          · rename_i hl
            obtain ⟨es,ha,hr⟩ := endRound_adds id { v with liveness := v.liveness - 1 } s
            exact ⟨es,ha,.pass hs hx hw (Nat.lt_of_not_le hl) hr⟩
        · cases h

theorem turn_answer {e : Envelope} {result : Except Fault Message} {done : Nat}
    (hs : s.stage = .handling id v e result done) (hd : done ≤ s.clock) :
    ∃ es, Adds es s (s.answer id v e result) ∧ Turn s es (s.answer id v e result).stage := by
  have hlink : s.stage.link? = some id := by rw [hs]; rfl
  cases result with
  | ok body =>
    rcases writeRound_adds (adds_notices s.notices s) id (.reply (e.withBody body)) v with
      ⟨es,ha,hr⟩ | ⟨ha,ht⟩
    · exact ⟨_,ha,.reply hs hd hr⟩
    · refine ⟨_,ha,?_⟩
      have hsever := Turn.sever (f := .interrupted) hlink rfl
      rw [← ht] at hsever
      exact hsever
  | error f =>
    obtain ⟨es,ha,hr⟩ := (adds_report f s).endRound id v
    exact ⟨_,ha,.fail hs hd hr⟩

theorem turn_move (h : s.move = some s') : ∃ es, Adds es s s' ∧ Turn s es s'.stage := by
  unfold move at h
  split at h
  · rename_i hs
    cases h
    split
    · rename_i hx
      exact ⟨_,adds_stage _ s,.halt (by rw [hs]; rfl) hx⟩
    · exact dial_adds hs
  · rename_i hs
    split at h
    · rename_i hx
      cases h
      exact ⟨_,adds_stage _ s,.halt (by rw [hs]; rfl) hx⟩
    · cases h
  · rename_i hs
    exact turn_serve hs h
  · rename_i hs
    split at h
    · rename_i hd
      cases h
      exact turn_answer hs hd
    · cases h
  · rename_i hs
    split at h
    · rename_i hx
      cases h
      exact ⟨_,adds_stage _ s,.halt (by rw [hs]; rfl) hx⟩
    · split at h
      · rename_i hw
        cases h
        exact ⟨_,adds_stage _ s,.wake hs hw⟩
      · cases h
  · cases h

end State
end Worker
end Majordomo
