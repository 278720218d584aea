import Majordomo.Proofs.Client.Standing

/-! # The threads of a client session

In a run every act is done before the next one begins, and every write finds room on its
connection. The threads of a session may come between each other, and a far end may stop making
room. A send looks for an episode, asks for one if there is none, and then queues its message. An
episode that is over leaves its place in the session before anybody is told and before it is
decided what follows. A sender has the message that it takes in hand until it is written, and looks
at nothing else while the write waits for room. An episode that begins takes the place of one that
is there.

A course is any sequence of what is done in this way. What is done without interruption makes a
whole course, and every run is one.
-/
namespace Majordomo.Client

/-- What a thread is about to do that was interrupted. -/
inductive Errand
  | announce (connectFailed : Bool)
  | judge (connectFailed : Bool)
  /-- It asks for an episode, and if it sends a message it queues that next. -/
  | rearm (message : Option (Nat × Outbound))
  | enqueue (ticket : Nat) (o : Outbound)
deriving DecidableEq

structure Threads where
  session : State
  /-- Episodes that have lost their place in the session, but whose tasks go on. -/
  strays : List Episode := []
  /-- What the sender has taken from the queue and has not written yet. -/
  hand : Option Outbound := none
  /-- Connections on which the far end leaves no room. -/
  full : List Nat := []
  errands : List Errand := []

inductive Deed
  | act (a : Act)
  /-- A task of an episode moves, of a stray one or of that in the session. -/
  | turn (stray : Option Nat) (t : State.Task)
  | overlook (stray : Option Nat)
  /-- The watchdog expires though it is told to stop. -/
  | misfire (stray : Option Nat)
  /-- The first part of a send, whose reply may be to be ignored. -/
  | look (ignoring : Bool) (ticket : Nat) (o : Outbound)
  | resume (errand : Nat) (inRuntime : Bool)
  | fill (id : Nat)
  | drain (id : Nat)
deriving DecidableEq

/-- It is done without interruption. -/
def Deed.isWhole : Deed → Bool
  | .act _ | .fill _ | .drain _ => true
  | .turn .. | .overlook _ | .misfire _ | .look .. | .resume .. => false

def Deed.accepts (id : Nat) : Deed :=
  .act (.network (.offer id (.message (Wire.clientMessage (.ofText "session-manager")
    [.ofText "[\"SESSION_INITIATED\",\"client-1\"]"]))))

namespace State

/-- The watchdog does not see that it is told to stop. -/
def misfireTurn (e : Episode) (s : State) : Option (State × Episode) :=
  match e.sender with
  | .awaiting manager deadline false =>
    if deadline ≤ s.clock then some (s.expire manager deadline e) else none
  | _ => none

def judge (connectFailed : Bool) (s : State) : State × Bool :=
  let s := { s with closing := s.closing || s.isCancelled }
  if s.closing then (s.finishDestroy,false)
  else if connectFailed && !s.sendRequested then (s,false)
  else (if connectFailed then { s with sendRequested := false } else s,true)

def enqueue (ticket : Nat) (o : Outbound) (s : State) : State :=
  if s.waiting.isEmpty && s.hasRoom then s.push o
  else { s with waiting := s.waiting ++ [(ticket,o)] }

/-- An errand is done; another may be next. A task asks for an episode in the runtime. -/
def attend (inRuntime : Bool) (s : State) : Errand → State × Option Errand
  | .announce failed => (s.emit .disconnected,some (.judge failed))
  | .judge failed =>
    let (s,again) := s.judge failed
    (s,if again then some (.rearm none) else none)
  | .rearm none => (s.reconnect,none)
  | .rearm (some (ticket,o)) => (s.schedule inRuntime,some (.enqueue ticket o))
  | .enqueue ticket o => (s.enqueue ticket o,none)

end State

namespace Threads

def start (c : Settings) (m : Mode) (monitor : Monitor) (listener : Option Nat) : Threads :=
  { session := State.start c m monitor listener }

/-- A write that cannot be made fails, and does not wait. -/
def hasRoom (id : Nat) (th : Threads) : Bool :=
  !th.full.contains id || (th.session.network.link? id).all (!·.reading)

/-- The sender writes what it has in hand, or else looks whether to stop and takes one more. -/
def forward (manager : Nat) (session : Option Nat) (e : Episode) (th : Threads) :
    Option (Option Outbound × State × Episode) :=
  let s := th.session
  match th.hand with
  | some o =>
    if th.hasRoom (s.route manager session o.target) then some (none,s.put manager session o e)
    else none
  | none =>
    if s.isStopped e then some (none,s.endForwarding manager session e)
    else match s.queue with
      | [] => none
      | o :: queue => some (some o,{ s with queue }.log (.taken o),e)

def turn (t : State.Task) (e : Episode) (th : Threads) :
    Option (Option Outbound × State × Episode) :=
  match t with
  | .sender =>
    match e.sender with
    | .forwarding manager session => th.forward manager session e
    | _ => (th.session.senderTurn e).map (th.hand,·)
  | .receiver => (th.session.receiverTurn e).map (th.hand,·)
  | .watchdog => (th.session.watchdogTurn e).map (th.hand,·)
  | .reconnect | .admission => none

/-- An episode that begins takes the place of the one that is there. -/
def revive (th : Threads) : Option Threads :=
  if th.session.reconnectDue then
    let s := { th.session with
      reconnectDue := false, releasePhase := th.session.releasePhase.next .finished }
    some { th with
      session := s.execute
      strays := th.strays ++ if s.canExecute then s.episode.toList else [] }
  else none

def move (t : State.Task) (th : Threads) : Option Threads :=
  match t with
  | .reconnect => th.revive
  | .admission => th.session.admissionMove.map fun session => { th with session }
  | t =>
    match th.session.episode with
    | none => none
    | some e =>
      (th.turn t e).map fun (hand,s,e) => { th with hand, session := s.settleEpisode e }

/-! ## Where others may come in -/

def crew? (stray : Option Nat) (th : Threads) : Option Episode :=
  match stray with
  | none => th.session.episode
  | some i => th.strays[i]?

/-- Puts an episode back after a turn. One that is over clears the place in the session, whoever
has it. -/
def settle (stray : Option Nat) (s : State) (e : Episode) (th : Threads) : Threads :=
  match stray with
  | none =>
    if e.inUse = 0 then
      { th with
        session := { s with episode := none }
        errands := th.errands ++ [.announce e.connectFailed] }
    else { th with session := { s with episode := some e } }
  | some i =>
    if e.inUse = 0 then
      { th with
        session := { s with episode := none }
        strays := th.strays.eraseIdx i ++ s.episode.toList
        errands := th.errands ++ [.announce (s.episode.any (·.connectFailed))] }
    else { th with session := s, strays := th.strays.set i e }

/-- A task of an episode takes its turn, and others may come in before what follows from that. -/
def within (stray : Option Nat)
    (turn : Episode → Threads → Option (Option Outbound × State × Episode)) (th : Threads) :
    Threads :=
  match (th.crew? stray).bind (turn · th) with
  | some (hand,s,e) => { th with hand }.settle stray s e
  | none => th

def look (ignoring : Bool) (ticket : Nat) (o : Outbound) (th : Threads) : Threads :=
  let s := { th.session with suppressNext := ignoring || th.session.suppressNext }
  if s.closing then { th with session := s }
  else
    let errand := if s.isIdle then .rearm (some (ticket,o)) else .enqueue ticket o
    { th with session := { s with sendRequested := true }, errands := th.errands ++ [errand] }

def resume (i : Nat) (inRuntime : Bool) (th : Threads) : Threads :=
  match th.errands[i]? with
  | none => th
  | some errand =>
    let (session,next) := th.session.attend inRuntime errand
    { th with session, errands := th.errands.eraseIdx i ++ next.toList }

def perform (th : Threads) : Deed → Threads
  | .act (.move t) => (th.move t).getD th
  | .act a => { th with session := th.session.apply a }
  | .turn stray t => th.within stray (turn t)
  | .overlook stray => th.within stray fun e th => (th.session.overlookTurn e).map (th.hand,·)
  | .misfire stray => th.within stray fun e th => (th.session.misfireTurn e).map (th.hand,·)
  | .look ignoring ticket o => th.look ignoring ticket o
  | .resume i inRuntime => th.resume i inRuntime
  | .fill id => { th with full := id :: th.full }
  | .drain id => { th with full := th.full.filter (· ≠ id) }

def course (th : Threads) (deeds : List Deed) : Threads := deeds.foldl perform th

def isQuiescent (th : Threads) : Bool :=
  th.errands.isEmpty &&
    [State.Task.sender, .receiver, .watchdog, .reconnect, .admission].all
      (fun t => (th.move t).isNone) &&
    th.strays.all fun e =>
      [State.Task.sender, .receiver, .watchdog].all fun t => (th.turn t e).isNone

/-- A task of the episode takes its turn, or a reconnect is made, or a send gets in. -/
theorem move_cases {th th' : Threads} {task : State.Task} (hm : th.move task = some th') :
    (∃ e hand t e', th.session.episode = some e ∧ th.turn task e = some (hand,t,e') ∧
      th' = { th with hand, session := t.settleEpisode e' }) ∨
    (task = .reconnect ∧ th.revive = some th') ∨
    (task = .admission ∧ ∃ s, th.session.admissionMove = some s ∧
      th' = { th with session := s }) := by
  cases task with
  | sender | receiver | watchdog =>
    refine .inl ?_
    unfold move at hm
    dsimp only at hm
    split at hm
    · cases hm
    · rename_i e he
      obtain ⟨⟨hand,t,e'⟩,ht,rfl⟩ := Option.map_eq_some_iff.mp hm
      exact ⟨e,hand,t,e',he,ht,rfl⟩
  | reconnect => exact .inr (.inl ⟨rfl,hm⟩)
  | admission =>
    obtain ⟨s,hs,rfl⟩ := Option.map_eq_some_iff.mp hm
    exact .inr (.inr ⟨rfl,s,hs,rfl⟩)

theorem perform_act (a : Act) (th : Threads) :
    (∃ task, a = .move task) ∨
      th.perform (.act a) = { th with session := th.session.apply a } := by
  cases a with
  | move task => exact .inl ⟨task,rfl⟩
  | _ => exact .inr rfl

theorem course_cons (th : Threads) (d : Deed) (deeds : List Deed) :
    th.course (d :: deeds) = (th.perform d).course deeds := rfl

theorem course_append (th : Threads) (deeds more : List Deed) :
    th.course (deeds ++ more) = (th.course deeds).course more := List.foldl_append ..

end Threads

/-! ## The parts of what is done without interruption -/

namespace State
variable {s : State}

theorem conclude_eq (failed : Bool) (s : State) :
    s.conclude failed =
      if ((s.emit .disconnected).judge failed).2 then
        ((s.emit .disconnected).judge failed).1.reconnect
      else ((s.emit .disconnected).judge failed).1 := by
  unfold conclude judge
  dsimp only
  split
  · rfl
  · split
    · rfl
    · cases failed <;> rfl

theorem send_of_open (hc : s.closing = false) (ticket : Nat) (o : Outbound) :
    (s.send ticket o).2 = s.requestSend.enqueue ticket o := by
  unfold send trySend enqueue
  rw [if_neg (Bool.eq_false_iff.mp hc)]
  dsimp only
  cases hq : s.requestSend.waiting.isEmpty && s.requestSend.hasRoom <;> simp

end State

namespace Threads
variable {inRuntime : Bool}

theorem course_resume (x : Errand) (th : Threads) (deeds : List Deed) :
    course { th with errands := [x] } (.resume 0 inRuntime :: deeds) =
      course { th with
        session := (th.session.attend inRuntime x).1
        errands := (th.session.attend inRuntime x).2.toList } deeds := rfl

theorem course_resume_nil (th : Threads) (deeds : List Deed) :
    course { th with errands := [] } (.resume 0 inRuntime :: deeds) =
      course { th with errands := [] } deeds := rfl

/-- What follows from the end of an episode, part by part. -/
theorem course_announce (failed : Bool) (th : Threads) :
    course { th with errands := [.announce failed] }
        [.resume 0 true, .resume 0 true, .resume 0 true] =
      { th with session := th.session.conclude failed, errands := [] } := by
  rw [State.conclude_eq, course_resume]
  dsimp only [State.attend, Option.toList]
  rw [course_resume _ { th with session := _ }]
  dsimp only [State.attend]
  cases ((th.session.emit .disconnected).judge failed).2 <;> rfl

/-- A move of a task, part by part. -/
theorem course_turn {th : Threads} {task : State.Task} {hand : Option Outbound} {s : State}
    {e e' : Episode} (hn : th.errands = []) (he : th.session.episode = some e)
    (ht : th.turn task e = some (hand,s,e')) :
    th.course [.turn none task, .resume 0 true, .resume 0 true, .resume 0 true] =
      { th with hand, session := s.settleEpisode e' } := by
  have hturn : th.perform (.turn none task) = { th with hand }.settle none s e' := by
    simp only [perform, within, crew?, he, Option.bind_some, ht]
  rw [course_cons, hturn]
  unfold settle State.settleEpisode
  dsimp only
  split
  · rw [hn, List.nil_append]
    exact course_announce e'.connectFailed { th with hand, session := { s with episode := none } }
  · rw [hn]
    rfl

/-- A send, part by part. -/
theorem course_look (ticket : Nat) (o : Outbound) (th : Threads) :
    course { th with errands := [] } [.look false ticket o, .resume 0 true, .resume 0 true] =
      { th with session := (th.session.send ticket o).2, errands := [] } := by
  rw [course_cons]
  cases hc : th.session.closing with
  | true =>
    have hl : perform { th with errands := [] } (.look false ticket o) =
        { th with errands := [] } := if_pos hc
    rw [hl, State.send, State.trySend, if_pos hc, course_resume_nil, course_resume_nil]
    rfl
  | false =>
    rw [State.send_of_open hc]
    cases he : th.session.episode with
    | none =>
      have hl : perform { th with errands := [] } (.look false ticket o) = { th with
          session := { th.session with sendRequested := true }
          errands := [.rearm (some (ticket,o))] } := by
        simp [perform, look, State.isIdle, hc, he]
      rw [hl, State.requestSend_of_idle he]
      rfl
    | some e =>
      have hl : perform { th with errands := [] } (.look false ticket o) = { th with
          session := { th.session with sendRequested := true }
          errands := [.enqueue ticket o] } := by
        simp [perform, look, State.isIdle, hc, he]
      rw [hl, State.requestSend_of_live he]
      rfl

/-! ## Runs are courses -/

/-- Unless a sender has messages to write, an act is what it is in a run. -/
theorem perform_act_eq {th : Threads} {a : Act} (hs : th.strays = [])
    (hd : th.session.reconnectDue = true → th.session.episode = none)
    (hf : a = .move .sender → ∀ e, th.session.episode = some e →
      ∀ manager session, e.sender ≠ .forwarding manager session) :
    th.perform (.act a) = { th with session := th.session.apply a } := by
  rcases perform_act a th with ⟨task,rfl⟩ | hp
  · cases task with
    | sender =>
      simp only [perform, move, State.apply, State.move, State.senderMove, State.within]
      cases he : th.session.episode with
      | none => rfl
      | some e =>
        have hturn : th.turn .sender e = (th.session.senderTurn e).map (th.hand,·) := by
          cases hx : e.sender with
          | forwarding manager session => exact absurd hx (hf rfl e he manager session)
          | _ => simp only [turn, hx]
        simp only [hturn]
        cases th.session.senderTurn e <;> simp
    | receiver =>
      simp only [perform, move, turn, State.apply, State.move, State.receiverMove, State.within]
      cases th.session.episode with
      | none => rfl
      | some e => cases he : th.session.receiverTurn e <;> simp [he]
    | watchdog =>
      simp only [perform, move, turn, State.apply, State.move, State.watchdogMove, State.within]
      cases th.session.episode with
      | none => rfl
      | some e => cases he : th.session.watchdogTurn e <;> simp [he]
    | reconnect =>
      simp only [perform, move, revive, State.apply, State.move, State.reconnectMove]
      cases hdue : th.session.reconnectDue with
      | false => rfl
      | true => simp [hd hdue, hs]
    | admission =>
      simp only [perform, move, State.apply, State.move]
      cases th.session.admissionMove <;> rfl
  · exact hp

/-- What a sender that has messages to write does in one move of a run, it does in up to two where
it takes a message. -/
theorem course_forward {s : State} (hs : s.Sane) {e : Episode} (he : s.episode = some e)
    {manager : Nat} {session : Option Nat} (hf : e.sender = .forwarding manager session) :
    ∃ deeds : List Deed, (∀ d ∈ deeds, d.isWhole = true) ∧
      course { session := s } deeds = { session := s.apply (.move .sender) } := by
  obtain ⟨_,ho⟩ := hs e he
  have hbase : s.senderTurn e = s.forward manager session e := by simp only [State.senderTurn, hf]
  have hmove : s.apply (.move .sender) =
      ((s.senderTurn e).map fun r => r.1.settleEpisode r.2).getD s :=
    congrArg (Option.getD · s) (State.within_of_live he)
  have hperform {th : Threads} (he : th.session.episode = some e) :
      th.perform (.act (.move .sender)) = ((th.forward manager session e).map fun (hand,t,e') =>
        { th with hand, session := t.settleEpisode e' }).getD th := by
    simp only [perform, move, he, turn, hf]
  rw [hmove, hbase]
  cases hx : s.isStopped e with
  | true =>
    refine ⟨[.act (.move .sender)],by decide,?_⟩
    rw [course_cons, hperform he]
    simp only [forward, State.forward, hx]
    rfl
  | false =>
    cases hq : s.queue with
    | nil => exact ⟨[],by simp,by simp [course, State.forward, hx, hq]⟩
    | cons o queue =>
      refine ⟨[.act (.move .sender),.act (.move .sender)],by decide,?_⟩
      let t := { s with queue }.log (.taken o)
      have htake : forward manager session e { session := s } = some (some o,t,e) := by
        simp [forward, hx, hq, t]
      have hself : t.settleEpisode e = t := State.settleEpisode_self he ho
      have hput : forward manager session e { session := t, hand := some o } =
          some (none,t.put manager session o e) := by
        simp [forward, hasRoom]
      have hfirst : perform { session := s } (.act (.move .sender)) =
          { session := t, hand := some o } := by
        rw [hperform he, htake, Option.map_some, Option.getD_some]
        dsimp only
        rw [hself]
      rw [course_cons, hfirst, course_cons, hperform (by exact he), hput]
      simp only [State.forward, hx, hq]
      rfl

theorem course_apply {s : State} (hs : s.Sound) (a : Act) :
    ∃ deeds : List Deed, (∀ d ∈ deeds, d.isWhole = true) ∧
      course { session := s } deeds = { session := s.apply a } := by
  by_cases hf : ∃ e manager session, a = .move .sender ∧ s.episode = some e ∧
      e.sender = .forwarding manager session
  · obtain ⟨e,manager,session,rfl,he,hsender⟩ := hf
    exact course_forward hs.sane he hsender
  · have hp : perform { session := s } (.act a) = { session := s.apply a } :=
      perform_act_eq rfl hs.idle_of_due fun ha e he manager session hsender =>
        hf ⟨e,manager,session,ha,he,hsender⟩
    exact ⟨[.act a],fun d hd => List.mem_singleton.mp hd ▸ rfl,hp⟩

/-- Every run is a whole course, in which no far end stops making room. -/
theorem course_run {s : State} (hs : s.Sound) (acts : List Act) :
    ∃ deeds : List Deed, (∀ d ∈ deeds, d.isWhole = true) ∧
      course { session := s } deeds = { session := s.run acts } := by
  induction acts generalizing s with
  | nil => exact ⟨[],by simp,rfl⟩
  | cons a acts ih =>
    obtain ⟨deeds,hw,hc⟩ := course_apply hs a
    obtain ⟨more,hw',hc'⟩ := ih (hs.apply a)
    refine ⟨deeds ++ more,fun d hd => ?_,?_⟩
    · exact (List.mem_append.mp hd).elim (hw d) (hw' d)
    · rw [course_append, hc, hc', State.run_cons]

end Threads
end Majordomo.Client
