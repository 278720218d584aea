import Majordomo.Broker.Mediator
import Mathlib.Data.List.Basic

/-! # Operations as plans of indivisible actions

Every operation of the mediator is a list of actions, each of which makes one
change. What holds before and after every action holds along every run, and a
message is sent at the moment of the action that puts it in the outbox.
-/
namespace Majordomo.Broker.Mediator

/-- One indivisible change. -/
inductive Action
  | emit (peer : Frame) (frames : Message)
  | require (name : String)
  | queue (name : String) (e : Envelope)
  | enrol (identity : Frame) (service : String) (expiry : Nat)
  /-- A registered worker is renewed and becomes the last of the idle ones. -/
  | wake (key : String) (now : Nat)
  | remove (key : String)
  /-- The oldest request of the service goes to its longest idle worker. -/
  | pair (name : String)
  | settle (name : String)
  | schedule (time : Nat)
deriving DecidableEq, Inhabited

def awaken (key : String) (now : Nat) (m : Mediator) : Mediator :=
  match m.workers.get? key with
  | none => m
  | some worker =>
    { m with
      workers := m.workers.set key { worker with expiry := now + m.lifetime }
      idle := m.idle.filter (· ≠ key) ++ [key] }.updateService worker.service fun s =>
        { s with idle := s.idle.filter (· ≠ key) ++ [key] }

def act (m : Mediator) : Action → Mediator
  | .emit peer frames => m.emit peer frames
  | .require name => m.require name
  | .queue name e => m.updateService name fun s => { s with pending := s.pending ++ [e] }
  | .enrol identity service expiry =>
    { m with workers := m.workers.set identity.hex { identity, service, expiry } }
  | .wake key now => m.awaken key now
  | .remove key => m.remove key
  | .pair name => m.pairOldest name
  | .settle name => m.updateService name fun s => { s with reply := .received }
  | .schedule time => { m with probeAt := time }

@[simp] theorem act_emit (m : Mediator) (peer : Frame) (frames : Message) :
    m.act (.emit peer frames) = m.emit peer frames := rfl
@[simp] theorem act_require (m : Mediator) (name : String) :
    m.act (.require name) = m.require name := rfl
@[simp] theorem act_queue (m : Mediator) (name : String) (e : Envelope) :
    m.act (.queue name e) =
      m.updateService name fun s => { s with pending := s.pending ++ [e] } := rfl
@[simp] theorem act_enrol (m : Mediator) (identity : Frame) (service : String) (expiry : Nat) :
    m.act (.enrol identity service expiry) =
      { m with workers := m.workers.set identity.hex { identity, service, expiry } } := rfl
@[simp] theorem act_wake (m : Mediator) (key : String) (now : Nat) :
    m.act (.wake key now) = m.awaken key now := rfl
@[simp] theorem act_remove (m : Mediator) (key : String) : m.act (.remove key) = m.remove key := rfl
@[simp] theorem act_pair (m : Mediator) (name : String) :
    m.act (.pair name) = m.pairOldest name := rfl
@[simp] theorem act_settle (m : Mediator) (name : String) :
    m.act (.settle name) = m.updateService name fun s => { s with reply := .received } := rfl

def follow (m : Mediator) (plan : List Action) : Mediator := plan.foldl act m

/-- The actions, each with the state it finds. -/
def moments (m : Mediator) : List Action → List (Mediator × Action)
  | [] => []
  | a :: plan => (m,a) :: (m.act a).moments plan

@[simp] theorem follow_nil (m : Mediator) : m.follow [] = m := rfl
@[simp] theorem follow_cons (m : Mediator) (a : Action) (plan : List Action) :
    m.follow (a :: plan) = (m.act a).follow plan := rfl
@[simp] theorem follow_append (m : Mediator) (plan rest : List Action) :
    m.follow (plan ++ rest) = (m.follow plan).follow rest := List.foldl_append ..

@[simp] theorem moments_nil (m : Mediator) : m.moments [] = [] := rfl
@[simp] theorem moments_cons (m : Mediator) (a : Action) (plan : List Action) :
    m.moments (a :: plan) = (m,a) :: (m.act a).moments plan := rfl
@[simp] theorem moments_append (m : Mediator) (plan rest : List Action) :
    m.moments (plan ++ rest) = m.moments plan ++ (m.follow plan).moments rest := by
  induction plan generalizing m with
  | nil => rfl
  | cons a plan ih => simp only [List.cons_append, moments_cons, follow_cons, ih]

/-! ## The plans -/

def sweepPlan (now : Nat) (m : Mediator) : List Action :=
  (m.idle.filter (m.isExpired now)).map .remove

def pendingCount (name : String) (m : Mediator) : Nat :=
  (m.services.get? name).elim 0 (·.pending.length)

def dispatchPlan (name : String) (now : Nat) (m : Mediator) : List Action :=
  m.sweepPlan now ++ List.replicate ((m.sweep now).pendingCount name) (.pair name)

def renewPlan (key : String) (now : Nat) (m : Mediator) : List Action :=
  match m.workers.get? key with
  | none => []
  | some worker => .wake key now :: (m.awaken key now).dispatchPlan worker.service now

def wakeForRetryPlan (name : String) (sender : Frame) (now : Nat) (m : Mediator) : List Action :=
  if (m.services.get? name).any (·.reply = .awaiting) then
    match m.retryCandidate? name sender with
    | some key => m.renewPlan key now
    | none => []
  else []

def internalReply (name : String) (body : Message) (m : Mediator) : Message :=
  Wire.clientMessage (.ofText name)
    (body.setLast (Frame.ofText (m.internalAnswer name body.lastText).code))

/-- A client's request puts its envelope behind the others after a worker was woken for it. -/
def requestPlan (sender service : Frame) (body : Message) (now : Nat) (m : Mediator) :
    List Action :=
  let name := service.toText
  if Wire.isInternal name then [.emit sender (m.internalReply name body)]
  else
    let woken := (m.require name).wakeForRetry name sender now
    let e := (Envelope.ofBody body).wrap sender
    .require name :: (m.require name).wakeForRetryPlan name sender now ++ .queue name e ::
      (woken.act (.queue name e)).dispatchPlan name now

def turnAwayPlan (sender : Frame) : List Action :=
  [.emit sender Wire.disconnect, .remove sender.hex]

def enrolPlan (sender : Frame) (service : String) (now : Nat) (m : Mediator) : List Action :=
  [.require service, .enrol sender service (now + m.lifetime)]

def readyPlan (sender : Frame) (service : String) (now : Nat) (m : Mediator) : List Action :=
  if m.workers.contains sender.hex then [.remove sender.hex]
  else if Wire.isInternal service then [.emit sender Wire.disconnect]
  else
    m.enrolPlan sender service now ++
      (m.follow (m.enrolPlan sender service now)).renewPlan sender.hex now

def forwardPlan (service : String) (e : Envelope) : List Action :=
  e.address?.elim [] fun client => [.emit client (Wire.clientMessage (.ofText service) e.body)]

def replyPlan (sender : Frame) (worker : Worker) (e : Envelope) (now : Nat) (m : Mediator) :
    List Action :=
  let settled := forwardPlan worker.service e ++ [.settle worker.service]
  settled ++ (m.follow settled).renewPlan sender.hex now

def commandPlan (sender : Frame) (c : Wire.WorkerCommand) (now : Nat) (m : Mediator) :
    List Action :=
  match c with
  | .ready service => m.readyPlan sender service now
  | .reply e =>
    (m.workers.get? sender.hex).elim (turnAwayPlan sender) (m.replyPlan sender · e now)
  | .heartbeat =>
    if m.workers.contains sender.hex then m.renewPlan sender.hex now else turnAwayPlan sender
  | .disconnect => [.remove sender.hex]
  | .shutdown e named =>
    (((m.workers.get? sender.hex).map (·.service)).or named).elim [] (forwardPlan · e)
  | .unknown _ => []

def probePlan (now : Nat) (m : Mediator) : List Action :=
  if now < m.probeAt then []
  else
    (m.idle.filterMap m.workers.get?).map (fun worker => .emit worker.identity Wire.heartbeat) ++
      [.schedule (now + m.interval)]

def disconnectAllPlan (m : Mediator) : List Action :=
  m.workers.entries.flatMap fun (key,worker) =>
    [.remove key, .emit worker.identity Wire.disconnect]

def plan (m : Mediator) : Operation → List Action
  | .handle sender frames now =>
    match Wire.Inbound.ofFrames frames with
    | .error _ => []
    | .ok (.client service body) => m.requestPlan sender service body now
    | .ok (.worker c) => m.commandPlan sender c now
  | .sweep now => m.sweepPlan now
  | .probe now => m.probePlan now
  | .disconnectAll => m.disconnectAllPlan

/-! ## Following the plan -/

@[simp] theorem follow_sweepPlan (now : Nat) (m : Mediator) :
    m.follow (m.sweepPlan now) = m.sweep now := by
  simp only [follow, sweepPlan, sweep, List.foldl_map, act]

theorem follow_replicate (a : Action) (n : Nat) (m : Mediator) :
    m.follow (List.replicate n a) = Nat.repeat (act · a) n m := by
  induction n with
  | zero => rfl
  | succ n ih => rw [List.replicate_succ', follow_append, ih]; rfl

@[simp] theorem follow_dispatchPlan (name : String) (now : Nat) (m : Mediator) :
    m.follow (m.dispatchPlan name now) = m.dispatch name now := by
  rw [dispatchPlan, follow_append, follow_sweepPlan, follow_replicate]
  rfl

@[simp] theorem follow_renewPlan (key : String) (now : Nat) (m : Mediator) :
    m.follow (m.renewPlan key now) = m.renew key now := by
  unfold renewPlan
  cases hw : m.workers.get? key with
  | none => simp [renew, hw]
  | some worker =>
    simp only [follow_cons, act, follow_dispatchPlan]
    simp only [renew, awaken, hw]

@[simp] theorem follow_wakeForRetryPlan (name : String) (sender : Frame) (now : Nat)
    (m : Mediator) :
    m.follow (m.wakeForRetryPlan name sender now) = m.wakeForRetry name sender now := by
  unfold wakeForRetryPlan wakeForRetry
  split
  · cases m.retryCandidate? name sender with
    | none => rfl
    | some key => exact follow_renewPlan key now m
  · rfl

theorem follow_requestPlan (sender service : Frame) (body : Message) (now : Nat)
    (m : Mediator) :
    m.follow (m.requestPlan sender service body now) = m.request sender service body now := by
  unfold requestPlan request
  dsimp only
  split
  · rfl
  · rw [List.cons_append, follow_cons, follow_append, follow_cons]
    simp only [act, follow_wakeForRetryPlan, follow_dispatchPlan]

theorem require_enrol (service : String) (ws : Table String Worker) (m : Mediator) :
    { m with workers := ws }.require service = { m.require service with workers := ws } := by
  unfold require
  split <;> rfl

theorem follow_readyPlan (sender : Frame) (service : String) (now : Nat) (m : Mediator) :
    m.follow (m.readyPlan sender service now) = m.ready sender service now := by
  unfold readyPlan ready
  split
  · rfl
  · split
    · rfl
    · have hw : (m.require service).workers = m.workers := by unfold require; split <;> rfl
      simp only [enrolPlan, follow_append, follow_renewPlan, follow_cons, follow_nil, act,
        require_enrol, hw]

theorem follow_forwardPlan (service : String) (e : Envelope) (m : Mediator) :
    m.follow (forwardPlan service e) = m.forward service e := by
  unfold forwardPlan forward
  cases e.address? <;> rfl

theorem mem_forwardPlan {service : String} {e : Envelope} {a : Action}
    (h : a ∈ forwardPlan service e) :
    ∃ client, a = .emit client (Wire.clientMessage (.ofText service) e.body) := by
  unfold forwardPlan at h
  cases hc : e.address? with
  | none => simp [hc] at h
  | some client => exact ⟨client,by simpa [hc] using h⟩

theorem follow_commandPlan (sender : Frame) (c : Wire.WorkerCommand) (now : Nat)
    (m : Mediator) : m.follow (m.commandPlan sender c now) = (m.command sender c now).1 := by
  cases c with
  | ready service => exact follow_readyPlan sender service now m
  | reply e =>
    simp only [commandPlan, command]
    cases m.workers.get? sender.hex with
    | none => rfl
    | some worker =>
      simp only [Option.elim_some, replyPlan, follow_append, follow_renewPlan, follow_forwardPlan]
      rfl
  | heartbeat =>
    simp only [commandPlan, command]
    split
    · exact follow_renewPlan ..
    · rfl
  | disconnect => rfl
  | shutdown e named =>
    simp only [commandPlan, command]
    cases ((m.workers.get? sender.hex).map (·.service)).or named with
    | none => rfl
    | some service => exact follow_forwardPlan service e m
  | unknown frame => rfl

theorem follow_heartbeats (ws : List Worker) (m : Mediator) :
    m.follow (ws.map fun worker => .emit worker.identity Wire.heartbeat) =
      { m with outbox := m.outbox ++ ws.map fun worker => ⟨worker.identity,Wire.heartbeat⟩ } := by
  induction ws generalizing m with
  | nil => simp
  | cons worker ws ih => simp [ih, act, emit]

theorem follow_probePlan (now : Nat) (m : Mediator) :
    m.follow (m.probePlan now) = m.probe now := by
  unfold probePlan probe
  split
  · rfl
  · simp only [follow_append, follow_heartbeats, follow_cons, follow_nil, act]
    rw [List.map_filterMap]

theorem follow_disconnectAllPlan (m : Mediator) :
    m.follow m.disconnectAllPlan = m.disconnectAll := by
  simp only [follow, disconnectAllPlan, disconnectAll, List.foldl_flatMap]
  rfl

/-- An operation does what its plan says. -/
theorem follow_plan (m : Mediator) (op : Operation) : m.follow (m.plan op) = (m.apply op).1 := by
  cases op with
  | handle sender frames now =>
    simp only [plan, apply, handle]
    cases Wire.Inbound.ofFrames frames with
    | error v => rfl
    | ok i =>
      cases i with
      | client service body => exact follow_requestPlan sender service body now m
      | worker c => exact follow_commandPlan sender c now m
  | sweep now => exact follow_sweepPlan now m
  | probe now => exact follow_probePlan now m
  | disconnectAll => exact follow_disconnectAllPlan m

end Majordomo.Broker.Mediator
