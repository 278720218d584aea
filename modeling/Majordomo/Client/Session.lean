import Majordomo.Client.Task

/-! # A client session

What the application and the environment do to a session. Between two of these the
tasks move until none can.
-/
namespace Majordomo.Client.State

def isQuiescent (s : State) : Bool :=
  [Task.sender, .receiver, .watchdog, .reconnect, .admission].all fun t => (s.move t).isNone

def moveAny (s : State) : Option State :=
  [Task.sender, .receiver, .watchdog, .reconnect, .admission].findSome? s.move

/-- A bound on the moves until all tasks wait: every message that waits somewhere takes one or
two, and at most three episodes end or begin. -/
def work (s : State) : Nat :=
  s.network.arrivalCount + s.queue.length + 2 * s.waiting.length + 40

def moveUpTo : Nat → State → State
  | 0, s => s
  | n + 1, s =>
    match s.moveAny with
    | some s' => moveUpTo n s'
    | none => s

def settle (s : State) : State := moveUpTo s.work s

def nextDeadline? (s : State) : Option Nat :=
  match s.episode with
  | some { sender := .awaiting _ deadline false, .. } => some deadline
  | _ => none

/-- Advances the clock to `target` and settles wherever the watchdog expires on the way, at
most `n` times. -/
def advanceTo (target : Nat) : Nat → State → State
  | 0, s => { s with clock := target }
  | n + 1, s =>
    match s.nextDeadline? with
    | some deadline =>
      if deadline ≤ target then advanceTo target n { s with clock := max s.clock deadline }.settle
      else { s with clock := target }
    | none => { s with clock := target }

/-- Lets `ms` milliseconds pass. The clock moves forward every time the watchdog expires. -/
def advance (ms : Nat) (s : State) : State := advanceTo (s.clock + ms) (ms + 1) s

/-! ## The application's calls -/

/-- A session that has just been built and has started its first episode. -/
def build (settings : Settings) (network : Network) (monitor : Monitor) (listener : Option Nat) :
    State :=
  { settings, network, monitor, listener : State }.execute

inductive Sent
  | accepted
  | refused (f : Fault)
  /-- It waits for room in the queue. -/
  | waits
deriving DecidableEq, Inhabited

/-- What a send does before it queues its message: it ends a pause. Nobody comes in between; where
somebody may, `Majordomo.Proofs.Client.Threads` takes a send apart. -/
def requestSend (s : State) : State :=
  let s := { s with sendRequested := true }
  if s.isIdle then s.reconnect else s

/-- Queues a message if there is room and nobody waits for it. -/
def trySend (o : Outbound) (s : State) : Sent × State :=
  if s.closing then (.refused .closed, s)
  else
    let s := s.requestSend
    if s.waiting.isEmpty && s.hasRoom then (.accepted, s.push o) else (.waits, s)

def send (ticket : Nat) (o : Outbound) (s : State) : Sent × State :=
  match s.trySend o with
  | (.waits, s) => (.waits, { s with waiting := s.waiting ++ [(ticket, o)] })
  | other => other

/-- Like `send`, but the next reply is counted and not delivered. -/
def sendIgnoringReply (ticket : Nat) (o : Outbound) (s : State) : Sent × State :=
  { s with suppressNext := true }.send ticket o

/-- The message that asks the session manager to end the session `id`. -/
def disconnection (id : String) : Outbound :=
  { target := id
    payload := SessionMessage.toJson
      { requestType := SessionMessage.requestDisconnect, sessionId := id } }

/-- Sends numbered messages in a row until `count` are queued or one would have to wait. -/
def burst (target payload : String) (s : State) : Nat → Nat → Except Fault Nat × State
  | _, 0 => (.ok 0, s)
  | k, left + 1 =>
    match s.trySend { target, payload := payload ++ toString k } with
    | (.accepted, s) =>
      match burst target payload s (k + 1) left with
      | (.ok n, s) => (.ok (n + 1), s)
      | refused => refused
    | (.refused f, s) => (.error f, s)
    | (.waits, s) => (.ok 0, s)

def onNetwork (event : Network.Event) (s : State) : Network.Outcome × State :=
  let (outcome, network) := s.network.onEvent event
  (outcome, { s with network })

def shutdown (s : State) : State := { s with monitor := s.monitor.shutdown }

end Majordomo.Client.State
