import Majordomo.Client.State

/-! # From episode to episode

An episode is over when neither a task nor a connection of it is in use any more. The
session then either connects again, or pauses after a failed connect, or is destroyed.
-/
namespace Majordomo.Client.State

def isIdle (s : State) : Bool := s.episode.isNone

def reset (s : State) : State :=
  { s with
    sent := 0
    received := 0
    sendRequested := false
    sendPhase := (s.sendPhase.next .finished).next .new
    receivePhase := (s.receivePhase.next .finished).next .new
    releasePhase := s.releasePhase.next .new }

/-- An episode starts only where nothing is to end, the last one has been released and its
sender has given the queue back. -/
def canExecute (s : State) : Bool :=
  !s.closing && !s.isCancelled && s.releasePhase = .finished && s.queueHome

def execute (s : State) : State :=
  if s.canExecute then { s.reset with episode := some {}, queueHome := false } else s

/-- Announces a new episode, and schedules it if the caller runs in the runtime. Repeated calls
are one. -/
def schedule (inRuntime : Bool) (s : State) : State :=
  let phase := s.releasePhase.next .started
  let due := { s with releasePhase := phase }
  if s.releasePhase = .new ∧ phase = .started then
    { due with reconnectDue := inRuntime || s.reconnectDue }.emit .reconnecting
  else due

def reconnect (s : State) : State := s.schedule true

/-- Destroys the session, once. -/
def finishDestroy (s : State) : State :=
  if s.destroyed then s
  else
    { s with
      destroyed := true
      releasePhase := s.releasePhase.next .finished
      destroyedCalls := s.destroyedCalls + 1 }.emit .destroyed

/-- What follows an episode in which connecting failed or not. -/
def conclude (connectFailed : Bool) (s : State) : State :=
  let s := s.emit .disconnected
  let s := { s with closing := s.closing || s.isCancelled }
  if s.closing then s.finishDestroy
  else if connectFailed && !s.sendRequested then s
  else if connectFailed then { s with sendRequested := false }.reconnect
  else s.reconnect

/-- The last that was in use of an episode has been released, and what follows is done at once;
`Majordomo.Proofs.Client.Threads` has the steps at which others may come in. -/
def onReleased (connectFailed : Bool) (s : State) : State :=
  { s with episode := none }.conclude connectFailed

/-- Puts the episode back after one of its tasks has moved; if nothing of it is in use any more
it is over. -/
def settleEpisode (e : Episode) (s : State) : State :=
  if e.inUse = 0 then s.onReleased e.connectFailed else { s with episode := some e }

/-- Closes the session. Its tasks stop, and it is destroyed as soon as no episode is live. -/
def close (s : State) : State :=
  if s.closing then s
  else
    let s := { s with
      closing := true
      rootStopped := true
      releasePhase := s.releasePhase.next .stopped
      sendPhase := s.sendPhase.next .stopped
      receivePhase := s.receivePhase.next .stopped }
    if s.isIdle then s.finishDestroy else s

end Majordomo.Client.State
