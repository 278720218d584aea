import Majordomo.Worker.State

/-! # The moves of a worker

A move goes from one point where the worker may have to wait to the next; `none`
means that it waits. While it serves, a request to stop goes before notices, and
notices before what the broker says.
-/
namespace Majordomo.Worker.State

/-- Gives the connection up. A fault is reported; unless the worker stops it tries again later. -/
def leave (id : Nat) (why : Exit) (s : State) : State :=
  let s := { s with network := s.network.drop id }.log (.left id why)
  match why with
  | .stopped => { s with stage := .stopped }
  | .fault f => { s.report f with stage := .pausing (s.clock + s.settings.delay) }
  | _ => { s with stage := .pausing (s.clock + s.settings.delay) }

def watch (id : Nat) (v : Vigil) (s : State) : State :=
  { s with stage := .serving id { v with waitUntil := s.clock + s.settings.period } }

/-- Ends a round: gives a sign of life if one is due, and waits again. -/
def endRound (id : Nat) (v : Vigil) (s : State) : State :=
  if v.heartbeatAt ≤ s.clock then
    match s.write id .heartbeat with
    | .ok s => s.watch id { v with heartbeatAt := s.clock + s.settings.period }
    | .error f => s.leave id (.fault f)
  else s.watch id v

def writeRound (id : Nat) (o : Output) (v : Vigil) (s : State) : State :=
  match s.write id o with
  | .ok s => s.endRound id v
  | .error f => s.leave id (.fault f)

def announce (id : Nat) (s : State) : State :=
  match s.write id .ready with
  | .ok s =>
    s.watch id
      { liveness := s.settings.liveness, waitUntil := 0
        heartbeatAt := s.clock + s.settings.period }
  | .error f => s.leave id (.fault f)

def dial (s : State) : State :=
  match s.network.dial s.settings.address with
  | (.opened id, network) => ({ s with network }.log .dialled |>.log (.opened id)).announce id
  | (.refused f, network) =>
    { { s with network }.log .dialled |>.report f with
      stage := .pausing (s.clock + s.settings.delay) }
  | (.hanging, network) => { { s with network }.log .dialled with stage := .hanging }

def call (id : Nat) (v : Vigil) (e : Envelope) (s : State) : State :=
  match e.address? with
  | none => s.leave id (.fault (.violation .requestWithoutClient))
  | some client =>
    let work := s.settings.handler s.calls client e.body
    { { s with calls := s.calls + 1 }.log (.called client e.body) with
      stage := .handling id v e work.result (s.clock + work.delay) }

/-- Takes the handler's answer. Without one the client gets no reply. -/
def answer (id : Nat) (v : Vigil) (e : Envelope) (result : Except Fault Message) (s : State) :
    State :=
  match result with
  | .ok body => s.writeRound id (.reply (e.withBody body)) v
  | .error f => (s.report f).endRound id v

/-- Takes a message of the broker; one that cannot be read is ignored. -/
def hear (id : Nat) (frames : Message) (v : Vigil) (s : State) : State :=
  let s := s.log (.heard id frames)
  let v := { v with liveness := s.settings.liveness }
  match Wire.BrokerCommand.ofFrames frames with
  | .ok (.request e) => s.call id v e
  | .ok .disconnect => s.leave id .dismissed
  | .ok .heartbeat | .error _ => s.endRound id v

/-- A wait is over without a word of the broker. -/
def pass (id : Nat) (v : Vigil) (s : State) : State :=
  if v.liveness ≤ 1 then s.leave id .silence
  else s.endRound id { v with liveness := v.liveness - 1 }

def stop (id : Nat) (s : State) : State :=
  match s.write id .disconnect with
  | .ok s => s.leave id .stopped
  | .error _ => s.leave id .stopped

def serve (id : Nat) (v : Vigil) (s : State) : Option State :=
  if s.isStopping then some (s.stop id)
  else match s.notices with
    | n :: notices => some ({ s with notices }.writeRound id (.shutdown n) v)
    | [] =>
      match s.network.receive id with
      | some (.message frames, network) => some ({ s with network }.hear id frames v)
      | some (.failed f, network) => some ({ s with network }.leave id (.fault f))
      | some (.ended, _) => some (s.leave id (.fault .interrupted))
      | none => if v.waitUntil ≤ s.clock then some (s.pass id v) else none

def move (s : State) : Option State :=
  match s.stage with
  | .dialling => some (if s.isStopping then { s with stage := .stopped } else s.dial)
  | .hanging => if s.isStopping then some { s with stage := .stopped } else none
  | .serving id v => s.serve id v
  | .handling id v e result done => if done ≤ s.clock then some (s.answer id v e result) else none
  | .pausing wake =>
    if s.isStopping then some { s with stage := .stopped }
    else if wake ≤ s.clock then some { s with stage := .dialling }
    else none
  | .stopped => none

end Majordomo.Worker.State
