/-! # Phases

The phase of a path of a client session: its sending, its receiving or its release.
-/
namespace Majordomo.Client

inductive Phase
  | new
  | started
  | finished
  /-- A request to stop is in force. -/
  | stopped
deriving DecidableEq, Inhabited

/-- The phase after a request to move. Stopping is always granted; the other moves that are
granted go from new to started, from started or stopped to finished, and from finished to new. -/
def Phase.next : Phase → Phase → Phase
  | _, .stopped => .stopped
  | .new, .started => .started
  | .started, .finished => .finished
  | .stopped, .finished => .finished
  | .finished, .new => .new
  | current, _ => current

end Majordomo.Client
