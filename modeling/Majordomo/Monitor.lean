import Majordomo.Fault
import Majordomo.Text.Blank

/-! # Error reports

Every unexpected fault is counted. Under the policy `shutdown` the first one that
is not recoverable asks the whole application to stop.
-/
namespace Majordomo

/-- What a fault that is not recoverable leads to. -/
inductive Policy
  | log
  | shutdown
deriving DecidableEq, Inhabited

/-- Reads a policy, in any case of ASCII letters and with blanks around it. -/
def Policy.ofText (s : String) : Except Fault Policy :=
  let word := String.ofList ((Text.trim s).toList.map Char.toLower)
  if word = "log" then .ok .log
  else if word = "shutdown" then .ok .shutdown
  else .error (.configuration ("unknown error policy: " ++ word))

/-- The reports so far, and whether the application has been asked to stop. -/
structure Monitor where
  policy : Policy := .log
  reported : Nat := 0
  cancelled : Bool := false
deriving DecidableEq, Inhabited

namespace Monitor

def report (f : Fault) (m : Monitor) : Monitor :=
  { m with
    reported := m.reported + 1
    cancelled := m.cancelled || (!f.isRecoverable && m.policy = .shutdown) }

def shutdown (m : Monitor) : Monitor := { m with cancelled := true }

end Monitor
end Majordomo
