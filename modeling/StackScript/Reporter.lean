/-
Delivering problems to the author, up to the error limit.

Every message is passed on and counted.  The error that exceeds the limit is followed by one more message
that says so, and ends the compilation.
-/
import StackScript.Failure
import StackScript.Problem

namespace StackScript

/-- The messages passed on so far, and how many of each severity they were. -/
structure Reporter where
  file : Option String
  limit : Nat
  errors : Nat := 0
  warnings : Nat := 0
  notices : Nat := 0
  seen : List Diagnostic := []

namespace Reporter

/-- The message that the limit has been exceeded by the `count`-th error. -/
def limitMessage (count : Nat) : String :=
  toString count ++ " Error count limit reached, the AerScript engine is aborting compilation"

/-- Passes on one message without counting it. -/
def send (r : Reporter) (severity : Severity) (line : Nat) (message : String) : Reporter :=
  { r with seen := r.seen ++ [⟨severity, message, r.file, line⟩] }

/-- Counts one message. -/
def tally (r : Reporter) : Severity → Reporter
  | .error => { r with errors := r.errors + 1 }
  | .warning => { r with warnings := r.warnings + 1 }
  | .notice | .deprecated => { r with notices := r.notices + 1 }

/-- Reports one message; exceeding the limit is an abort. -/
def report (r : Reporter) (severity : Severity) (line : Nat) (message : String) :
    Option Abort × Reporter :=
  let r := (r.send severity line message).tally severity
  if severity = .error ∧ r.limit < r.errors then
    (some (.errorLimit r.limit), r.send .error line (limitMessage r.errors))
  else (none, r)

/-- Reports problems in order, up to the first abort. -/
def reportAll (r : Reporter) : List Report → Option Abort × Reporter
  | [] => (none, r)
  | p :: ps =>
    match r.report p.problem.severity p.line p.problem.message with
    | (some abort, r) => (some abort, r)
    | (none, r) => r.reportAll ps

end Reporter

end StackScript
