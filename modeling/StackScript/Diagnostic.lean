/-
Messages for the author of a script.

A diagnostic has a severity, a line and a text; a collection keeps them in the order in which they were
reported.
-/
namespace StackScript

/-- How serious a message is.  Only errors count towards the limit that ends a compilation. -/
inductive Severity where
  | error | warning | notice | deprecated
deriving DecidableEq

namespace Severity

def label : Severity → String
  | error => "error"
  | warning => "warning"
  | notice => "notice"
  | deprecated => "deprecated"

end Severity

/-- One message. -/
structure Diagnostic where
  severity : Severity
  message : String
  file : Option String
  line : Nat
deriving DecidableEq

namespace Diagnostic

def isError (d : Diagnostic) : Bool := d.severity == .error

/-- A message is written with its file, if it has one, its line, its severity and its text. -/
def text (d : Diagnostic) : String :=
  let place := match d.file with
    | some file => file ++ ":" ++ toString d.line
    | none => toString d.line
  place ++ ": " ++ d.severity.label ++ ": " ++ d.message

end Diagnostic

/-- Messages in the order in which they were reported. -/
structure Diagnostics where
  items : List Diagnostic := []

namespace Diagnostics

def report (ds : Diagnostics) (d : Diagnostic) : Diagnostics := ⟨ds.items ++ [d]⟩

/-- The messages of one severity. -/
def ofSeverity (ds : Diagnostics) (s : Severity) : List Diagnostic :=
  ds.items.filter (·.severity == s)

def count (ds : Diagnostics) (s : Severity) : Nat := (ds.ofSeverity s).length

def hasErrors (ds : Diagnostics) : Bool := ds.items.any Diagnostic.isError

/-- One message a line. -/
def text (ds : Diagnostics) : String := String.join (ds.items.map fun d => d.text ++ "\n")

theorem items_report (ds : Diagnostics) (d : Diagnostic) : (ds.report d).items = ds.items ++ [d] := rfl

/-- There are errors exactly when their number is positive. -/
theorem hasErrors_iff (ds : Diagnostics) : ds.hasErrors = true ↔ 0 < ds.count .error := by
  simp [hasErrors, count, ofSeverity, Diagnostic.isError, List.length_pos_iff,
    List.filter_eq_nil_iff]

end Diagnostics

end StackScript
