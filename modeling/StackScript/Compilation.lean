/-
From a source text to a program.

The source is read into tokens, the tokens into a script, and the script into code.  None of this ever
stops at a problem; the problems met on the way are delivered in order, and exceeding the error limit
while delivering them is what makes a compilation fail.
-/
import StackScript.Document
import StackScript.Generator.Statement
import StackScript.Parser.Statement
import StackScript.Reporter

namespace StackScript

/-- A program, and how many problems were reported while it was compiled. -/
structure Compilation where
  program : Program
  errors : Nat
  warnings : Nat
  notices : Nat

namespace Compilation

def hasErrors (c : Compilation) : Bool := 0 < c.errors

/-- The program, unless there were errors. -/
def intoProgram (c : Compilation) : Except Failure Program :=
  if c.hasErrors then .error (.failed c.errors) else .ok c.program

end Compilation

/-- The outcome of compiling a source: the messages passed on, and the compilation unless it was
aborted. -/
structure Outcome where
  diagnostics : List Diagnostic
  result : Except Failure Compilation

namespace Config

/-- The tokens of a source; `none` when a tag of a document cannot be read. -/
def tokens? (config : Config) (source : String) : Option Tokens :=
  if config.embedded then Document.tokens source else some (Tokens.ofSource source 1)

/-- Delivers problems to the author. -/
def reporter (config : Config) : Reporter := { file := config.file, limit := config.errorLimit }

/-- What code generation makes of the tokens of a source of so many bytes. -/
def generate (config : Config) (bytes : Nat) (read : Tokens) : GenState :=
  let script := Script.read config.mode bytes read.tokens
  let steps : Gen Unit := do
    Gen.reportAll (Gen.lexReports read.errors)
    script.gen
  (steps.run (GenState.initial config)).2

/-- Compiles a source. -/
def compile (config : Config) (source : String) : Outcome :=
  match config.tokens? source with
  | none => ⟨[], .error .unreadableTag⟩
  | some read =>
    let state := config.generate source.utf8ByteSize read
    match config.reporter.reportAll state.reports with
    | (some abort, reporter) => ⟨reporter.seen, .error (.aborted abort)⟩
    | (none, reporter) =>
      let program := { state.program with main := state.buffer.code }
      ⟨reporter.seen, .ok ⟨program, reporter.errors, reporter.warnings, reporter.notices⟩⟩

end Config

/-- Compiles a script with the usual settings.  There is a program only if there were no errors. -/
def compileScript (source : String) : List Diagnostic × Except Failure Program :=
  let outcome := ({} : Config).compile source
  (outcome.diagnostics, outcome.result.bind Compilation.intoProgram)

end StackScript
