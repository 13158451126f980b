/-
A compilation is a run.

Code generation starts from a state without code, makes a run of the whole script and finishes the main
container; `Finish` says how.  What a successful compilation returns is read off the state at the end: its
program, and how many errors were reported on the way.
-/
import StackScript.Compilation
import StackScript.Proofs.Run.Script

namespace StackScript

open Gen

/-- How a script ends: an exception nobody has caught goes to the end of the main container, and an
expression is returned. -/
inductive Finish (s : GenState) : GenState → Prop
  | statements {t : GenState} (h : Run .flow s t) :
      Finish s (after (put .done 0 0 .none) (after (settle 0 (some .throw)) t))
  | expression {t : GenState} (h : Run (.value []) s t) (p1 : Int) :
      Finish s (after (put .done p1 1 .none) t)

theorem Script.finish_gen (script : Script) (s : GenState) : Finish s (after script.gen s) := by
  cases script with
  | statements items => exact Finish.statements (Stmt.flows_genAll items s)
  | expression value stray =>
      have run := ((Expr.valued_gen {} none value).bind fun _ => valued_reportFault
        (stray.map fun t => ⟨t.line, .misplacedToken t.text⟩)) s
      exact Finish.expression run _

/-- Problems that were there before the run belong to it. -/
theorem Finish.quiet {s t u : GenState} (h : Quiet s t) (h' : Finish t u) : Finish s u := by
  cases h' with
  | statements run => exact Finish.statements ((Run.quiet h).value.seq run)
  | expression run p1 => exact Finish.expression ((Run.quiet h).trans run) p1

namespace Config

/-- Code generation makes a run of the script. -/
theorem finish_generate (config : Config) (bytes : Nat) (read : Tokens) :
    Finish (GenState.initial config) (config.generate bytes read) := by
  have reports : Quiet (GenState.initial config)
      (after (reportAll (lexReports read.errors)) (GenState.initial config)) :=
    ⟨rfl, rfl, rfl, rfl, rfl, rfl, List.prefix_append _ _, .refl, rfl, List.prefix_rfl, List.prefix_rfl,
     List.prefix_rfl⟩
  exact (Script.finish_gen (Script.read config.mode bytes read.tokens) _).quiet reports

end Config

/-! ### What a compilation returns -/

namespace Reporter

theorem errors_report (r : Reporter) (severity : Severity) (line : Nat) (message : String) :
    (r.report severity line message).2.errors = r.errors + (severity == .error).toNat := by
  unfold report
  dsimp only
  split <;> cases severity <;> rfl

/-- Every error is counted. -/
theorem errors_reportAll {r r' : Reporter} {rs : List Report} (h : r.reportAll rs = (none, r')) :
    r'.errors = r.errors + rs.countP Report.isError := by
  induction rs generalizing r with
  | nil =>
      rw [reportAll] at h
      cases h
      rfl
  | cons p ps ih =>
      rw [reportAll] at h
      have counted := r.errors_report p.problem.severity p.line p.problem.message
      split at h
      · cases h
      · rename_i r₁ hr
        rw [hr] at counted
        rw [ih h, counted, List.countP_cons, Report.isError]
        cases p.problem.severity == Severity.error with
        | true =>
            simp
            omega
        | false => simp

end Reporter

namespace Config

/-- A compilation that succeeds returns what code generation has come to. -/
theorem compile_ok {config : Config} {source : String} {c : Compilation}
    (h : (config.compile source).result = .ok c) :
    ∃ read, config.tokens? source = some read ∧
      c.program = { (config.generate source.utf8ByteSize read).program with
        main := (config.generate source.utf8ByteSize read).code } ∧
      c.errors = (config.generate source.utf8ByteSize read).errors := by
  unfold compile at h
  split at h
  · cases h
  · rename_i read hread
    refine ⟨read, hread, ?_⟩
    dsimp only at h
    split at h
    · cases h
    · rename_i reporter hr
      cases h
      refine ⟨rfl, ?_⟩
      rw [Reporter.errors_reportAll hr]
      exact Nat.zero_add _

end Config

end StackScript
