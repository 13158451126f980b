/-
The stack of a whole compilation.

The main container is filled from a state without code, so its depths start from nothing; every other
container was recorded when it was filled, with the places where its statements start and end.  The
containers of a careful script are therefore all disciplined, unless there are errors.
-/
import StackScript.Proofs.Evaluation
import StackScript.Proofs.Origin
import StackScript.Proofs.Reading.Script
import StackScript.Proofs.Stack.Script

namespace StackScript

open Gen

/-! ### Where statements start and end -/

namespace GenState

/-- The containers that were filled, each with the places where its statements start and end: the one being
filled, and those beside it. -/
def containers (s : GenState) : List Filled := s.container :: s.filled

/-- The statements in some code start and end at these places: that is how the code was filled, unless
there is none. -/
def Delimits (s : GenState) (code : Code) (boundaries : List Nat) : Prop :=
  code = #[] ∧ boundaries = [] ∨ ⟨code, boundaries⟩ ∈ s.containers

end GenState

/-! ### A whole script -/

section Script

variable {F : List SwitchTable}

/-- Nothing is on the stack before there is any code. -/
theorem poised_initial (config : Config) : Poised F [] (fun _ => 0) 0 (GenState.initial config) where
  start := rfl
  code := fun i x hx => by simp [GenState.initial, CodeBuffer.empty] at hx
  blocks := by
    intro id b hb _
    have hid : id < 1 := (Array.getElem?_eq_some_iff.mp hb).1
    obtain rfl : id = 0 := by omega
    cases hb
    refine ⟨fun i hi => ?_, ⟨Nat.le_refl _, rfl⟩⟩
    rcases hi with ⟨j, hj, -⟩ | hi
    · exact absurd hj List.not_mem_nil
    · exact absurd hi List.not_mem_nil
  boundaries := fun i hi => absurd hi List.not_mem_nil
  height := rfl
  orderly := fun r hr => absurd hr List.not_mem_nil

/-- A whole script starts and ends with an empty stack. -/
theorem Script.carries_gen (script : Script) (h : Sane fun C => script.meets C) : Carries F 1 0 0 script.gen := by
  cases script with
  | statements items =>
      have settled : Carries F 1 0 0 (settle 0 (some .throw)) := carries_settle _
      exact (Stmt.carries_genAll items h 1).bind fun _ => settled.bind fun _ => (turns_end (.inl rfl) false 0).statement
  | expression value stray =>
      refine Turns.statement ((Expr.turns_gen {} none value h).bind fun _ => (turns_reportFault _).bind fun _ => ?_)
      exact turns_end (.inl rfl) value.isPresent 1

end Script

namespace Config

/-- Of a careful script without errors every container is disciplined. -/
theorem generate_disciplined (config : Config) (bytes : Nat) (read : Tokens)
    (hcareful : (Script.read config.mode bytes read.tokens).meets .careful = true)
    (he : (config.generate bytes read).errors = 0) :
    ∀ r ∈ (config.generate bytes read).containers, r.IsDisciplined (config.generate bytes read).program.switches := by
  have sane : Sane fun C => (Script.read config.mode bytes read.tokens).meets C :=
    ⟨hcareful, Script.read_meets config.mode bytes read.tokens⟩
  have carries := (turns_reportAll (lexReports read.errors)).statement.bind fun _ =>
    Script.carries_gen (F := (config.generate bytes read).program.switches) _ sane
  obtain ⟨depth, -, poised⟩ := carries.carried (s := GenState.initial config) Nat.one_pos rfl
    (poised_initial config) he fun _ _ _ => rfl
  intro r hr
  rcases List.mem_cons.mp hr with rfl | hr
  · exact poised.disciplined
  · exact poised.orderly r hr

/-- Where every statement of a program starts and ends is known. -/
theorem generate_delimits (config : Config) (bytes : Nat) (read : Tokens) {k : Container}
    (hk : k ∈ { (config.generate bytes read).program with main := (config.generate bytes read).code }.containers) :
    ∃ boundaries, (config.generate bytes read).Delimits k.code boundaries := by
  have recorded : Origin (GenState.initial config) (config.generate bytes read) k.code →
      ∃ boundaries, (config.generate bytes read).Delimits k.code boundaries := by
    intro origin
    rcases origin.recorded with hempty | ⟨r, hr, hcode⟩
    · exact ⟨[], .inl ⟨hempty, rfl⟩⟩
    · exact ⟨r.boundaries, .inr (List.mem_cons_of_mem _ (hcode ▸ hr))⟩
  rcases (Program.lists_containers _ _).mp ⟨k, hk, rfl⟩ with hmain | hbody | hthunk
  · refine ⟨(config.generate bytes read).boundaries, .inr ?_⟩
    rw [hmain]
    exact List.mem_cons_self
  · exact recorded ((config.finish_generate bytes read).origins _ (.inl hbody))
  · exact recorded ((config.finish_generate bytes read).origins _ (.inr hthunk))

/-- Of a source without errors whose script is careful, every container has a stack depth for every index: zero
at the start and wherever a statement starts or ends, and in agreement with what every instruction takes and
leaves, along every way control may go. -/
theorem stack_disciplined (config : Config) (source : String) (c : Compilation) (read : Tokens)
    (h : (config.compile source).result = .ok c) (he : c.errors = 0) (hread : config.tokens? source = some read)
    (hcareful : (Script.read config.mode source.utf8ByteSize read.tokens).meets .careful = true) :
    ∀ k ∈ c.program.containers,
      (∃ boundaries, (config.generate source.utf8ByteSize read).Delimits k.code boundaries) ∧
      ∀ boundaries, (config.generate source.utf8ByteSize read).Delimits k.code boundaries →
        ∃ depth, Disciplined c.program.switches k.code depth ∧ ∀ i ∈ boundaries, depth i = 0 := by
  obtain ⟨read', hread', hprogram, herrors⟩ := compile_ok h
  obtain rfl : read' = read := Option.some.inj (hread'.symm.trans hread)
  have disciplined := config.generate_disciplined source.utf8ByteSize read' hcareful (herrors.symm.trans he)
  intro k hk
  rw [hprogram] at hk ⊢
  refine ⟨config.generate_delimits _ _ hk, fun boundaries hdelimits => ?_⟩
  rcases hdelimits with ⟨hcode, rfl⟩ | hmem
  · rw [hcode]
    exact ⟨fun _ => 0, ⟨rfl, fun i x hx => absurd hx (by simp)⟩, fun i hi => absurd hi List.not_mem_nil⟩
  · exact disciplined _ hmem

/-- A function that makes an array, and a loop that stores what it returns: the depths of both containers. -/
theorem stack_disciplined_of_call :
    ∃ c, (({} : Config).compile "function f($x) { return [$x, 1]; } while ($a) $b[0] = f($a);").result = .ok c ∧
      c.errors = 0 ∧ c.program.containers.length = 2 ∧ ∀ k ∈ c.program.containers,
        ∃ depth, Disciplined c.program.switches k.code depth := by
  let source := "function f($x) { return [$x, 1]; } while ($a) $b[0] = f($a);"
  have compiled : ((({} : Config).tokens? source).bind fun read =>
      (({} : Config).deliver (({} : Config).generate source.utf8ByteSize read)).result.toOption.map fun c =>
        (c.errors, c.program.containers.length, (Script.read .script source.utf8ByteSize read.tokens).meets .careful)) =
      some (0, 2, true) := by
    rw [tokens?_ofList rfl rfl]
    decide +kernel
  obtain ⟨read, c, hread, hr, told⟩ := ok_of_bind compiled
  obtain ⟨errors, told⟩ := Prod.mk.inj told
  obtain ⟨containers, hcareful⟩ := Prod.mk.inj told
  refine ⟨c, hr, errors, containers, fun k hk => ?_⟩
  obtain ⟨⟨boundaries, hdelimits⟩, disciplined⟩ := stack_disciplined _ _ c read hr errors hread hcareful k hk
  obtain ⟨depth, hdepth, -⟩ := disciplined boundaries hdelimits
  exact ⟨depth, hdepth⟩

end Config

end StackScript
