/-
Anonymous functions are told apart.

Before the first step there are no functions, so the history that generation makes of a source gives every anonymous
function a number of its own.  A declared function starts as a name does, which no numbered name can.
-/
import Mathlib.Data.List.Nodup
import StackScript.Proofs.Evaluation
import StackScript.Proofs.Naming.Declarations
import StackScript.Proofs.Naming.Script
import StackScript.Proofs.Naming.Tokens

namespace StackScript

open Gen

/-- Among functions with names of their own there is one of each name. -/
theorem Load.filter_name {ls : List Load} (hnodup : (ls.map Load.name).Nodup) {l : Load} (hl : l ∈ ls)
    (hplain : l.isPlain = true) :
    ((ls.filter Load.isPlain).map Load.function).filter (·.name == l.name) = [l.function] := by
  have others {ls' : List Load} (hne : l.name ∉ ls'.map Load.name) :
      ((ls'.filter Load.isPlain).map Load.function).filter (·.name == l.name) = [] := by
    refine List.filter_eq_nil_iff.mpr fun f hf heq => hne ?_
    obtain ⟨l', hl', rfl⟩ := List.mem_map.mp hf
    exact eq_of_beq heq ▸ List.mem_map_of_mem (List.mem_filter.mp hl').1
  obtain ⟨before, behind, rfl⟩ := List.append_of_mem hl
  rw [List.map_append, List.map_cons, List.nodup_middle, List.nodup_cons, List.mem_append, not_or] at hnodup
  rw [List.filter_append, List.map_append, List.filter_append, others hnodup.1.1, List.nil_append,
    List.filter_cons_of_pos hplain, List.map_cons, List.filter_cons_of_pos]
  · rw [others hnodup.1.2]
  · exact beq_self_eq_true l.name

namespace Gives

variable {ls : List Load} {s t : GenState}

/-- No two anonymous functions have one name. -/
theorem nodup (h : Gives ls s t) : (ls.map Load.name).Nodup :=
  h.names.nodup_iff.mpr (.map (fun _ _ => closureName_injective) (List.nodup_range' ..))

/-- Only one function has the name under which an anonymous function is installed. -/
theorem overloads (h : Gives ls s t) (hs : s.program.functions = []) {l : Load} (hl : l ∈ ls) (hplain : l.isPlain = true) :
    t.program.overloads l.name = [l.function] := by
  obtain ⟨n, -, -, hnumber⟩ := h.mem hl
  obtain ⟨fs, hfunctions, hanonymous, hdeclared⟩ := h.functions
  have undeclared : ∀ f ∈ fs, (f.name == l.name) = true → f.flags.isAnonymous = true := by
    intro f hf hname
    refine eq_true_of_ne_false fun hflag => not_isName_closureName n ?_
    rw [← hnumber, ← eq_of_beq hname]
    exact hdeclared f hf hflag
  calc t.program.overloads l.name
      = fs.filter (·.name == l.name) := by rw [Program.overloads, hfunctions, hs, List.nil_append]
    _ = (fs.filter (·.flags.isAnonymous)).filter (·.name == l.name) := by
        rw [List.filter_filter]
        refine List.filter_congr fun f hf => ?_
        cases hname : f.name == l.name with
        | true => simp [undeclared f hf hname]
        | false => rfl
    _ = [l.function] := by
        rw [hanonymous]
        exact Load.filter_name h.nodup hl hplain

end Gives

/-- The anonymous functions of a script and its declared functions are told apart by their names. -/
structure ToldApart (ls : List Load) (script : Script) (state : GenState) : Prop where
  /-- Every name that was drawn is that of one anonymous function. -/
  drawn : (ls.map Load.name).Perm ((List.range state.closures).map closureName)
  distinct : (ls.map Load.name).Nodup
  declared : ∀ head, .function head ∈ script.mentions → ∀ l ∈ ls, l.name ≠ head.name
  /-- The anonymous functions in the tables are those that were loaded. -/
  plain : state.program.functions.filter (·.flags.isAnonymous) = (ls.filter Load.isPlain).map Load.function
  captured : state.program.closures = (ls.filter (!·.isPlain)).map Load.function
  unreported : ∀ r ∈ state.reports, ∀ name, r.problem ≠ .duplicateClosure name
  /-- A plain anonymous function was installed, and the name that was loaded there is its own alone. -/
  installed : ∀ l ∈ ls, l.isPlain = true →
    l.Installed state.program.constants ∧ state.program.overloads l.name = [l.function]

namespace Config

variable {config : Config} {source : String} {read : Tokens}

/-- Generation makes a history of names of a source. -/
theorem naming_generate (hread : config.tokens? source = some read) :
    ∃ ls, Naming ls (.initial config) (config.generate source.utf8ByteSize read) := by
  have lexical := names_lexReports read.errors
  have script := (Script.read config.mode source.utf8ByteSize read.tokens).names
    (Script.proper_read _ _ (named_tokens? hread))
  exact (lexical.bind fun _ => script).naming (.initial config)

/-- Anonymous functions never collide: whatever the source, each has a name that no other function has, so none is
refused, and what a plain one is loaded by names that function alone. -/
theorem anonymous_functions_apart (hread : config.tokens? source = some read) :
    ∃ ls, Naming ls (.initial config) (config.generate source.utf8ByteSize read) ∧
      ToldApart ls (Script.read config.mode source.utf8ByteSize read.tokens) (config.generate source.utf8ByteSize read) := by
  obtain ⟨ls, naming⟩ := naming_generate hread
  have gives := naming.gives (List.forall_mem_nil _)
  refine ⟨ls, naming, ?_, gives.nodup, fun head hhead l hl heq => ?_, ?_, gives.captured, fun r hr => ?_, fun l hl hplain => ?_⟩
  · have counted : (config.generate source.utf8ByteSize read).closures = ls.length := gives.counted.trans (Nat.zero_add _)
    rw [counted, List.range_eq_range']
    exact gives.names
  · obtain ⟨n, -, -, hname⟩ := gives.mem hl
    have proper := Script.proper_read config.mode source.utf8ByteSize (named_tokens? hread) _ hhead
    exact not_isName_closureName n (hname ▸ heq ▸ proper.1)
  · obtain ⟨fs, hfunctions, hanonymous, -⟩ := gives.functions
    rw [hfunctions]
    exact hanonymous
  · exact ((gives.reports r hr).resolve_left List.not_mem_nil).ne
  · exact ⟨gives.installed l hl hplain, gives.overloads rfl hl hplain⟩

/-- A function that declares one and returns another, and a third in a string that is read again. -/
theorem anonymous_functions_apart_nested :
    ∃ source read ls,
      source = "$f = function() { function g() { } return function() { }; }; $s = \"a{$f[function() using ($f) { }]}\";" ∧
      ({} : Config).tokens? source = some read ∧
      [Program.functions, Program.closures].map (fun table =>
          (table (({} : Config).generate source.utf8ByteSize read).program).map FunctionDef.name) =
        [["g", "\x7bclosure_1\x7d", "\x7bclosure_0\x7d"], ["\x7bclosure_2\x7d"]] ∧
      Naming ls (.initial {}) (({} : Config).generate source.utf8ByteSize read) ∧
      ToldApart ls (Script.read .script source.utf8ByteSize read.tokens) (({} : Config).generate source.utf8ByteSize read) := by
  refine ⟨"$f = function() { function g() { } return function() { }; }; $s = \"a{$f[function() using ($f) { }]}\";", ?_⟩
  obtain ⟨ls, naming, apart⟩ := @anonymous_functions_apart {}
    "$f = function() { function g() { } return function() { }; }; $s = \"a{$f[function() using ($f) { }]}\";" _ rfl
  refine ⟨_, ls, rfl, rfl, ?_, naming, apart⟩
  rw [Tokens.ofSource_ofList rfl]
  decide +kernel

end Config

end StackScript
