/-
The code of an expression in a header.

A header is generated inside the block of its construct, and otherwise like a statement of the script.  So the source of
a loop becomes the code of the expression, instruction for instruction, and so does a guard, which is generated into a
container of its own.
-/
import StackScript.Proofs.Delimiting.Header
import StackScript.Proofs.Evaluation
import StackScript.Proofs.Kept
import StackScript.Proofs.Recovery
import StackScript.Proofs.Relocation.Script
import StackScript.Proofs.Tables

namespace StackScript

open Gen

/-! ### Inside a construct of the script -/

namespace Relocation

/-- A script, and the block of a construct of it. -/
def inside : Relocation := ⟨1, 2, id, Nat.one_pos, Nat.two_pos⟩

/-- A construct is entered. -/
theorem match_enter {s : GenState} (hs : s.blocks = .root) (tags : List BlockTag) (first : Nat)
    (htags : [.class_, .function].any tags.contains = false) :
    inside.Match s (after (enter tags first .none none) s) := by
  refine ⟨rfl, rfl, rfl, rfl, ⟨0, ?_, ?_⟩, fun j => ?_, fun id b hid hb => ?_, fun id b hid hb => ?_,
    ⟨rfl, rfl, rfl, rfl, rfl, rfl, rfl⟩, rfl, rfl, rfl⟩
  · rw [hs]
    rfl
  · rw [after_enter, hs]
    rfl
  · rw [after_enter, hs, BlockStack.get?, BlockStack.get?, Array.getElem?_eq_none (Nat.le_add_right 1 j),
      Array.getElem?_eq_none (Nat.le_add_right 2 j)]
  · have outer : id = 0 := Nat.lt_one_iff.mp hid
    subst outer
    rw [hs] at hb
    cases hb
    rfl
  · rw [after_enter, hs, BlockStack.get?_push] at hb
    split at hb
    · cases hb
      exact htags
    · have outer : id = 0 := by
        have : id < 2 := hid
        have : BlockStack.root.blocks.size = 1 := rfl
        omega
      subst outer
      cases hb
      rfl

end Relocation

/-- An expression comes to the same inside a construct. -/
structure GenState.Twin (s t : GenState) : Prop where
  code : t.code = s.code
  reports : t.reports = s.reports
  line : t.buffer.line = s.buffer.line
  foreachs : t.program.foreachs.length = s.program.foreachs.length

theorem Expr.twin_gen (value : Expr) {s t : GenState} (h : Relocation.inside.Match s t) :
    (after (value.gen {} none) s).Twin (after (value.gen {} none) t) := by
  obtain ⟨⟨same, -⟩, -⟩ := value.relocated {} none Relocation.inside s t (fun hflow => absurd hflow Bool.false_ne_true) h
  have code := same.code
  simp only [Relocation.inside, Code.mapOperands_id] at code
  exact ⟨code.symm, same.reports.symm, same.line.symm, same.program.foreachs.symm⟩

/-- The blocks stay as they are. -/
theorem Expr.blocks_gen (value : Expr) {s : GenState} {bs : BlockStack} (hs : s.blocks = bs) (hbs : 0 < bs.blocks.size) :
    (after (value.gen {} none) s).blocks = bs :=
  ((value.valued_gen {} none s).spares (Nat.lt_of_lt_of_eq hbs (by rw [hs]))).blocks.trans hs

/-- Behind a construct its jumps are filled in and its block is left.  The numbers are those of a construct of the script. -/
theorem after_constructEnd {t : GenState} {b : Block} (hblocks : t.blocks = ⟨BlockStack.root.blocks.push b⟩)
    (hdeferred : b.deferred = none) :
    let u := after leave (after (settleContinue 1) (after (settle 1 none) t))
    u.code = (b.pending.filter (BlockStack.settles none t.code)).foldl (fun code j => code.patch j.index t.code.size) t.code ∧
      u.reports = t.reports ∧ u.blocks = .root ∧ u.program = t.program := by
  intro u
  have block : t.blocks.get? 1 = some b := by
    rw [hblocks]
    rfl
  have settled : (t.blocks.settle 1 none t.code.size t.code).2.1 =
      ⟨BlockStack.root.blocks.push { b with pending := b.pending.filter fun j => !BlockStack.settles none t.code j }⟩ := by
    rw [hblocks]
    simp [BlockStack.settle, BlockStack.modify, BlockStack.root]
  refine ⟨?_, rfl, ?_, rfl⟩
  · show (BlockStack.settleContinue (t.blocks.settle 1 none t.code.size t.code).2.1 1 (after (settle 1 none) t).code.size
      (t.blocks.settle 1 none t.code.size t.code).2.2).2.2 = _
    rw [settled]
    unfold BlockStack.settle BlockStack.settleContinue
    rw [block]
    simp [BlockStack.get?, BlockStack.root, hdeferred]
  · show (BlockStack.settleContinue (t.blocks.settle 1 none t.code.size t.code).2.1 1 (after (settle 1 none) t).code.size
      (t.blocks.settle 1 none t.code.size t.code).2.2).2.1.leave = _
    rw [settled]
    simp [BlockStack.settleContinue, BlockStack.modify, BlockStack.leave, BlockStack.root]

/-! ### Loops -/

/-- A loop over what some code leaves on the stack, whose body is empty. -/
def foreachCode (own : Code) (table line : Nat) : Code :=
  own ++ #[⟨.foreachInit, 0, own.size + 3, .foreach table, line⟩, ⟨.foreachStep, 0, own.size + 3, .foreach table, line⟩,
    ⟨.jmp, 0, own.size + 1, .none, line⟩]

/-- The loop as long as its jumps out of it wait for their target. -/
def openLoop (own : Code) (table line : Nat) : Code :=
  own ++ #[⟨.foreachInit, 0, 0, .foreach table, line⟩, ⟨.foreachStep, 0, 0, .foreach table, line⟩,
    ⟨.jmp, 0, own.size + 1, .none, line⟩]

theorem size_openLoop (own : Code) (table line : Nat) : (openLoop own table line).size = own.size + 3 := Array.size_append

/-- The jumps out of a loop are filled in behind it. -/
theorem patch_openLoop (own : Code) (table line : Nat) :
    ((openLoop own table line).patch own.size (own.size + 3)).patch (own.size + 1) (own.size + 3) =
      foreachCode own table line := by
  refine Array.ext_getElem? fun i => ?_
  rw [Code.getElem?_patch, Code.getElem?_patch, openLoop, foreachCode]
  rcases Nat.lt_or_ge i own.size with hi | hi
  · rw [if_neg (by omega), if_neg (by omega), Array.getElem?_append_left hi, Array.getElem?_append_left hi]
  · obtain ⟨k, rfl⟩ := Nat.exists_eq_add_of_le hi
    simp only [Array.getElem?_append_right hi, Nat.add_sub_cancel_left, Nat.add_left_cancel_iff, Nat.left_eq_add]
    rcases k with _ | _ | _ | k <;> simp

/-- The variable of a loop is generated for nothing but its line. -/
theorem after_discard_headerVariable (i line : Nat) (name : String) (s : GenState) :
    after (discarding ((Parse.headerVariable i line name).gen {} (some .foreachTarget))) s =
      { s with buffer := ⟨s.code, line⟩ } := by
  have dropped : (s.code.push ⟨.load, 0, 0, .name name, line⟩).take s.code.size = s.code := by
    rw [Array.take_eq_extract, Array.extract_push, if_pos (Nat.le_refl _), Array.extract_size]
  exact congrArg (fun code => { s with buffer := ⟨code, line⟩ }) dropped

/-- The block of a loop over what the code so far leaves on the stack, behind its jump back. -/
def foreachBlock (own : Code) : Block :=
  { tags := [.loop], first := own.size + 1, owner := .none,
    pending := [⟨.foreachInit, own.size⟩, ⟨.foreachStep, own.size + 1⟩] }

/-- The head of a loop over one variable, and its empty body. -/
theorem after_foreachHead {s : GenState} {first : Nat}
    (hs : s.blocks = ⟨BlockStack.root.blocks.push { tags := [.loop], first := first, owner := .none }⟩) (i line line' : Nat) :
    let t := after ((ForeachHead.value false "v" (Parse.headerVariable i line "v") (.block [] none)).gen 1 line' none) s
    t.code = openLoop s.code s.program.foreachs.length line ∧ t.reports = s.reports ∧
      t.blocks = ⟨BlockStack.root.blocks.push (foreachBlock s.code)⟩ := by
  intro t
  obtain ⟨config, reports, program, ⟨code, old⟩, blocks, left, jumps, boundaries, filled, statics, closures, noted⟩ := s
  cases hs
  have body (u : GenState) : after (braces (Stmt.genAll []) none) u =
      { u with blocks := (u.blocks.enter ⟨[.braces], u.code.size, .none, [], none⟩).2.leave,
               left := u.left ++ (u.blocks.enter ⟨[.braces], u.code.size, .none, [], none⟩).2.leaving?.toList } := by
    rfl
  have steps : t = after (foreachLoop 1 ⟨none, "v", false⟩ (braces (Stmt.genAll []) none))
      (⟨config, reports, program, ⟨code, line⟩,
        ⟨BlockStack.root.blocks.push { tags := [.loop], first := first, owner := .none }⟩, left, jumps, boundaries, filled,
        statics, closures, noted⟩) := by
    show after (ForeachHead.gen _ _ _ _) _ = _
    rw [ForeachHead.gen_value, after_bind, after_discard_headerVariable]
    rfl
  rw [steps]
  unfold foreachLoop
  simp only [after_bind, after_await, after_restartHere, after_here, result_here, body, addForeach, after_modifyGet,
    result_modifyGet, jumpTo, after_put, true_and]
  refine ⟨?_, ?_⟩
  · refine Array.ext' ?_
    simp [openLoop, GenState.code]
  · simp [BlockStack.await, BlockStack.modify, BlockStack.enter, BlockStack.leave, BlockStack.root, foreachBlock, GenState.code]

/-- Both jumps out of a loop are in its code. -/
theorem filter_foreachBlock (own : Code) (table line : Nat) :
    (foreachBlock own).pending.filter (BlockStack.settles none (openLoop own table line)) = (foreachBlock own).pending := by
  simp [foreachBlock, BlockStack.settles, size_openLoop]

/-- A loop over an expression: its source is the code that the expression comes to in the script. -/
theorem after_foreach (value : Expr) {s : GenState} (hs : s.blocks = .root) (i line behind : Nat) :
    let own := after (value.gen {} none) s
    let t := after (Stmt.foreach line value [] (.value false "v" (Parse.headerVariable i behind "v") (.block [] none))).gen s
    t.code = foreachCode own.code own.program.foreachs.length behind ∧ t.reports = own.reports ∧ t.blocks = .root := by
  intro own t
  let entered := after (enter [.loop] s.code.size .none none) s
  let source := after (value.gen {} none) entered
  have same : own.Twin source := value.twin_gen (Relocation.match_enter hs [.loop] s.code.size rfl)
  have blocks : source.blocks = ⟨BlockStack.root.blocks.push { tags := [.loop], first := s.code.size, owner := .none }⟩ := by
    refine value.blocks_gen ?_ (Nat.succ_pos _)
    show (after (enter _ _ _ _) s).blocks = _
    rw [after_enter, hs]
  have block : s.blocks.blocks.size = 1 := by
    rw [hs]
    rfl
  obtain ⟨code, reports, inside⟩ := after_foreachHead blocks i behind line
  have steps : t = after leave (after (settleContinue 1) (after (settle 1 none)
      (after ((ForeachHead.value false "v" (Parse.headerVariable i behind "v") (.block [] none)).gen 1 line none) source))) := by
    show after (Stmt.gen _) _ = _
    rw [Stmt.gen_foreach]
    unfold foreach inBlock
    simp only [after_bind, after_here, result_here, result_enter, block, reportStrays, List.map_nil,
      after_reportAll, List.append_nil]
    rfl
  obtain ⟨ended, kept, left, -⟩ := after_constructEnd inside rfl
  rw [steps]
  refine ⟨?_, kept.trans (reports.trans same.reports), left⟩
  rw [ended, code, filter_foreachBlock, size_openLoop, ← same.code, ← same.foreachs]
  simp only [foreachBlock, List.foldl_cons, List.foldl_nil, patch_openLoop]

/-! ### Switches -/

theorem reportAll_nil : reportAll [] = pure () := by
  funext s
  exact congrArg (fun reports => ((), { s with reports := reports })) (List.append_nil s.reports)

/-- A case without a body is its guard. -/
theorem genAll_case {value : Expr} (hvalue : value.isPresent = true) (line : Nat) :
    Section.genAll [.case_ line value [] []] {} = (do
      let guard ← thunk line true (value.gen {} none)
      return { cases := [⟨guard, ← here⟩] }) := by
  rw [Section.genAll_cons, Section.gen_case, hvalue]
  unfold caseSection sectionBody
  rw [List.map_nil, reportAll_nil]
  rfl

/-- The state inside a switch over `$x`, in front of its only case. -/
def GenState.asked (s : GenState) (line : Nat) : GenState :=
  { after (enter [.loop, .switch] 0 .none none) s with
    buffer := ⟨#[⟨.load, 0, 0, .name "x", line⟩, ⟨.switch, 0, 0, .switch 0, line⟩], line⟩,
    program := { s.program with switches := [{}] } }

/-- The state behind the case of a switch, whose guard has come to the second state. -/
def GenState.answered (asked guard : GenState) (line : Nat) : GenState :=
  let entry := guard.code.push ⟨.done, 1, 1, .none, line⟩
  { guard with
    buffer := ⟨asked.code, line⟩, boundaries := asked.boundaries, filled := guard.filled ++ [⟨entry, guard.boundaries⟩],
    program := { guard.program with
      switches := guard.program.switches.set 0 { cases := [⟨entry, asked.code.size⟩], out := asked.code.size } } }

/-- A switch over `$x` with one case, whose guard takes some steps. -/
theorem after_question (g : Gen Unit) {s : GenState} (hs : s.blocks = .root) (hcode : s.code = #[])
    (hswitches : s.program.switches = []) (line : Nat) :
    after (Gen.switch (loadVariable {} line "x" 0) [] (fun _ => do
        let guard ← thunk line true g
        return { cases := [⟨guard, ← here⟩] }) none) s =
      after leave (after (settleContinue 1) (after (settle 1 none)
        ((s.asked line).answered (after g (after openContainer (s.asked line))) line))) := by
  obtain ⟨config, reports, ⟨⟩, ⟨⟩, blocks, left, jumps, boundaries, filled, statics, closures, noted⟩ := s
  cases hs
  cases hcode
  cases hswitches
  unfold Gen.switch inBlock reportStrays
  rw [List.map_nil, reportAll_nil]
  rfl

/-- A switch with one case of an expression and an empty body: the guard is the code that the expression comes to in the
script, and returns its value. -/
theorem after_switch {value : Expr} (hvalue : value.isPresent = true) {s : GenState} (hs : s.blocks = .root)
    (hcode : s.code = #[]) {line : Nat} (hline : s.buffer.line = line) (hswitches : s.program.switches = []) (i : Nat) :
    let own := after (value.gen {} none) s
    let t := after (Stmt.switch (Parse.headerVariable i line "x") [] [.case_ line value [] []] none).gen s
    t.program.switches[0]? = some { cases := [⟨own.code.push ⟨.done, 1, 1, .none, line⟩, 2⟩], out := 2 } ∧
      t.reports = own.reports ∧ t.blocks = .root := by
  intro own t
  let opened := after openContainer (s.asked line)
  let guard := after (value.gen {} none) opened
  have steps : t = after leave (after (settleContinue 1) (after (settle 1 none) ((s.asked line).answered guard line))) := by
    rw [← after_question (value.gen {} none) hs hcode hswitches line]
    show after (Stmt.gen _) _ = _
    rw [Stmt.gen_switch]
    simp only [Gen.switch, genAll_case hvalue]
    rfl
  have entered := Relocation.match_enter hs [.loop, .switch] 0 rfl
  have matched : Relocation.inside.Match s opened :=
    { entered with code := congrArg (Code.mapOperands id) hcode, line := hline, program := { entered.program with } }
  have same : own.Twin guard := value.twin_gen matched
  have blocks : guard.blocks = ⟨BlockStack.root.blocks.push { tags := [.loop, .switch], first := 0, owner := .none }⟩ := by
    refine value.blocks_gen ?_ (Nat.succ_pos _)
    show (after (enter _ _ _ _) s).blocks = _
    rw [after_enter, hs]
  have longer : 0 < guard.program.switches.length :=
    Nat.lt_of_lt_of_le Nat.one_pos (value.valued_gen {} none opened).keeps.longer
  obtain ⟨-, reports, left, program⟩ := @after_constructEnd ((s.asked line).answered guard line) _ blocks rfl
  rw [steps, program]
  refine ⟨?_, reports.trans same.reports, left⟩
  show (guard.program.switches.set 0 _)[0]? = _
  rw [List.getElem?_set_self longer, ← same.code]
  rfl

/-! ### Sources of one statement -/

namespace Script

/-- The line of a script that is one expression statement. -/
def expressionLine? : List Stmt → Option Nat
  | [.onLine line (.expression _)] => some line
  | _ => none

theorem exists_expression {items : List Stmt} {line : Nat} (h : expressionLine? items = some line) :
    ∃ value, items = [.onLine line (.expression value)] := by
  unfold expressionLine? at h
  split at h
  · rename_i value
    cases h
    exact ⟨value, rfl⟩
  · cases h

end Script

namespace Config

variable {config : Config}

/-- The state in which the only statement of a source is generated. -/
def started (config : Config) (line : Nat) : GenState := after markBoundary (after (setLine line) (GenState.initial config))

/-- A source of one statement that leaves no jump waiting: its code, and a `DONE` behind it. -/
theorem generate_single (hmode : config.mode = .script) {bytes line : Nat} {tokens : List Token} {body : Stmt}
    (hitems : Script.items bytes tokens = [.onLine line body]) {s : GenState} (hs : after body.gen (config.started line) = s)
    (hblocks : s.blocks = .root) :
    let whole := config.generate bytes ⟨tokens, []⟩
    whole.code = s.code.push ⟨.done, 0, 0, .none, s.buffer.line⟩ ∧ whole.reports = s.reports ∧ whole.program = s.program := by
  intro whole
  have steps : whole = after (put .done 0 0 .none) (after (settle 0 (some .throw)) (after markBoundary s)) := by
    show config.generate bytes ⟨tokens, []⟩ = _
    rw [generate_script hmode, hitems, Script.gen, Stmt.genAll_cons, ← hs]
    rfl
  have settled : (after (settle 0 (some .throw)) (after markBoundary s)).code = s.code := by
    show (s.blocks.settle 0 (some .throw) s.code.size s.code).2.2 = s.code
    rw [hblocks]
    rfl
  rw [steps]
  refine ⟨?_, rfl, rfl⟩
  rw [after_put]
  exact congrArg (Array.push · _) settled

/-- The same problems are delivered the same way, whatever the program is. -/
theorem deliver_congr {s t : GenState} (h : t.reports = s.reports) {c : Compilation} (hs : (config.deliver s).result = .ok c) :
    config.deliver t = ⟨(config.deliver s).diagnostics, .ok { c with program := { t.program with main := t.code } }⟩ := by
  unfold deliver at hs ⊢
  rw [h]
  cases hr : config.reporter.reportAll s.reports with
  | mk abort r =>
      rw [hr] at hs
      cases abort with
      | some abort => cases hs
      | none =>
          cases hs
          rfl

/-- An expression that comes to something without an error is there. -/
theorem isPresent_generated (hmode : config.mode = .script) {bytes line : Nat} {tokens : List Token} {value : Expr}
    (hitems : Script.items bytes tokens = [.onLine line (.expression value)]) (hvalue : value ≠ .missing)
    (herrors : (config.generate bytes ⟨tokens, []⟩).errors = 0) : value.isPresent = true := by
  cases value with
  | missing => exact absurd rfl hvalue
  | tree root => rfl
  | rejected error =>
      have steps : after (Stmt.expression (.rejected error)).gen (config.started line) =
          { config.started line with reports := [⟨error.line, .tree error.fault⟩] } := by
        rw [Stmt.gen_expression, Expr.gen_rejected]
        rfl
      obtain ⟨-, reports, -⟩ := generate_single hmode hitems steps rfl
      unfold GenState.errors at herrors
      rw [reports] at herrors
      cases herrors

variable {bytes line : Nat} {tokens : List Token} {value : Expr}

theorem generate_expression (hmode : config.mode = .script)
    (hitems : Script.items bytes tokens = [.onLine line (.expression value)]) (hvalue : value.isPresent = true) :
    let own := after (value.gen {} none) (config.started line)
    let whole := config.generate bytes ⟨tokens, []⟩
    whole.code = own.code ++ #[⟨.pop, 1, 0, .none, own.buffer.line⟩, ⟨.done, 0, 0, .none, own.buffer.line⟩] ∧
      whole.reports = own.reports := by
  intro own whole
  have steps : after (Stmt.expression value).gen (config.started line) = after (put .pop 1 0 .none) own := by
    rw [Stmt.gen_expression, hvalue]
    rfl
  have blocks : own.blocks = .root := value.blocks_gen rfl Nat.one_pos
  obtain ⟨code, reports, -⟩ := generate_single hmode hitems steps blocks
  exact ⟨code, reports⟩

theorem generate_foreach (hmode : config.mode = .script) {i behind : Nat}
    (hitems : Script.items bytes tokens = [.onLine line
      (.foreach line value [] (.value false "v" (Parse.headerVariable i behind "v") (.block [] none)))]) :
    let own := after (value.gen {} none) (config.started line)
    let whole := config.generate bytes ⟨tokens, []⟩
    (∃ last, whole.code = (foreachCode own.code own.program.foreachs.length behind).push ⟨.done, 0, 0, .none, last⟩) ∧
      whole.reports = own.reports := by
  intro own whole
  have root : (config.started line).blocks = .root := rfl
  obtain ⟨code, reports, blocks⟩ := after_foreach value root i line behind
  obtain ⟨code', reports', -⟩ := generate_single hmode hitems rfl blocks
  rw [code] at code'
  exact ⟨⟨_, code'⟩, reports'.trans reports⟩

theorem generate_switch (hmode : config.mode = .script) {i : Nat}
    (hitems : Script.items bytes tokens =
      [.onLine line (.switch (Parse.headerVariable i line "x") [] [.case_ line value [] []] none)])
    (hvalue : value.isPresent = true) :
    let own := after (value.gen {} none) (config.started line)
    let whole := config.generate bytes ⟨tokens, []⟩
    whole.program.switches[0]? = some { cases := [⟨own.code.push ⟨.done, 1, 1, .none, line⟩, 2⟩], out := 2 } ∧
      whole.reports = own.reports := by
  intro own whole
  have root : (config.started line).blocks = .root := rfl
  have here : (config.started line).buffer.line = line := rfl
  obtain ⟨switches, reports, blocks⟩ := after_switch hvalue root rfl here rfl i
  obtain ⟨-, reports', program⟩ := generate_single hmode hitems rfl blocks
  rw [← program] at switches
  exact ⟨switches, reports'.trans reports⟩

/-- An expression that compiles without errors as a statement does so in a header, and becomes the same code: the
statement drops its value, a `foreach` goes through it, and the guard of a `case` returns it.  But a loop needs an
expression without `as`, wherever it would stand, and a guard one whose colons and semicolons are all in parentheses. -/
theorem compile_headers (hmode : config.mode = .script) {source : String} {e : List Token} {semicolon : Token}
    {c : Compilation} (he : Embeddable e) (hsemicolon : semicolon.is .semicolon = true)
    (hsource : config.tokens? source = some ⟨e ++ [semicolon], []⟩)
    (hline : Script.expressionLine? (Script.items source.utf8ByteSize (e ++ [semicolon])) = some line)
    (hc : (config.compile source).result = .ok c) (herrors : c.errors = 0) :
    ∃ (own : Code) (table last : Nat),
      c.program.main = own ++ #[⟨.pop, 1, 0, .none, last⟩, ⟨.done, 0, 0, .none, last⟩] ∧
      (NoAs e → ∀ loop, config.tokens? loop = some ⟨foreachTokens line e semicolon.line, []⟩ → ∃ (p : Program) (last' : Nat),
        config.compile loop = ⟨(config.compile source).diagnostics, .ok { c with program := p }⟩ ∧
        p.main = (foreachCode own table semicolon.line).push ⟨.done, 0, 0, .none, last'⟩) ∧
      (NoLabel e → ∀ choice, config.tokens? choice = some ⟨switchTokens line e semicolon.line, []⟩ → ∃ p : Program,
        config.compile choice = ⟨(config.compile source).diagnostics, .ok { c with program := p }⟩ ∧
        p.switches[0]? = some { cases := [⟨own.push ⟨.done, 1, 1, .none, line⟩, 2⟩], out := 2 }) := by
  obtain ⟨value, hitems⟩ := Script.exists_expression hline
  obtain ⟨read, hread, program, errors⟩ := compile_ok hc
  rw [hsource] at hread
  cases hread
  rw [herrors] at errors
  have present := isPresent_generated hmode hitems (Script.ne_missing_embedded he hsemicolon hitems) errors.symm
  obtain ⟨code, reports⟩ := generate_expression hmode hitems present
  rw [compile_eq hsource] at hc ⊢
  refine ⟨_, (after (value.gen {} none) (config.started line)).program.foreachs.length, _,
    (congrArg Program.main program).trans code, fun has loop hloop => ?_, fun hlabel choice hchoice => ?_⟩
  · have items := Script.items_foreach he has hsemicolon hitems (extents_tokens? hsource) (extents_tokens? hloop)
    obtain ⟨⟨last, main⟩, reports'⟩ := generate_foreach hmode items
    exact ⟨_, last, (compile_eq hloop).trans (deliver_congr (reports'.trans reports.symm) hc), main⟩
  · have items := Script.items_switch he hlabel hsemicolon hitems (extents_tokens? hsource) (extents_tokens? hchoice)
    obtain ⟨guarded, reports'⟩ := generate_switch hmode items present
    exact ⟨_, (compile_eq hchoice).trans (deliver_congr (reports'.trans reports.symm) hc), guarded⟩

/-- In `f([$c ? 1 : 2], function() { $b; })` the colon and the semicolon stand in the parentheses of the call. -/
theorem compile_headers_call :
    ∃ (c : Compilation) (own : Code) (table last : Nat),
      (({} : Config).compile "f([$c ? 1 : 2], function() \x7b $b; \x7d);").result = .ok c ∧ c.errors = 0 ∧
      c.program.main = own ++ #[⟨.pop, 1, 0, .none, last⟩, ⟨.done, 0, 0, .none, last⟩] ∧ own.size = 10 ∧
      (∃ (p : Program) (last' : Nat),
        (({} : Config).compile "foreach (f([$c ? 1 : 2], function() \x7b $b; \x7d) as $v) \x7b \x7d").result =
          .ok { c with program := p } ∧
        p.main = (foreachCode own table 1).push ⟨.done, 0, 0, .none, last'⟩) ∧
      ∃ p : Program,
        (({} : Config).compile "switch ($x) \x7b case f([$c ? 1 : 2], function() \x7b $b; \x7d): \x7d").result =
          .ok { c with program := p } ∧
        p.switches[0]? = some { cases := [⟨own.push ⟨.done, 1, 1, .none, 1⟩, 2⟩], out := 2 } := by
  have small : (({} : Config).compile "f([$c ? 1 : 2], function() \x7b $b; \x7d);").result.toOption.map (fun c =>
      (c.errors, c.program.main.size)) = some (0, 12) := by
    rw [compile_ofList rfl rfl]
    decide +kernel
  let e : List Token :=
    [⟨.name, "f", 1⟩, ⟨.openParen, "(", 1⟩, ⟨.openBracket, "[", 1⟩, ⟨.dollar, "$", 1⟩, ⟨.name, "c", 1⟩,
      ⟨.operator .ternary, "?", 1⟩, ⟨.integer, "1", 1⟩, ⟨.colon, ":", 1⟩, ⟨.integer, "2", 1⟩, ⟨.closeBracket, "]", 1⟩,
      ⟨.comma, ",", 1⟩, ⟨.keyword .function, "function", 1⟩, ⟨.openParen, "(", 1⟩, ⟨.closeParen, ")", 1⟩,
      ⟨.openBrace, "\x7b", 1⟩, ⟨.dollar, "$", 1⟩, ⟨.name, "b", 1⟩, ⟨.semicolon, ";", 1⟩, ⟨.closeBrace, "\x7d", 1⟩,
      ⟨.closeParen, ")", 1⟩]
  have read {source : String} {cs : List Char} {ts : List Token} (hcs : source = String.ofList cs)
      (h : (Tokens.ofLexemes (Lexer.runBySize cs.length ⟨1, 1⟩ cs)).tokens = ts ∧
        (Tokens.ofLexemes (Lexer.runBySize cs.length ⟨1, 1⟩ cs)).errors = []) :
      ({} : Config).tokens? source = some ⟨ts, []⟩ := by
    rw [tokens?_ofList rfl hcs, ← h.1, ← h.2]
  have embeddable : Embeddable e := ⟨by decide, by decide, by decide, by decide, by decide⟩
  have noAs : NoAs e := by
    unfold NoAs
    decide
  have noLabel : NoLabel e := by
    unfold NoLabel
    decide
  have whole : ({} : Config).tokens? "f([$c ? 1 : 2], function() \x7b $b; \x7d);" = some ⟨e ++ [⟨.semicolon, ";", 1⟩], []⟩ :=
    read rfl (by decide +kernel)
  have loop : ({} : Config).tokens? "foreach (f([$c ? 1 : 2], function() \x7b $b; \x7d) as $v) \x7b \x7d" =
      some ⟨foreachTokens 1 e 1, []⟩ := read rfl (by decide +kernel)
  have choice : ({} : Config).tokens? "switch ($x) \x7b case f([$c ? 1 : 2], function() \x7b $b; \x7d): \x7d" =
      some ⟨switchTokens 1 e 1, []⟩ := read rfl (by decide +kernel)
  have line : Script.expressionLine?
      (Script.items "f([$c ? 1 : 2], function() \x7b $b; \x7d);".utf8ByteSize (e ++ [⟨.semicolon, ";", 1⟩])) = some 1 := by
    decide +kernel
  obtain ⟨c, hc, told⟩ := Outcome.ok_of_map small
  obtain ⟨errors, size⟩ := Prod.mk.inj told
  obtain ⟨own, table, last, main, looped, guarded⟩ := compile_headers rfl embeddable rfl whole line hc errors
  obtain ⟨p, last', hp, hloop⟩ := looped noAs _ loop
  obtain ⟨q, hq, hguard⟩ := guarded noLabel _ choice
  refine ⟨c, own, table, last, hc, errors, main, ?_, ⟨p, last', by rw [hp], hloop⟩, q, by rw [hq], hguard⟩
  rw [main, Array.size_append] at size
  exact Nat.add_right_cancel size

end Config

end StackScript
