/-
Conditionals, loops, jumps and exceptions keep classes well formed.

A construct whose header cannot be read is a report, and what was read of it in front of the problem is kept; in every
case what is kept was read by the readers of what is nested inside it.
-/
import StackScript.Proofs.Classes.Reading

namespace StackScript

open Gen

namespace Parse

variable {r : Readers}

/-! ### Conditionals -/

theorem yields_chain (hr : r.Fitting) (n : Nat) : (chain r n).Yields fun c => ∀ id, Gen.Fitting (c.gen id) := by
  have done (id : Nat) : Gen.Fitting (Chain.done.gen id) := fitting.still (still_pure ())
  have malformed (report : Report) (id : Nat) : Gen.Fitting ((Chain.malformed report).gen id) := by
    exact fitting.still (still_report _ _)
  induction n with
  | zero => exact .pure done
  | succ n ih =>
      unfold chain
      refine .behind fun here => .behind fun opened => .ite (.behind fun _ => .pure (malformed _)) (.behind fun group => ?_)
      split
      · exact .behind fun _ => .pure (malformed _)
      · refine (yields_condition hr _ _).bind fun test htest => .behind fun _ => (yieldsStmt_block hr).bind fun body hbody => ?_
        have branch {rest : Chain} (hrest : ∀ id, Gen.Fitting (rest.gen id)) (id : Nat) :
            Gen.Fitting ((Chain.branch test.1 test.2 body rest).gen id) := by
          exact fitting.branch id (htest {} none) test.2 hbody _ (hrest id)
        refine .behind fun _ => .ite (.behind fun _ => ih.bind fun rest hrest => .pure (branch hrest)) ?_
        refine .behind fun _ => .ite (.behind fun _ => .behind fun _ => .ite ?_ ?_) (.pure (branch done))
        · exact ih.bind fun rest hrest => .pure (branch hrest)
        · refine (yieldsStmt_block hr).bind fun last hlast => .pure (branch fun id => ?_)
          exact hlast

theorem yieldsStmt_if (hr : r.Fitting) : YieldsStmt (ifStatement r) := by
  refine .behind fun _ => .behind fun s => (yields_chain hr _).bind fun chain hchain => .pure ?_
  exact fitting.inBlock hchain

/-! ### Switches -/

theorem yields_sectionItems (hr : r.Fitting) (n : Nat) :
    (sectionItems r n).Yields fun read => ∀ i ∈ read.1, Gen.Fitting i.gen := by
  induction n with
  | zero => exact .pure (List.forall_mem_nil _)
  | succ n ih =>
      unfold sectionItems
      refine .behind fun next => ?_
      split
      · exact .pure (List.forall_mem_nil _)
      · refine .ite (.behind fun _ => .pure (List.forall_mem_nil _)) (.ite (.pure (List.forall_mem_nil _)) ?_)
        exact (yieldsStmt_block hr).bind fun item hitem => ih.bind fun rest hrest =>
          .pure (List.forall_mem_cons.mpr ⟨hitem, hrest⟩)

theorem yields_caseGuard? (hr : r.Fitting) :
    (caseGuard? r).Yields fun read => ∀ guard, read = some guard → guard.2.Fitting := by
  refine .behind fun s => .ite (.pure fun guard h => by cases h) (.behind fun here => ?_)
  refine ((hr.expr false).within _ _).bind fun value hvalue => .behind fun _ => .pure ?_
  rintro guard ⟨⟩
  exact hvalue

abbrev YieldsSections (p : Parse (List Section × Option Report)) : Prop :=
  p.Yields fun read => ∀ table, Gen.Fitting (Section.genAll read.1 table)

theorem yields_sections (hr : r.Fitting) (brace out n : Nat) : YieldsSections (sections r brace out n) := by
  have empty (table : SwitchTable) : Gen.Fitting (Section.genAll [] table) := fitting.still (still_pure table)
  have closed : YieldsSections (pure ([], none)) := .pure empty
  have followed {section_ : Section} {rest : List Section} (hfirst : ∀ table, Gen.Fitting (section_.gen table))
      (hrest : ∀ table, Gen.Fitting (Section.genAll rest table)) (table : SwitchTable) :
      Gen.Fitting (Section.genAll (section_ :: rest) table) := by
    exact fitting.bind (hfirst table) hrest
  induction n with
  | zero => exact .pure empty
  | succ n ih =>
      unfold sections
      refine .behind fun next => ?_
      split
      · exact .pure empty
      · refine .ite (.behind fun _ => .pure empty) (.ite ?_ (.ite (.behind fun _ => .behind fun here => ?_)
          (.behind fun _ => .pure empty)))
        · refine .behind fun _ => .behind fun strays => .behind fun s => ?_
          refine (yields_sectionItems hr _).bind fun body hbody => ?_
          have first (line : Nat) (table : SwitchTable) : Gen.Fitting ((Section.default_ line strays body.1).gen table) := by
            exact fitting.defaultSection line strays (Stmt.fitting_genAll hbody) table
          exact .ite (closed.bind fun _ hrest => .pure (followed (first _) hrest))
            (ih.bind fun _ hrest => .pure (followed (first _) hrest))
        · refine (yields_caseGuard? hr).bind fun guard hguard => ?_
          split
          · exact .behind fun _ => .pure empty
          · rename_i guardLine guard
            refine .behind fun strays => .behind fun s => ?_
            refine (yields_sectionItems hr _).bind fun body hbody => ?_
            have first (table : SwitchTable) : Gen.Fitting ((Section.case_ guardLine guard strays body.1).gen table) := by
              exact fitting.caseSection guardLine guard (hguard (guardLine, guard) rfl {} none) strays
                (Stmt.fitting_genAll hbody) table
            exact .ite (closed.bind fun _ hrest => .pure (followed first hrest))
              (ih.bind fun _ hrest => .pure (followed first hrest))

theorem yieldsStmt_switch (hr : r.Fitting) : YieldsStmt (switchStatement r) := by
  unfold switchStatement
  refine .behind fun here => .behind fun _ => .behind fun opened =>
    .ite (.behind fun _ => yieldsStmt_report _ _) (.behind fun group => ?_)
  split
  · exact .behind fun _ => yieldsStmt_report _ _
  · refine (yields_condition hr _ _).bind fun subject hsubject => .behind fun _ => .behind fun next => ?_
    split
    · refine .behind fun _ => .behind fun _ => .pure ?_
      exact fitting.switchWithoutBody (hsubject {} none) _ _
    · refine .behind fun s => .behind fun _ => .behind fun s => (yields_sections hr _ _ _).bind fun read hread => .pure ?_
      exact fitting.switch (hsubject {} none) _ hread _

/-! ### Loops -/

theorem yieldsStmt_while (hr : r.Fitting) : YieldsStmt (whileStatement r) := by
  unfold whileStatement
  refine .behind fun here => .behind fun _ => .behind fun opened =>
    .ite (.behind fun _ => yieldsStmt_report _ _) (.behind fun group => ?_)
  split
  · exact .behind fun _ => yieldsStmt_report _ _
  · refine (yields_condition hr _ _).bind fun test htest => .behind fun _ => (yieldsStmt_block hr).bind fun body hbody => .pure ?_
    exact fitting.whileLoop (htest {} none) _ hbody

theorem yieldsStmt_do (hr : r.Fitting) : YieldsStmt (doStatement r) := by
  unfold doStatement
  refine .behind fun here => .behind fun _ => (yieldsStmt_block hr).bind fun body hbody => ?_
  have bare (report : Report) : Gen.Fitting (Stmt.doWithoutTest body report).gen := by
    exact fitting.doWithoutTest hbody report
  refine .behind fun _ => .ite (.behind fun _ => .pure (bare _)) (.behind fun opened =>
    .ite (.behind fun _ => .pure (bare _)) (.behind fun group => ?_))
  split
  · exact .behind fun _ => .pure (bare _)
  · refine (yields_condition hr _ _).bind fun test htest => .behind fun _ => .pure ?_
    exact fitting.doLoop hbody (htest {} none) _

theorem yieldsStmt_expression (hr : r.Fitting) : YieldsStmt (expressionStatement r) := by
  refine (hr.expr false).bind fun value hvalue => .pure ?_
  exact fitting.expression _ (hvalue {} none)

theorem yields_forInit (hr : r.Fitting) : (forInit r).Yields fun read => Gen.Fitting read.1.gen := by
  refine .behind fun next => .ite ?_ ?_
  · exact (yieldsStmt_variables hr).bind fun init hinit => .behind fun _ => .ite (.behind fun _ => .pure hinit) (.pure hinit)
  · exact (yieldsStmt_expression hr).bind fun init hinit => .behind fun _ => .ite (.behind fun _ => .pure hinit) (.pure hinit)

theorem yieldsStmt_for (hr : r.Fitting) : YieldsStmt (forStatement r) := by
  unfold forStatement
  refine .behind fun here => .behind fun _ => .behind fun opened =>
    .ite (.behind fun _ => yieldsStmt_report _ _) (.behind fun group => ?_)
  split
  · exact .behind fun _ => .behind fun _ => .behind fun _ => .behind fun _ => yieldsStmt_report _ _
  · refine ((yields_forInit hr).within _ _).bind fun init hinit => ?_
    dsimp only
    split
    · refine .behind fun _ => .behind fun _ => .pure ?_
      exact fitting.bind hinit fun _ => fitting.bind (Stmt.fitting_report _) fun _ => fitting.still (still_pure ())
    · have test : (forTest r).Yields fun read => read.1.Fitting :=
        (hr.expr false).bind fun _ htest => .behind fun _ => .behind fun _ => .pure htest
      have post : (forPost r).Yields fun read => read.1.Fitting :=
        .behind fun _ => (hr.expr false).bind fun _ hpost => .behind fun _ => .pure hpost
      refine (test.within _ _).bind fun test htest => (post.within _ _).bind fun post hpost => .behind fun _ => ?_
      refine (yieldsStmt_block hr).bind fun body hbody => .pure ?_
      exact fitting.forLoop here hinit _ (htest {} none) _ hbody _ (hpost {} none) _

abbrev YieldsHead (p : Parse ForeachHead) : Prop := p.Yields fun head => ∀ id line key, Gen.Fitting (head.gen id line key)

theorem yields_abandonForeach (closing : Nat) {head : ForeachHead} (h : ∀ id line key, Gen.Fitting (head.gen id line key)) :
    YieldsHead (abandonForeach closing head) := .behind fun _ => .behind fun _ => .pure h

theorem head_malformed (problem : Problem) (id line : Nat) (key : Option String) :
    Gen.Fitting ((ForeachHead.malformed problem).gen id line key) := by
  exact fitting.still (still_report _ _)

theorem head_unbound {binding : Expr} (h : binding.Fitting) (bindingLine id line : Nat) (key : Option String) :
    Gen.Fitting ((ForeachHead.unbound bindingLine binding).gen id line key) := by
  exact fitting.unbound _ (h {} _)

theorem yields_foreachValue (hr : r.Fitting) (start closing : Nat) : YieldsHead (foreachValue r start closing) := by
  unfold foreachValue
  refine .behind fun s => ?_
  dsimp only
  refine .ite (yields_abandonForeach closing (head_malformed _)) (((hr.expr false).within _ _).bind fun value hvalue => ?_)
  split
  · exact .behind fun _ => yields_abandonForeach closing (head_unbound hvalue _)
  · refine .behind fun _ => (yieldsStmt_block hr).bind fun body hbody => .pure fun id line key => ?_
    exact fitting.bind (fitting.discarding (hvalue {} _)) fun _ => fitting.foreachLoop id _ hbody

theorem yields_foreachHead (hr : r.Fitting) (start closing : Nat) : YieldsHead (foreachHead r start closing) := by
  unfold foreachHead
  refine .ite (yields_abandonForeach closing (head_malformed _)) (.behind fun arrow => ?_)
  split
  · exact yields_foreachValue hr start closing
  · refine .ite (yields_abandonForeach closing (head_malformed _)) (((hr.expr false).within _ _).bind fun key hkey => ?_)
    split
    · exact .behind fun _ => yields_abandonForeach closing (head_unbound hkey _)
    · rename_i name _
      refine (yields_foreachValue hr _ closing).bind fun rest hrest => .pure fun id line key' => ?_
      exact fitting.bind (fitting.discarding (hkey {} _)) fun _ => hrest id line (some name)

theorem yieldsStmt_foreach (hr : r.Fitting) : YieldsStmt (foreachStatement r) := by
  unfold foreachStatement
  refine .behind fun here => .behind fun _ => .behind fun opened =>
    .ite (.behind fun _ => yieldsStmt_report _ _) (.behind fun group => ?_)
  split
  · exact .behind fun _ => yieldsStmt_report _ _
  · refine .behind fun found => ?_
    split
    · exact .behind fun _ => .behind fun _ => yieldsStmt_report _ _
    · refine (yields_condition hr _ _).bind fun source hsource => (yields_foreachHead hr _ _).bind fun head hhead => .pure ?_
      exact fitting.foreach (hsource {} none) _ fun id => hhead id here none

/-! ### Jumps and exceptions -/

theorem yieldsStmt_loopJump (jump : LoopJump) : YieldsStmt (loopJump jump) := by
  have jumps (line level : Nat) (unterminated : Bool) : Gen.Fitting (Stmt.loopJump jump line level unterminated).gen := by
    exact fitting.still (still_loopJump jump line level unterminated)
  unfold loopJump
  refine .behind fun here => .behind fun _ => .behind fun next => ?_
  split
  · exact .behind fun _ => .behind fun _ => .behind fun _ => .behind fun _ => .behind fun _ => .pure (jumps _ _ _)
  · exact .behind fun _ => .behind fun _ => .behind fun _ => .behind fun _ => .pure (jumps _ _ _)

theorem yieldsStmt_return (hr : r.Fitting) : YieldsStmt (returnStatement r) := by
  refine .behind fun _ => (hr.expr false).bind fun value hvalue => .pure ?_
  exact fitting.before (hvalue {} none) fun _ => still_put

theorem yieldsStmt_exit (hr : r.Fitting) : YieldsStmt (exitStatement r) := by
  refine .behind fun _ => (hr.expr false).bind fun value hvalue => .pure ?_
  exact fitting.before (hvalue {} none) fun _ => still_put

theorem yields_catchClause (hr : r.Fitting) :
    (catchClause r).Yields fun clause => ∀ b, clause.body? = some b → Gen.Fitting b.gen := by
  have malformed (line : Nat) (problem : Problem) :
      (malformedCatch line problem).Yields fun clause => ∀ b, clause.body? = some b → Gen.Fitting b.gen :=
    .behind fun _ => .pure fun b h => by cases h
  unfold catchClause
  refine .behind fun here => .behind fun paren => .ite (malformed _ _) (.behind fun className => .ite (malformed _ _) ?_)
  refine .behind fun _ => .behind fun _ => .behind fun binding => ?_
  split
  · exact .behind fun _ => malformed _ _
  · refine .behind fun _ => .behind fun _ => .behind fun closed => .ite ?_ (.behind fun _ => malformed _ _)
    refine (yieldsStmt_block hr).bind fun body hbody => .pure ?_
    rintro b ⟨⟩
    exact hbody

theorem yields_catchClauses (hr : r.Fitting) (n : Nat) :
    (catchClauses r n).Yields fun clauses => ∀ b ∈ clauses.filterMap CatchClause.body?, Gen.Fitting b.gen := by
  induction n with
  | zero => exact .pure (List.forall_mem_nil _)
  | succ n ih =>
      unfold catchClauses
      refine .behind fun _ => .ite ?_ (.pure (List.forall_mem_nil _))
      refine (yields_catchClause hr).bind fun clause hclause => ih.bind fun rest hrest => .pure fun b hb => ?_
      obtain ⟨c, hc, hbody⟩ := List.mem_filterMap.mp hb
      rcases List.mem_cons.mp hc with rfl | hc
      · exact hclause b hbody
      · exact hrest b (List.mem_filterMap.mpr ⟨c, hc, hbody⟩)

theorem yieldsStmt_try (hr : r.Fitting) : YieldsStmt (tryStatement r) := by
  unfold tryStatement
  refine .behind fun here => .behind fun _ => (yieldsStmt_block hr).bind fun body hbody => .behind fun _ => .ite ?_ ?_
  · exact .behind fun s => (yields_catchClauses hr _).bind fun clauses hclauses => .pure
      (fitting.tryCatch body clauses none hbody hclauses)
  · exact .behind fun _ => .pure (fitting.tryCatch body [] _ hbody (List.forall_mem_nil _))

theorem yieldsStmt_throw (hr : r.Fitting) : YieldsStmt (throwStatement r) := by
  refine .behind fun here => .behind fun _ => (hr.expr false).bind fun value hvalue => .pure ?_
  exact fitting.throw here _ (hvalue {} _)

end Parse

end StackScript
