/-
The names and the problems of statements.

A construct whose header cannot be read is a problem of reading, and what was read of it in front of the problem is
kept.  Names of functions come from two places only, declarations of functions and of methods, and both take them from
the token in front.
-/
import StackScript.Parser.Statement
import StackScript.Proofs.Naming.Reading

namespace StackScript

namespace Parse

section Keeps

instance (i : Nat) : Keeps (lineAt i) := by
  unfold lineAt
  infer_instance

instance : Keeps labelRest := by
  unfold labelRest
  infer_instance

instance : Keeps functionOffset? := by
  unfold functionOffset?
  infer_instance

instance : Keeps functionKind? := by
  unfold functionKind?
  refine Keeps.bind inferInstance fun offset => ?_
  split <;> infer_instance

instance : Keeps declarationKind? := by
  unfold declarationKind?
  refine Keeps.bind inferInstance fun next => ?_
  refine Keeps.bind inferInstance fun t => ?_
  split <;> infer_instance

instance : Keeps memberKeyword := by
  unfold memberKeyword
  refine Keeps.bind inferInstance fun t => ?_
  split
  · split <;> infer_instance
  · infer_instance

instance (n : Nat) : Keeps (nameList? n) := by
  induction n with
  | zero => exact inferInstanceAs (Keeps (pure none))
  | succ n ih =>
      unfold nameList?
      refine Keeps.bind inferInstance fun t => ?_
      split
      · infer_instance
      · refine Keeps.bind inferInstance fun _ => Keeps.bind inferInstance fun comma => ?_
        split
        · refine Keeps.bind ih fun names => ?_
          split <;> infer_instance
        · infer_instance

instance (word : Keyword) : Keeps (namesBehind? word) := by
  unfold namesBehind?
  infer_instance

end Keeps

variable {r : Readers}

theorem overStmt_dropped (line : Nat) {problem : Problem} (h : problem.IsForeign) : OverStmt (dropped line problem) :=
  .behind fun _ => overStmt_report line h

theorem overStmt_recovered (line : Nat) {problem : Problem} (h : problem.IsForeign) : OverStmt (recovered line problem) :=
  .behind fun _ => overStmt_report line h

/-! ### Declarations of constants, variables and namespaces -/

theorem overStmt_constant (hr : r.Over) : OverStmt (constant r) := by
  unfold constant
  refine .behind fun here => .behind fun _ => .behind fun next => ?_
  split
  · exact overStmt_recovered _ trivial
  · refine .ite (overStmt_recovered _ trivial) (.behind fun _ => .behind fun equals => .ite ?_ (overStmt_recovered _ trivial))
    exact .behind fun valueLine => (hr.expr false).bind fun value hvalue => .pure hvalue

theorem over_localDeclarator (hr : r.Over) (name : String) :
    (localDeclarator r name).Over fun d => Proper d.mentions := by
  refine .behind fun here => .behind fun next => .ite ?_ (.behind fun _ => .behind fun _ => .pure .nil)
  exact (hr.expr true).bind fun value hvalue => .pure hvalue

theorem over_staticDeclarator (hr : r.Over) (name : String) :
    (staticDeclarator r name).Over fun d => Proper d.mentions := by
  refine .behind fun here => .behind fun _ => .behind fun _ => .behind fun equals => .ite ?_ (.pure .nil)
  exact .behind fun valueLine => (hr.expr true).bind fun value hvalue => .pure hvalue

theorem over_declarators (hr : r.Over) (line : Nat) (isStatic : Bool) (n : Nat) :
    (declarators r line isStatic n).Over fun read => Proper (Declarator.allMentions read.1) ∧ Proper (Mention.fault read.2) := by
  induction n with
  | zero => exact .pure ⟨.nil, .nil⟩
  | succ n ih =>
      unfold declarators
      refine .behind fun next => ?_
      split
      · exact .behind fun _ => .behind fun _ => .pure ⟨.nil, .single trivial⟩
      · rename_i name
        refine .ite ((over_staticDeclarator hr name).bind fun d hd => ?_)
          ((over_localDeclarator hr name).bind fun d hd => ?_)
        all_goals
          have alone : Proper (Declarator.allMentions [d]) := hd.append .nil
          refine .behind fun behind => ?_
          split
          · exact .pure ⟨alone, .nil⟩
          · refine .ite (.pure ⟨alone, .nil⟩) (.ite (.behind fun _ => ?_) ?_)
            · exact ih.bind fun read hread => .pure ⟨hd.append hread.1, hread.2⟩
            · exact .behind fun _ => .pure ⟨alone, .single trivial⟩

theorem overStmt_variables (hr : r.Over) : OverStmt (variableDeclaration r) := by
  unfold variableDeclaration
  refine .behind fun here => .behind fun isStatic => .behind fun type => ?_
  split
  · exact .behind fun _ => overStmt_recovered _ trivial
  · exact .behind fun s => (over_declarators hr here isStatic _).bind fun read hread =>
      .pure (hread.1.append hread.2)

theorem overStmt_namespace (hr : r.Over) : OverStmt (namespaceDeclaration r) := by
  unfold namespaceDeclaration
  refine .behind fun here => .behind fun _ => .behind fun next => ?_
  split
  · exact overStmt_dropped _ trivial
  · refine .behind fun _ => .behind fun opened => .ite (.behind fun _ => overStmt_dropped _ trivial) (.behind fun group => ?_)
    split
    · exact .behind fun _ => overStmt_report _ trivial
    · exact (hr.scope.within _ _).bind fun items hitems => .behind fun _ => .pure hitems

theorem overStmt_using : OverStmt usingStatement := by
  unfold usingStatement
  have ends (here : Nat) : OverStmt (do
      if ← check [.semicolon] then return .using_ here
      else recovered here (.usingUnterminated (textOf (← peek)))) :=
    .behind fun ended => .ite (.pure .nil) (.behind fun _ => overStmt_recovered _ trivial)
  exact .behind fun here => .behind fun _ => .behind fun _ => .behind fun renamed =>
    .ite (.behind fun _ => ends here) (ends here)

/-! ### Conditionals -/

theorem over_chain (hr : r.Over) (n : Nat) : (chain r n).Over fun c => Proper c.mentions := by
  induction n with
  | zero => exact .pure .nil
  | succ n ih =>
      unfold chain
      refine .behind fun here => .behind fun opened =>
        .ite (.behind fun _ => .pure (.single trivial)) (.behind fun group => ?_)
      split
      · exact .behind fun _ => .pure (.single trivial)
      · refine (over_condition hr _ _).bind fun test htest => .behind fun _ => (overStmt_block hr).bind fun body hbody => ?_
        have branch {rest : Chain} (hrest : Proper rest.mentions) : Proper (Chain.branch test.1 test.2 body rest).mentions :=
          htest.append (hbody.append hrest)
        refine .behind fun _ => .ite (.behind fun _ => ih.bind fun rest hrest => .pure (branch hrest)) ?_
        refine .behind fun _ => .ite (.behind fun _ => .behind fun _ => .ite ?_ ?_) (.pure (branch .nil))
        · exact ih.bind fun rest hrest => .pure (branch hrest)
        · exact (overStmt_block hr).bind fun last hlast => .pure (branch hlast)

theorem overStmt_if (hr : r.Over) : OverStmt (ifStatement r) :=
  .behind fun _ => .behind fun _ => (over_chain hr _).bind fun _ hchain => .pure hchain

/-! ### Switches -/

theorem over_sectionItems (hr : r.Over) (n : Nat) : (sectionItems r n).Over fun read => Proper (Stmt.allMentions read.1) := by
  induction n with
  | zero => exact .pure .nil
  | succ n ih =>
      unfold sectionItems
      refine .behind fun next => ?_
      split
      · exact .pure .nil
      · refine .ite (.behind fun _ => .pure .nil) (.ite (.pure .nil) ?_)
        exact (overStmt_block hr).bind fun item hitem => ih.bind fun rest hrest => .pure (hitem.append hrest)

theorem over_caseGuard? (hr : r.Over) :
    (caseGuard? r).Over fun read => ∀ guard, read = some guard → Proper guard.2.mentions := by
  refine .behind fun s => .ite (.pure (by rintro _ ⟨⟩)) (.behind fun here => ?_)
  refine ((hr.expr false).within _ _).bind fun value hvalue => .behind fun _ => .pure ?_
  rintro guard ⟨⟩
  exact hvalue

/-- Sections with proper mentions are read, and so is the problem that ends their reading. -/
abbrev OverSections (p : Parse (List Section × Option Report)) : Prop :=
  p.Over fun read => Proper (Section.allMentions read.1) ∧ Proper (Mention.fault read.2)

theorem over_sections (hr : r.Over) (brace out n : Nat) : OverSections (sections r brace out n) := by
  have closed : OverSections (pure ([], none)) := .pure ⟨.nil, .nil⟩
  induction n with
  | zero => exact .pure ⟨.nil, .nil⟩
  | succ n ih =>
      unfold sections
      refine .behind fun next => ?_
      split
      · exact .pure ⟨.nil, .single trivial⟩
      · refine .ite (.behind fun _ => .pure ⟨.nil, .nil⟩) (.ite ?_ (.ite (.behind fun _ => .behind fun here => ?_)
          (.behind fun _ => .pure ⟨.nil, .single trivial⟩)))
        · refine .behind fun _ => .behind fun strays => .behind fun s => ?_
          refine (over_sectionItems hr _).bind fun body hbody => ?_
          exact .ite (closed.bind fun _ hrest => .pure ⟨hbody.append hrest.1, hrest.2⟩)
            (ih.bind fun _ hrest => .pure ⟨hbody.append hrest.1, hrest.2⟩)
        · refine (over_caseGuard? hr).bind fun guard hguard => ?_
          split
          · exact .behind fun _ => .pure ⟨.nil, .single trivial⟩
          · have hguard := hguard _ rfl
            refine .behind fun strays => .behind fun s => ?_
            refine (over_sectionItems hr _).bind fun body hbody => ?_
            exact .ite (closed.bind fun _ hrest => .pure ⟨(hguard.append hbody).append hrest.1, hrest.2⟩)
              (ih.bind fun _ hrest => .pure ⟨(hguard.append hbody).append hrest.1, hrest.2⟩)

theorem overStmt_switch (hr : r.Over) : OverStmt (switchStatement r) := by
  unfold switchStatement
  refine .behind fun here => .behind fun _ => .behind fun opened =>
    .ite (.behind fun _ => overStmt_report _ trivial) (.behind fun group => ?_)
  split
  · exact .behind fun _ => overStmt_report _ trivial
  · refine (over_condition hr _ _).bind fun subject hsubject => .behind fun _ => .behind fun next => ?_
    split
    · exact .behind fun _ => .behind fun _ => .pure (hsubject.append (.single trivial))
    · exact .behind fun s => .behind fun _ => .behind fun s => (over_sections hr _ _ _).bind fun read hread =>
        .pure (hsubject.append (hread.1.append hread.2))

/-! ### Loops -/

theorem overStmt_while (hr : r.Over) : OverStmt (whileStatement r) := by
  unfold whileStatement
  refine .behind fun here => .behind fun _ => .behind fun opened =>
    .ite (.behind fun _ => overStmt_report _ trivial) (.behind fun group => ?_)
  split
  · exact .behind fun _ => overStmt_report _ trivial
  · exact (over_condition hr _ _).bind fun test htest => .behind fun _ =>
      (overStmt_block hr).bind fun body hbody => .pure (htest.append hbody)

theorem overStmt_do (hr : r.Over) : OverStmt (doStatement r) := by
  unfold doStatement
  refine .behind fun here => .behind fun _ => (overStmt_block hr).bind fun body hbody => ?_
  refine .behind fun _ => .ite (.behind fun _ => .pure (hbody.append (.single trivial))) (.behind fun opened =>
    .ite (.behind fun _ => .pure (hbody.append (.single trivial))) (.behind fun group => ?_))
  split
  · exact .behind fun _ => .pure (hbody.append (.single trivial))
  · exact (over_condition hr _ _).bind fun test htest => .behind fun _ => .pure (hbody.append htest)

theorem overStmt_expression (hr : r.Over) : OverStmt (expressionStatement r) :=
  (hr.expr false).bind fun _ hvalue => .pure hvalue

theorem over_forInit (hr : r.Over) : (forInit r).Over fun read => Proper read.1.mentions := by
  have behind (p : Parse Stmt) (hp : OverStmt p) : Over (do
      let init ← p
      if ← eat [.semicolon] then return (init, some (← pos)) else return (init, none)) fun read => Proper read.1.mentions :=
    hp.bind fun init hinit => .behind fun _ => .ite (.behind fun _ => .pure hinit) (.pure hinit)
  exact .behind fun next => .ite (behind _ (overStmt_variables hr)) (behind _ (overStmt_expression hr))

theorem overStmt_for (hr : r.Over) : OverStmt (forStatement r) := by
  unfold forStatement
  refine .behind fun here => .behind fun _ => .behind fun opened =>
    .ite (.behind fun _ => overStmt_report _ trivial) (.behind fun group => ?_)
  split
  · exact .behind fun _ => .behind fun _ => .behind fun _ => .behind fun _ => overStmt_report _ trivial
  · refine ((over_forInit hr).within _ _).bind fun init hinit => ?_
    dsimp only
    split
    · exact .behind fun _ => .behind fun _ => .pure (hinit.append (.cons trivial .nil))
    · have test : (forTest r).Over fun read => Proper read.1.mentions :=
        (hr.expr false).bind fun _ htest => .behind fun _ => .behind fun _ => .pure htest
      have post : (forPost r).Over fun read => Proper read.1.mentions :=
        .behind fun _ => (hr.expr false).bind fun _ hpost => .behind fun _ => .pure hpost
      refine (test.within _ _).bind fun test htest => (post.within _ _).bind fun post hpost => .behind fun _ => ?_
      exact (overStmt_block hr).bind fun body hbody => .pure (hinit.append (htest.append (hbody.append hpost)))

/-- The head of a `foreach` with proper mentions is read. -/
abbrev OverHead (p : Parse ForeachHead) : Prop := p.Over fun head => Proper head.mentions

theorem over_abandonForeach (closing : Nat) {head : ForeachHead} (h : Proper head.mentions) :
    OverHead (abandonForeach closing head) := .behind fun _ => .behind fun _ => .pure h

theorem over_foreachValue (hr : r.Over) (start closing : Nat) : OverHead (foreachValue r start closing) := by
  unfold foreachValue
  refine .behind fun s => ?_
  dsimp only
  refine .ite (over_abandonForeach closing (.single trivial)) (((hr.expr false).within _ _).bind fun value hvalue => ?_)
  split
  · exact .behind fun _ => over_abandonForeach closing hvalue
  · exact .behind fun _ => (overStmt_block hr).bind fun body hbody => .pure (hvalue.append hbody)

theorem over_foreachHead (hr : r.Over) (start closing : Nat) : OverHead (foreachHead r start closing) := by
  unfold foreachHead
  refine .ite (over_abandonForeach closing (.single trivial)) (.behind fun arrow => ?_)
  split
  · exact over_foreachValue hr start closing
  · refine .ite (over_abandonForeach closing (.single trivial)) (((hr.expr false).within _ _).bind fun key hkey => ?_)
    split
    · exact .behind fun _ => over_abandonForeach closing hkey
    · exact (over_foreachValue hr _ closing).bind fun rest hrest => .pure (hkey.append hrest)

theorem overStmt_foreach (hr : r.Over) : OverStmt (foreachStatement r) := by
  unfold foreachStatement
  refine .behind fun here => .behind fun _ => .behind fun opened =>
    .ite (.behind fun _ => overStmt_report _ trivial) (.behind fun group => ?_)
  split
  · exact .behind fun _ => overStmt_report _ trivial
  · refine .behind fun found => ?_
    split
    · exact .behind fun _ => .behind fun _ => overStmt_report _ trivial
    · exact (over_condition hr _ _).bind fun source hsource => (over_foreachHead hr _ _).bind fun head hhead =>
        .pure (hsource.append hhead)

/-! ### Jumps and exceptions -/

theorem overStmt_loopJump (jump : LoopJump) : OverStmt (loopJump jump) := by
  unfold loopJump
  refine .behind fun here => .behind fun _ => .behind fun next => ?_
  split
  · exact .behind fun _ => .behind fun _ => .behind fun _ => .behind fun _ => .behind fun _ => .pure .nil
  · exact .behind fun _ => .behind fun _ => .behind fun _ => .behind fun _ => .pure .nil

theorem over_catchClause (hr : r.Over) : (catchClause r).Over fun clause => Proper clause.mentions := by
  have malformed (line : Nat) {problem : Problem} (h : problem.IsForeign) :
      (malformedCatch line problem).Over fun clause => Proper clause.mentions := .behind fun _ => .pure (.single h)
  unfold catchClause
  refine .behind fun here => .behind fun paren =>
    .ite (malformed _ trivial) (.behind fun className => .ite (malformed _ trivial) ?_)
  refine .behind fun _ => .behind fun _ => .behind fun binding => ?_
  split
  · exact .behind fun _ => malformed _ trivial
  · refine .behind fun _ => .behind fun _ => .behind fun closed => .ite ?_ (.behind fun _ => malformed _ trivial)
    exact (overStmt_block hr).bind fun body hbody => .pure hbody

theorem over_catchClauses (hr : r.Over) (n : Nat) :
    (catchClauses r n).Over fun clauses => Proper (CatchClause.allMentions clauses) := by
  induction n with
  | zero => exact .pure .nil
  | succ n ih =>
      unfold catchClauses
      refine .behind fun _ => .ite ?_ (.pure .nil)
      exact (over_catchClause hr).bind fun clause hclause => ih.bind fun rest hrest => .pure (hclause.append hrest)

theorem overStmt_try (hr : r.Over) : OverStmt (tryStatement r) := by
  unfold tryStatement
  refine .behind fun here => .behind fun _ => (overStmt_block hr).bind fun body hbody => .behind fun _ => .ite ?_ ?_
  · exact .behind fun s => (over_catchClauses hr _).bind fun clauses hclauses =>
      .pure (hbody.append (hclauses.append .nil))
  · exact .behind fun _ => .pure (hbody.append (.single trivial))

theorem overStmt_return (hr : r.Over) : OverStmt (returnStatement r) :=
  .behind fun _ => (hr.expr false).bind fun _ hvalue => .pure hvalue

theorem overStmt_exit (hr : r.Over) : OverStmt (exitStatement r) :=
  .behind fun _ => (hr.expr false).bind fun _ hvalue => .pure hvalue

theorem overStmt_throw (hr : r.Over) : OverStmt (throwStatement r) :=
  .behind fun _ => .behind fun _ => (hr.expr false).bind fun _ hvalue => .pure hvalue

end Parse

end StackScript
