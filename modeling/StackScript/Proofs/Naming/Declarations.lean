/-
The names and the problems of whole scripts.

The members of a class end at the first one that is malformed, and the error it comes with is a problem of reading as
well.  By induction on how deep the readers look, every script that is read has proper mentions.
-/
import StackScript.Proofs.Naming.Statements

namespace StackScript

namespace Parse

variable {r : Readers} {head : ClassHead} {visibility : Visibility} {flags : MemberFlags}

/-! ### Members -/

/-- The mentions of the members that were read, and of the error that ends their reading. -/
def ProperMembers (read : MembersRead) : Prop := Proper (Member.allMentions read.1) ∧ Proper (Mention.error read.2)

theorem Proper.allMentions_append {ms ms' : List Member} (h : Proper (Member.allMentions ms)) (h' : Proper (Member.allMentions ms')) :
    Proper (Member.allMentions (ms ++ ms')) := by
  induction ms with
  | nil => exact h'
  | cons m ms ih =>
      obtain ⟨hm, hms⟩ := StackScript.Proper.append_iff.mp h
      exact hm.append (ih hms)

namespace ProperMembers

theorem nil : ProperMembers ([], none) := ⟨.nil, .nil⟩

theorem single {m : Member} (h : Proper m.mentions) : ProperMembers ([m], none) := ⟨h.append .nil, .nil⟩

/-- A member in front of others. -/
theorem cons {m : Member} {read : MembersRead} (h : Proper m.mentions) (h' : ProperMembers read) :
    ProperMembers (m :: read.1, read.2) := ⟨h.append h'.1, h'.2⟩

/-- Members behind others. -/
theorem append {ms : List Member} {read : MembersRead} (h : Proper (Member.allMentions ms)) (h' : ProperMembers read) :
    ProperMembers (ms ++ read.1, read.2) := ⟨Proper.allMentions_append h h'.1, h'.2⟩

/-- Members in front of an error that ends their reading. -/
theorem abandon {ms : List Member} (h : Proper (Member.allMentions ms)) (line : Nat) {problem : Problem}
    {isError : problem.severity = .error} (hproblem : problem.IsForeign) :
    ProperMembers (abandon ms line problem isError) := ⟨h, .single hproblem⟩

theorem nothing (line : Nat) {problem : Problem} {isError : problem.severity = .error} (hproblem : problem.IsForeign) :
    ProperMembers (Parse.abandon [] line problem isError) :=
  ⟨.nil, .single hproblem⟩

end ProperMembers

/-- Members with proper mentions are read. -/
abbrev OverMembers (p : Parse MembersRead) : Prop := p.Over ProperMembers

theorem overMembers_classConstants (hr : r.Over) (className : String) (n : Nat) :
    OverMembers (classConstants r className visibility n) := by
  induction n with
  | zero => exact .pure .nil
  | succ n ih =>
      unfold classConstants
      refine .behind fun here => .behind fun next => ?_
      split
      · exact .behind fun _ => .behind fun _ => .pure (.nothing _ trivial)
      · refine .ite (.behind fun _ => .pure (.nothing _ trivial)) (.behind fun _ => .behind fun equals =>
          .ite (.behind fun _ => .pure (.nothing _ trivial)) (.behind fun valueLine =>
            (hr.expr true).bind fun value hvalue => ?_))
        refine .behind fun comma => .ite (.pure (.single hvalue)) (.behind fun named => .ite ?_ ?_)
        · exact ih.bind fun _ hrest => .pure (.cons hvalue hrest)
        · exact .behind fun _ => .behind fun _ => .pure ⟨hvalue.append (.cons trivial .nil), .nil⟩

theorem overMembers_classAttributes (hr : r.Over) (className : String) (type : TypeSpec) (n : Nat) :
    OverMembers (classAttributes r className type visibility flags n) := by
  induction n with
  | zero => exact .pure .nil
  | succ n ih =>
      unfold classAttributes
      refine .behind fun here => .behind fun _ => .behind fun next => ?_
      split
      · exact .behind fun _ => .behind fun _ => .pure (.nothing _ trivial)
      · have rest {m : Member} (hm : Proper m.mentions) : OverMembers (do
            if !(← eat [.comma]) then return ([m], none)
            if ← check [.dollar] then
              let more ← classAttributes r className type visibility flags n
              return (m :: more.1, more.2)
            else
              let text := textOf (← peek)
              recover
              return ([m, .report ⟨here, .expectedAttribute text className⟩], none)) := by
          refine .behind fun comma => .ite (.pure (.single hm)) (.behind fun dollar => .ite ?_ ?_)
          · exact ih.bind fun _ hmore => .pure (.cons hm hmore)
          · exact .behind fun _ => .behind fun _ => .pure ⟨hm.append (.cons trivial .nil), .nil⟩
        refine .behind fun _ => .behind fun ended => .behind fun follows =>
          .ite (.behind fun _ => .pure (.nothing _ trivial)) ?_
        refine .behind fun equals => .ite (.behind fun valueLine => (hr.expr true).bind fun value hvalue => ?_) ?_
        · exact rest hvalue
        · exact rest .nil

theorem proper_virtualProblems (head : ClassHead) (method : MemberHead) :
    Proper (Member.allMentions (virtualProblems head method)) := by
  unfold virtualProblems
  split
  · refine Proper.allMentions_append ?_ ?_
    · split
      · exact .cons trivial .nil
      · exact .nil
    · split
      · exact .nil
      · exact .cons trivial .nil
  · exact .nil

theorem overMembers_classMethod (hr : r.Over) (returns : TypeSpec) :
    OverMembers (classMethod r head returns visibility flags) := by
  unfold classMethod
  refine .behind fun here => .behind fun byRef => over_peek_name.bind fun next hnext => ?_
  split
  · exact .behind fun _ => .behind fun _ => .pure (.nothing _ trivial)
  · rename_i name hname
    let method : MemberHead := ⟨name.text, here, visibility, flags⟩
    let function : FunctionHead := ⟨name.text, returns, here, { isMethod := true, returnsRef := byRef }⟩
    have named : (Mention.function function).IsProper := ⟨hnext name hname, rfl⟩
    have problems := proper_virtualProblems head method
    refine .behind fun _ => .behind fun opened => .ite (.behind fun _ => .pure (.abandon problems _ trivial)) ?_
    refine (over_signature? hr).bind fun read hread => ?_
    split
    · exact .behind fun _ => .pure (.abandon problems _ trivial)
    · rename_i params fault
      obtain ⟨hparams, hfault⟩ := hread _ rfl
      have signature : Proper (Member.signature method function params fault).mentions :=
        .cons named (hparams.append hfault)
      have bare := ProperMembers.append problems (.single signature)
      dsimp only
      split
      · exact .behind fun ended => .behind fun semicolon => .ite (.pure bare) (.pure (.abandon bare.1 _ trivial))
      · refine .behind fun brace => .ite ((overStmt_block hr).bind fun body hbody => .pure ?_)
          (.pure (.abandon bare.1 _ trivial))
        have whole : Proper (Member.method method function params fault body).mentions :=
          .cons named (hparams.append (hfault.append hbody))
        exact .append problems (.single whole)

theorem overMembers_typedMember (hr : r.Over) : OverMembers (typedMember r head visibility flags) := by
  unfold typedMember
  refine .behind fun type => ?_
  split
  · exact .behind fun _ => .pure (.nothing _ trivial)
  · exact .behind fun dollar => .ite (.behind fun s => overMembers_classAttributes hr _ _ _)
      (overMembers_classMethod hr _)

theorem overMembers_markedMember (hr : r.Over) (word : String) :
    OverMembers (markedMember r head visibility flags word) := by
  have marked (visibility : Visibility) : OverMembers (do
      let isStatic ← eatKeyword .static_
      let t ← peek
      let isMethod := t.any fun t => t.is .keyword
      if isMethod && (t.any Token.isType || (← peekNth 2).any (·.is .openParen)) then
        typedMember r head visibility { flags with isStatic := isStatic }
      else return abandon [] (t.elim head.line Token.line) (.expectedMethod (textOf t) word head.name)) :=
    .behind fun isStatic => .behind fun next => .behind fun third =>
      .ite (overMembers_typedMember hr) (.pure (.nothing _ trivial))
  unfold markedMember
  refine .behind fun next => ?_
  split
  · exact .behind fun _ => marked _
  · exact marked visibility

theorem overMembers_visibleMember (hr : r.Over) (word : Keyword) :
    OverMembers (visibleMember r head visibility word) := by
  unfold visibleMember
  split
  · exact .behind fun _ => .behind fun s => overMembers_classConstants hr _ _
  · refine .behind fun _ => .behind fun next => ?_
    split
    · exact .pure (.nothing _ trivial)
    · split
      · exact .behind fun _ => overMembers_typedMember hr
      · exact overMembers_typedMember hr
  · exact .behind fun _ => overMembers_markedMember hr _
  · exact .behind fun _ => overMembers_markedMember hr _
  · exact overMembers_typedMember hr

theorem overMembers_classMember (hr : r.Over) : OverMembers (classMember r head) := by
  unfold classMember
  refine .behind fun word => ?_
  split
  · exact .pure (.nothing _ trivial)
  · split
    · exact overMembers_visibleMember hr _
    · refine .behind fun _ => .behind fun next => ?_
      split
      · exact .pure (.nothing _ trivial)
      · exact overMembers_visibleMember hr _

/-! ### Members of an interface -/

theorem over_visibilityWarning (visibility : Option Visibility) :
    (visibilityWarning visibility).Over fun items => Proper (Member.allMentions items) := by
  unfold visibilityWarning
  split
  · exact .behind fun _ => .pure (.cons trivial .nil)
  · exact .behind fun _ => .pure (.cons trivial .nil)
  · exact .pure .nil

theorem overMembers_interfaceSignature (hr : r.Over) (isStatic : Bool) :
    OverMembers (interfaceSignature r head isStatic) := by
  unfold interfaceSignature
  refine .behind fun type => ?_
  split
  · exact .behind fun _ => .pure (.nothing _ trivial)
  · refine .behind fun dollar => .ite (.behind fun _ => .behind fun _ => .pure (.single (.single trivial))) ?_
    exact overMembers_classMethod hr _

theorem overMembers_publicMember (hr : r.Over) (word : Keyword) : OverMembers (publicMember r head word) := by
  unfold publicMember
  split
  · exact .behind fun _ => .behind fun s => overMembers_classConstants hr _ _
  · refine .behind fun _ => .behind fun next => ?_
    split
    · exact .pure (.nothing _ trivial)
    · split
      · exact overMembers_interfaceSignature hr true
      · refine (over_visibilityWarning _).bind fun warning hwarning => .behind fun _ => ?_
        exact (overMembers_interfaceSignature hr true).bind fun _ hread => .pure (.append hwarning hread)
  · exact overMembers_interfaceSignature hr false

theorem overMembers_interfaceMember (hr : r.Over) : OverMembers (interfaceMember r head) := by
  unfold interfaceMember
  refine .behind fun word => ?_
  split
  · exact .pure (.nothing _ trivial)
  · split
    · exact overMembers_publicMember hr _
    · refine (over_visibilityWarning _).bind fun warning hwarning => .behind fun _ => .behind fun next => ?_
      split
      · exact .pure (.abandon hwarning _ trivial)
      · exact (overMembers_publicMember hr _).bind fun _ hread => .pure (.append hwarning hread)

theorem overMembers_members (hr : r.Over) (head : ClassHead) (n : Nat) : OverMembers (members r head n) := by
  induction n with
  | zero => exact .pure .nil
  | succ n ih =>
      unfold members
      refine .behind fun _ => .behind fun ended => .ite (.pure .nil) ?_
      refine .ite ((overMembers_interfaceMember hr).bind fun read hread => ?_)
        ((overMembers_classMember hr).bind fun read hread => ?_)
      all_goals
        obtain ⟨items, fault⟩ := read
        cases fault with
        | none => exact ih.bind fun rest hrest => .pure (.append hread.1 hrest)
        | some error => exact .pure hread

/-! ### Declarations -/

theorem overStmt_classBody (hr : r.Over) (head : ClassHead) {withoutBrace unclosed : Problem}
    (hbrace : withoutBrace.IsForeign) (hunclosed : unclosed.IsForeign) :
    OverStmt (classBody r head withoutBrace unclosed) := by
  unfold classBody
  refine .behind fun opened => .ite (overStmt_dropped _ hbrace) (.behind fun group => ?_)
  split
  · exact .behind fun _ => overStmt_report _ hunclosed
  · refine Over.bind (Over.within (.behind fun s => overMembers_members hr head _) _ _) fun read hread => .behind fun _ => ?_
    exact .pure (hread.1.append hread.2)

theorem overStmt_classDeclaration (hr : r.Over) (flags : ClassFlags) : OverStmt (classDeclaration r flags) := by
  unfold classDeclaration
  refine .behind fun here => .behind fun _ => .behind fun next => ?_
  split
  · exact overStmt_dropped _ trivial
  · refine .behind fun _ => .behind fun bases => ?_
    split
    · exact overStmt_dropped _ trivial
    · refine .behind fun interfaces => ?_
      split
      · exact overStmt_dropped _ trivial
      · exact overStmt_classBody hr _ trivial trivial

theorem overStmt_interfaceDeclaration (hr : r.Over) : OverStmt (interfaceDeclaration r) := by
  unfold interfaceDeclaration
  refine .behind fun here => .behind fun _ => .behind fun next => ?_
  split
  · exact overStmt_dropped _ trivial
  · refine .behind fun _ => .behind fun bases => ?_
    split
    · exact overStmt_dropped _ trivial
    · exact overStmt_classBody hr _ trivial trivial

theorem overStmt_declaration (hr : r.Over) (kind : DeclarationKind) : OverStmt (declaration r kind) := by
  cases kind with
  | class_ flags =>
      exact .ite (.behind fun _ => overStmt_classDeclaration hr flags) (overStmt_classDeclaration hr flags)
  | interface => exact overStmt_interfaceDeclaration hr
  | function => exact overStmt_function hr
  | namespace_ => exact overStmt_namespace hr
  | using_ => exact overStmt_using

theorem overStmt_undeclared (t : Token) : OverStmt (undeclared t) := by
  refine .behind fun _ => .behind fun _ => overStmt_report _ ?_
  split <;> exact trivial

theorem over_scopeItems (hr : r.Over) (n : Nat) : (scopeItems r n).Over fun items => Proper (Stmt.allMentions items) := by
  induction n with
  | zero => exact .pure .nil
  | succ n ih =>
      unfold scopeItems
      refine .behind fun next => ?_
      split
      · exact .pure .nil
      · refine .behind fun kind => ?_
        split
        · exact (overStmt_declaration hr _).bind fun item hitem => .behind fun _ => ih.bind fun rest hrest =>
            .pure (hitem.append hrest)
        · exact (overStmt_undeclared _).bind fun item hitem => .behind fun _ => ih.bind fun rest hrest =>
            .pure (hitem.append hrest)

/-! ### Statements -/

theorem overStmt_keywordStatement (hr : r.Over) (t : Token) (word : Keyword) : OverStmt (keywordStatement r t word) := by
  unfold keywordStatement
  split
  · exact overStmt_if hr
  · exact overStmt_while hr
  · exact overStmt_do hr
  · exact overStmt_for hr
  · exact overStmt_foreach hr
  · exact overStmt_switch hr
  · exact overStmt_try hr
  · exact overStmt_throw hr
  · exact overStmt_loopJump .break_
  · exact overStmt_loopJump .continue_
  · exact overStmt_return hr
  · exact overStmt_exit hr
  · exact overStmt_constant hr
  · exact .behind fun next => .ite (overStmt_expression hr) (overStmt_variables hr)
  iterate 5 exact overStmt_expression hr
  refine .ite (.behind fun offset => .ite (overStmt_expression hr) (overStmt_variables hr)) ?_
  exact .ite (overStmt_expression hr) (overStmt_recovered _ trivial)

theorem overStmt_statementOf (hr : r.Over) (t : Token) : OverStmt (statementOf r t) := by
  unfold statementOf
  refine .ite (.behind fun _ => .pure .nil) (.ite (overStmt_block hr) (.behind fun kind => ?_))
  split
  · exact overStmt_declaration hr _
  · split
    · exact overStmt_keywordStatement hr t _
    · exact overStmt_expression hr

theorem overStmt_statement (hr : r.Over) : OverStmt (statement r) := by
  unfold statement
  refine .behind fun next => ?_
  split
  · exact .pure .nil
  · refine .behind fun start => (overStmt_statementOf hr _).bind fun body hbody => .behind fun _ => .behind fun pos => ?_
    refine .behind fun ended => .ite (.behind fun _ => .pure ?_) (.pure hbody)
    exact hbody.append (.cons trivial .nil)

/-- However deep readers look, the mentions of what they read are proper among names. -/
theorem readers_over (n : Nat) : (readers n).Over := by
  induction n with
  | zero => exact ⟨.pure .nil, fun _ => .pure .nil, .pure .nil⟩
  | succ n ih => exact ⟨overStmt_statement ih, over_expr ih, .behind fun _ => over_scopeItems ih _⟩

theorem over_statements (hr : r.Over) (n : Nat) : (statements r n).Over fun items => Proper (Stmt.allMentions items) := by
  induction n with
  | zero => exact .pure .nil
  | succ n ih =>
      unfold statements
      refine .behind fun ended => .ite (.pure .nil) ?_
      exact hr.stmt.bind fun item hitem => ih.bind fun rest hrest => .pure (hitem.append hrest)

end Parse

/-- Every function of a script is declared with a name, and no problem of reading is that of an anonymous function. -/
theorem Script.proper_read (mode : Mode) (bytes : Nat) {tokens : List Token} (h : ∀ t ∈ tokens, t.Named) :
    Proper (Script.read mode bytes tokens).mentions := by
  have hr := Parse.readers_over (depthBound bytes)
  have named := TokenStream.named_ofList h
  unfold Script.read
  cases mode with
  | script => exact (Parse.over_statements hr _ _ named).1
  | declarations => exact (hr.scope _ named).1
  | expression => exact (hr.expr false _ named).1

end StackScript
