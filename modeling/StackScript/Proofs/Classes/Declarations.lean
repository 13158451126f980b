/-
Every class of a program is well formed.

The members of a class and those of an interface are read by readers of their own, which try the words in front of a
member in different orders.  Whatever they come to fits the head: what differs is only which flags and which visibility
are handed on, and both are fixed by the words in front.  A member that does not fit comes with the error that ends the
reading, and then there is no class.
-/
import StackScript.Proofs.Classes.Statements
import StackScript.Proofs.Evaluation

namespace StackScript

open Gen

/-! ### Members that were read -/

/-- Members that fit, unless an error ends their reading. -/
structure Parse.MembersRead.Declarable (kind : ClassFlags) (read : Parse.MembersRead) : Prop where
  gen : ∀ m ∈ read.1, ∀ c, Gen.Fitting (m.gen c)
  fit : read.2 = none → Member.AllFit kind read.1

theorem Member.fitting_report (r : Report) (c : ClassDef) : Gen.Fitting ((Member.report r).gen c) := by
  exact fitting.still ((still_report _ _).bind fun _ => still_pure _)

namespace Parse.MembersRead.Declarable

variable {kind : ClassFlags} {xs : List Member}

theorem nil : Declarable kind ([], none) := ⟨List.forall_mem_nil _, fun _ => ⟨List.forall_mem_nil _, .inr (List.forall_mem_nil _)⟩⟩

/-- A member by itself. -/
theorem single {m : Member} (hgen : ∀ c, Gen.Fitting (m.gen c)) (hfits : m.Fits kind) (hplace : m.InPlace kind) :
    Declarable kind ([m], none) :=
  ⟨List.forall_mem_singleton.mpr hgen, fun _ =>
    ⟨List.forall_mem_singleton.mpr hfits, .inr (List.forall_mem_singleton.mpr hplace)⟩⟩

theorem report (r : Report) : Declarable kind ([.report r], none) := single (Member.fitting_report r) trivial trivial

/-- Members behind others. -/
theorem append {read : MembersRead} (h : Declarable kind (xs, none)) (h' : Declarable kind read) :
    Declarable kind (xs ++ read.1, read.2) where
  gen := List.forall_mem_append.mpr ⟨h.gen, h'.gen⟩
  fit := by
    intro hread
    have first := h.fit rfl
    have second := h'.fit hread
    refine ⟨List.forall_mem_append.mpr ⟨first.fits, second.fits⟩, ?_⟩
    rcases first.accounted with ⟨r, hr, he⟩ | all
    · exact .inl ⟨r, List.mem_append_left _ hr, he⟩
    · rcases second.accounted with ⟨r, hr, he⟩ | all'
      · exact .inl ⟨r, List.mem_append_right _ hr, he⟩
      · exact .inr (List.forall_mem_append.mpr ⟨all, all'⟩)

/-- Members in front of an error that ends their reading. -/
theorem abandoned (h : ∀ m ∈ xs, ∀ c, Gen.Fitting (m.gen c)) (error : ErrorReport) : Declarable kind (xs, some error) :=
  ⟨h, fun hnone => by cases hnone⟩

/-- Nothing, and an error. -/
theorem nothing (error : ErrorReport) : Declarable kind ([], some error) := abandoned (List.forall_mem_nil _) error

end Parse.MembersRead.Declarable

namespace Parse

open MembersRead

variable {r : Readers} {head : ClassHead} {visibility : Visibility} {flags : MemberFlags}

/-- The members that are read fit. -/
abbrev YieldsMembers (kind : ClassFlags) (p : Parse MembersRead) : Prop := p.Yields (Declarable kind)

/-! ### Constants and attributes -/

theorem yieldsMembers_classConstants (hr : r.Fitting) (kind : ClassFlags) (className : String) (n : Nat) :
    YieldsMembers kind (classConstants r className visibility n) := by
  induction n with
  | zero => exact .pure .nil
  | succ n ih =>
      unfold classConstants
      refine .behind fun here => .behind fun next => ?_
      split
      · exact .behind fun _ => .behind fun _ => .pure (.nothing _)
      · rename_i name _
        refine .ite (.behind fun _ => .pure (.nothing _)) (.behind fun _ => .behind fun equals =>
          .ite (.behind fun _ => .pure (.nothing _)) (.behind fun valueLine => (hr.expr true).bind fun value hvalue => ?_))
        have gen (c : ClassDef) : Gen.Fitting
            ((Member.constant ⟨name.text, here, visibility, { isConstant := true }⟩ valueLine value).gen c) := by
          exact fitting.before (fitting.memberValue _ _ valueLine value (hvalue {} none)) fun _ => still_pure _
        have item := @Declarable.single kind _ gen rfl trivial
        refine .behind fun comma => .ite (.pure item) (.behind fun named => .ite ?_ ?_)
        · exact ih.bind fun _ hrest => .pure (item.append hrest)
        · exact .behind fun _ => .behind fun _ => .pure (item.append (.report _))

theorem yieldsMembers_classAttributes (hr : r.Fitting) {kind : ClassFlags} (hkind : kind.isInterface = false)
    (hflags : flags.isConstant = false) (className : String) (type : TypeSpec) (n : Nat) :
    YieldsMembers kind (classAttributes r className type visibility flags n) := by
  induction n with
  | zero => exact .pure .nil
  | succ n ih =>
      unfold classAttributes
      refine .behind fun here => .behind fun _ => .behind fun next => ?_
      split
      · exact .behind fun _ => .behind fun _ => .pure (.nothing _)
      · rename_i name _
        have plain (c : ClassDef) : Gen.Fitting ((Member.attribute ⟨name.text, here, visibility, flags⟩ type).gen c) := by
          exact fitting.still (still_pure _)
        have valued (line : Nat) {value : Expr} (h : value.Fitting) (c : ClassDef) : Gen.Fitting
            ((Member.attributeValue ⟨name.text, here, visibility, flags⟩ type line value).gen c) := by
          exact fitting.before (fitting.memberValue _ _ line value (h {} none)) fun _ => still_pure _
        have rest {m : Member} (item : Declarable kind ([m], none)) : YieldsMembers kind (do
            if !(← eat [.comma]) then return ([m], none)
            if ← check [.dollar] then
              let more ← classAttributes r className type visibility flags n
              return (m :: more.1, more.2)
            else
              let text := textOf (← peek)
              recover
              return ([m, .report ⟨here, .expectedAttribute text className⟩], none)) := by
          refine .behind fun comma => .ite (.pure item) (.behind fun dollar => .ite ?_ ?_)
          · exact ih.bind fun _ hmore => .pure (item.append hmore)
          · exact .behind fun _ => .behind fun _ => .pure (item.append (.report _))
        refine .behind fun _ => .behind fun ended => .behind fun follows => .ite (.behind fun _ => .pure (.nothing _)) ?_
        refine .behind fun equals => .ite (.behind fun valueLine => (hr.expr true).bind fun value hvalue => ?_) ?_
        · exact rest (.single (valued valueLine hvalue) ⟨hkind, hflags⟩ trivial)
        · exact rest (.single plain ⟨hkind, hflags⟩ trivial)

/-! ### Methods -/

theorem report_of_mem_virtualProblems {method : MemberHead} {m : Member} (h : m ∈ virtualProblems head method) :
    ∃ report : Report, m = .report report ∧ report.isError = true := by
  obtain ⟨-, h⟩ := List.mem_ite_nil_right.mp h
  rcases List.mem_append.mp h with h | h
  · obtain ⟨-, h⟩ := List.mem_ite_nil_right.mp h
    exact ⟨_, List.mem_singleton.mp h, rfl⟩
  · obtain ⟨-, h⟩ := List.mem_ite_nil_left.mp h
    exact ⟨_, List.mem_singleton.mp h, rfl⟩

/-- Where nothing is wrong with a virtual method, it stands where it may. -/
theorem inPlace_of_virtualProblems {method : MemberHead} (h : virtualProblems head method = [])
    (hvirtual : method.flags.isVirtual = true) : head.flags.isVirtual = true ∧ method.visibility ≠ .private_ := by
  rw [virtualProblems, if_pos hvirtual, List.append_eq_nil_iff] at h
  obtain ⟨hprivate, hplain⟩ := h
  constructor
  · by_cases hclass : head.flags.isVirtual = true
    · exact hclass
    · rw [if_neg hclass] at hplain
      cases hplain
  · intro hvisibility
    rw [if_pos hvisibility] at hprivate
    cases hprivate

theorem gen_virtualProblems (head : ClassHead) (method : MemberHead) :
    ∀ m ∈ virtualProblems head method, ∀ c, Gen.Fitting (m.gen c) := by
  intro m hm
  obtain ⟨report, rfl, -⟩ := report_of_mem_virtualProblems hm
  exact Member.fitting_report report

/-- A method behind what is wrong with it. -/
theorem declarable_method {method : MemberHead} {m : Member} (hgen : ∀ c, Gen.Fitting (m.gen c)) (hfits : m.Fits head.flags)
    (hplace : (method.flags.isVirtual = true → head.flags.isVirtual = true ∧ method.visibility ≠ .private_) →
      m.InPlace head.flags) : Declarable head.flags (virtualProblems head method ++ [m], none) where
  gen := List.forall_mem_append.mpr ⟨gen_virtualProblems head method, List.forall_mem_singleton.mpr hgen⟩
  fit := by
    refine fun _ => ⟨List.forall_mem_append.mpr ⟨fun p hp => ?_, List.forall_mem_singleton.mpr hfits⟩, ?_⟩
    · obtain ⟨report, rfl, -⟩ := report_of_mem_virtualProblems hp
      trivial
    · cases hproblems : virtualProblems head method with
      | cons p ps =>
          obtain ⟨report, rfl, he⟩ := report_of_mem_virtualProblems (hproblems ▸ List.mem_cons_self)
          exact .inl ⟨report, List.mem_cons_self, he⟩
      | nil => exact .inr (List.forall_mem_singleton.mpr (hplace (inPlace_of_virtualProblems hproblems)))

/-- A method, as long as those of an interface are public. -/
theorem yieldsMembers_classMethod (hr : r.Fitting) (returns : TypeSpec)
    (hpublic : head.flags.isInterface = true → visibility = .public_) :
    YieldsMembers head.flags (classMethod r head returns visibility flags) := by
  unfold classMethod
  refine .behind fun here => .behind fun byRef => .behind fun next => ?_
  split
  · exact .behind fun _ => .behind fun _ => .pure (.nothing _)
  · rename_i name _
    let method : MemberHead := ⟨name.text, here, visibility, flags⟩
    let function : FunctionHead := ⟨name.text, returns, here, { isMethod := true, returnsRef := byRef }⟩
    have problems := gen_virtualProblems head method
    refine .behind fun _ => .behind fun opened => .ite (.behind fun _ => .pure (.abandoned problems _)) ?_
    refine (yields_signature? hr).bind fun read hread => ?_
    split
    · exact .behind fun _ => .pure (.abandoned problems _)
    · rename_i params fault
      have arguments := fitting.arguments (hread (params, fault) rfl) fault
      have bare (c : ClassDef) : Gen.Fitting ((Member.signature method function params fault).gen c) := by
        exact fitting.before arguments fun _ => still_pure _
      have unfinished := List.forall_mem_append.mpr ⟨problems, List.forall_mem_singleton.mpr bare⟩
      dsimp only
      split
      · rename_i habstract
        rw [Bool.or_eq_true] at habstract
        have signature := @declarable_method head method _ bare ⟨habstract.symm, hpublic⟩ id
        exact .behind fun ended => .behind fun semicolon => .ite (.pure signature) (.pure (.abandoned unfinished _))
      · rename_i hconcrete
        obtain ⟨hvirtual, hclass⟩ : flags.isVirtual = false ∧ head.flags.isInterface = false := by simpa using hconcrete
        refine .behind fun brace => .ite ((yieldsStmt_block hr).bind fun body hbody => .pure ?_)
          (.pure (.abandoned unfinished _))
        refine declarable_method (fun c => ?_) ⟨hclass, hvirtual⟩ id
        exact fitting.bind arguments fun args => fitting.before (fitting.functionDef function args hbody) fun _ => still_pure _

/-! ### Members of a class -/

section ClassMembers

variable (hr : r.Fitting) (hclass : head.flags.isInterface = false)

include hr hclass

theorem yieldsMembers_typedMember (hflags : flags.isConstant = false) :
    YieldsMembers head.flags (typedMember r head visibility flags) := by
  unfold typedMember
  refine .behind fun type => ?_
  split
  · exact .behind fun _ => .pure (.nothing _)
  · refine .behind fun dollar => .ite (.behind fun s => ?_) ?_
    · exact yieldsMembers_classAttributes hr hclass hflags _ _ _
    · exact yieldsMembers_classMethod hr _ fun h => Bool.noConfusion (h.symm.trans hclass)

theorem yieldsMembers_markedMember (hflags : flags.isConstant = false) (word : String) :
    YieldsMembers head.flags (markedMember r head visibility flags word) := by
  have marked (visibility : Visibility) : YieldsMembers head.flags (do
      let isStatic ← eatKeyword .static_
      let t ← peek
      let isMethod := t.any fun t => t.is .keyword
      if isMethod && (t.any Token.isType || (← peekNth 2).any (·.is .openParen)) then
        typedMember r head visibility { flags with isStatic := isStatic }
      else return abandon [] (t.elim head.line Token.line) (.expectedMethod (textOf t) word head.name)) :=
    .behind fun isStatic => .behind fun next => .behind fun third =>
      .ite (yieldsMembers_typedMember hr hclass hflags) (.pure (.nothing _))
  unfold markedMember
  refine .behind fun next => ?_
  split
  · exact .behind fun _ => marked _
  · exact marked visibility

theorem yieldsMembers_visibleMember (word : Keyword) : YieldsMembers head.flags (visibleMember r head visibility word) := by
  unfold visibleMember
  split
  · exact .behind fun _ => .behind fun s => yieldsMembers_classConstants hr head.flags _ _
  · refine .behind fun _ => .behind fun next => ?_
    split
    · exact .pure (.nothing _)
    · split
      · exact .behind fun _ => yieldsMembers_typedMember hr hclass rfl
      · exact yieldsMembers_typedMember hr hclass rfl
  · exact .behind fun _ => yieldsMembers_markedMember hr hclass rfl _
  · exact .behind fun _ => yieldsMembers_markedMember hr hclass rfl _
  · exact yieldsMembers_typedMember hr hclass rfl

theorem yieldsMembers_classMember : YieldsMembers head.flags (classMember r head) := by
  unfold classMember
  refine .behind fun word => ?_
  split
  · exact .pure (.nothing _)
  · split
    · exact yieldsMembers_visibleMember hr hclass _
    · refine .behind fun _ => .behind fun next => ?_
      split
      · exact .pure (.nothing _)
      · exact yieldsMembers_visibleMember hr hclass _

end ClassMembers

/-! ### Members of an interface -/

/-- A warning about a visibility is no member. -/
theorem yields_visibilityWarning (kind : ClassFlags) (visibility : Option Visibility) :
    (visibilityWarning visibility).Yields fun items => Declarable kind (items, none) := by
  unfold visibilityWarning
  split
  · exact .behind fun _ => .pure (.report _)
  · exact .behind fun _ => .pure (.report _)
  · exact .pure .nil

theorem yieldsMembers_interfaceSignature (hr : r.Fitting) (isStatic : Bool) :
    YieldsMembers head.flags (interfaceSignature r head isStatic) := by
  unfold interfaceSignature
  refine .behind fun type => ?_
  split
  · exact .behind fun _ => .pure (.nothing _)
  · refine .behind fun dollar => .ite (.behind fun _ => .behind fun _ => .pure (.report _)) ?_
    exact yieldsMembers_classMethod hr _ fun _ => rfl

theorem yieldsMembers_publicMember (hr : r.Fitting) (word : Keyword) :
    YieldsMembers head.flags (publicMember r head word) := by
  unfold publicMember
  split
  · exact .behind fun _ => .behind fun s => yieldsMembers_classConstants hr head.flags _ _
  · refine .behind fun _ => .behind fun next => ?_
    split
    · exact .pure (.nothing _)
    · split
      · exact yieldsMembers_interfaceSignature hr true
      · refine (yields_visibilityWarning head.flags _).bind fun warning hwarning => .behind fun _ => ?_
        exact (yieldsMembers_interfaceSignature hr true).bind fun _ hread => .pure (hwarning.append hread)
  · exact yieldsMembers_interfaceSignature hr false

theorem yieldsMembers_interfaceMember (hr : r.Fitting) : YieldsMembers head.flags (interfaceMember r head) := by
  unfold interfaceMember
  refine .behind fun word => ?_
  split
  · exact .pure (.nothing _)
  · split
    · exact yieldsMembers_publicMember hr _
    · refine (yields_visibilityWarning head.flags _).bind fun warning hwarning => .behind fun _ => .behind fun next => ?_
      split
      · exact .pure (.abandoned hwarning.gen _)
      · exact (yieldsMembers_publicMember hr _).bind fun _ hread => .pure (hwarning.append hread)

/-! ### Declarations -/

theorem yieldsMembers_members (hr : r.Fitting) (head : ClassHead) (n : Nat) :
    YieldsMembers head.flags (members r head n) := by
  induction n with
  | zero => exact .pure .nil
  | succ n ih =>
      unfold members
      refine .behind fun _ => .behind fun ended => .ite (.pure .nil) ?_
      dsimp only
      split <;> rename_i hkind
      all_goals
        refine Yields.bind (P := Declarable head.flags) ?_ fun read hread => ?_
        · first
            | exact yieldsMembers_interfaceMember hr
            | exact yieldsMembers_classMember hr (Bool.eq_false_iff.mpr hkind)
        · obtain ⟨items, fault⟩ := read
          cases fault with
          | none => exact ih.bind fun rest hrest => .pure (hread.append hrest)
          | some error => exact .pure hread

theorem yieldsStmt_classBody (hr : r.Fitting) (head : ClassHead) (withoutBrace unclosed : Problem) :
    YieldsStmt (classBody r head withoutBrace unclosed) := by
  unfold classBody
  refine .behind fun opened => .ite (yieldsStmt_dropped _ _) (.behind fun group => ?_)
  split
  · exact .behind fun _ => yieldsStmt_report _ _
  · refine (Yields.within (.behind fun s => yieldsMembers_members hr head _) _ _).bind fun read hread => .behind fun _ => ?_
    exact .pure (Stmt.keepsClasses_class_ head read.2 hread.gen hread.fit)

theorem yieldsStmt_classDeclaration (hr : r.Fitting) (flags : ClassFlags) : YieldsStmt (classDeclaration r flags) := by
  unfold classDeclaration
  refine .behind fun here => .behind fun _ => .behind fun next => ?_
  split
  · exact yieldsStmt_dropped _ _
  · refine .behind fun _ => .behind fun bases => ?_
    split
    · exact yieldsStmt_dropped _ _
    · refine .behind fun interfaces => ?_
      split
      · exact yieldsStmt_dropped _ _
      · exact yieldsStmt_classBody hr _ _ _

theorem yieldsStmt_interfaceDeclaration (hr : r.Fitting) : YieldsStmt (interfaceDeclaration r) := by
  unfold interfaceDeclaration
  refine .behind fun here => .behind fun _ => .behind fun next => ?_
  split
  · exact yieldsStmt_dropped _ _
  · refine .behind fun _ => .behind fun bases => ?_
    split
    · exact yieldsStmt_dropped _ _
    · exact yieldsStmt_classBody hr _ _ _

theorem yieldsStmt_declaration (hr : r.Fitting) (kind : DeclarationKind) : YieldsStmt (declaration r kind) := by
  cases kind with
  | class_ flags => exact .ite (.behind fun _ => yieldsStmt_classDeclaration hr flags) (yieldsStmt_classDeclaration hr flags)
  | interface => exact yieldsStmt_interfaceDeclaration hr
  | function => exact yieldsStmt_function hr
  | namespace_ => exact yieldsStmt_namespace hr
  | using_ => exact yieldsStmt_using

theorem yields_scopeItems_fitting (hr : r.Fitting) (n : Nat) :
    (scopeItems r n).Yields fun items => ∀ i ∈ items, Gen.Fitting i.gen := by
  induction n with
  | zero => exact .pure (List.forall_mem_nil _)
  | succ n ih =>
      unfold scopeItems
      refine .behind fun next => ?_
      split
      · exact .pure (List.forall_mem_nil _)
      · refine .behind fun kind => ?_
        split
        · refine (yieldsStmt_declaration hr _).bind fun item hitem => .behind fun _ => ih.bind fun rest hrest => .pure ?_
          exact List.forall_mem_cons.mpr ⟨Stmt.fitting_onLine _ hitem, hrest⟩
        · refine Yields.bind (.behind fun _ => .behind fun _ => yieldsStmt_report _ _) fun item hitem => .behind fun _ => ?_
          exact ih.bind fun rest hrest => .pure (List.forall_mem_cons.mpr ⟨Stmt.fitting_onLine _ hitem, hrest⟩)

/-! ### Statements -/

theorem yieldsStmt_keywordStatement (hr : r.Fitting) (t : Token) (word : Keyword) :
    YieldsStmt (keywordStatement r t word) := by
  unfold keywordStatement
  split
  · exact yieldsStmt_if hr
  · exact yieldsStmt_while hr
  · exact yieldsStmt_do hr
  · exact yieldsStmt_for hr
  · exact yieldsStmt_foreach hr
  · exact yieldsStmt_switch hr
  · exact yieldsStmt_try hr
  · exact yieldsStmt_throw hr
  · exact yieldsStmt_loopJump .break_
  · exact yieldsStmt_loopJump .continue_
  · exact yieldsStmt_return hr
  · exact yieldsStmt_exit hr
  · exact yieldsStmt_constant hr
  · exact .behind fun next => .ite (yieldsStmt_expression hr) (yieldsStmt_variables hr)
  iterate 5 exact yieldsStmt_expression hr
  refine .ite (.behind fun offset => .ite (yieldsStmt_expression hr) (yieldsStmt_variables hr)) ?_
  exact .ite (yieldsStmt_expression hr) (yieldsStmt_recovered _ _)

theorem yieldsStmt_statementOf (hr : r.Fitting) (t : Token) : YieldsStmt (statementOf r t) := by
  unfold statementOf
  refine .ite (.behind fun _ => .pure ?_) (.ite (yieldsStmt_block hr) (.behind fun kind => ?_))
  · exact fitting.still (still_loadConstant.bind fun _ => still_put)
  · split
    · exact yieldsStmt_declaration hr _
    · split
      · exact yieldsStmt_keywordStatement hr t _
      · exact yieldsStmt_expression hr

theorem yieldsStmt_statement (hr : r.Fitting) : YieldsStmt (statement r) := by
  unfold statement
  refine .behind fun next => ?_
  split
  · refine .pure ?_
    exact fitting.still (still_pure ())
  · refine .behind fun start => (yieldsStmt_statementOf hr _).bind fun body hbody => .behind fun _ => .behind fun pos => ?_
    refine .behind fun ended => .ite (.behind fun _ => .pure (Stmt.fitting_onLine _ ?_)) (.pure (Stmt.fitting_onLine _ hbody))
    exact fitting.bind hbody fun _ => fitting.bind (Stmt.fitting_report _) fun _ => fitting.still (still_pure ())

/-- However deep readers look, what they read keeps classes well formed. -/
theorem readers_fitting (n : Nat) : (readers n).Fitting := by
  induction n with
  | zero =>
      refine ⟨.pure ?_, fun _ => .pure Expr.fitting_missing, .pure (List.forall_mem_nil _)⟩
      exact fitting.still (still_pure ())
  | succ n ih =>
      exact ⟨yieldsStmt_statement ih, yields_expr ih, .behind fun _ => yields_scopeItems_fitting ih _⟩

theorem yields_statements_fitting (hr : r.Fitting) (n : Nat) :
    (statements r n).Yields fun items => ∀ i ∈ items, Gen.Fitting i.gen := by
  induction n with
  | zero => exact .pure (List.forall_mem_nil _)
  | succ n ih =>
      unfold statements
      refine .behind fun ended => .ite (.pure (List.forall_mem_nil _)) ?_
      exact hr.stmt.bind fun item hitem => ih.bind fun rest hrest => .pure (List.forall_mem_cons.mpr ⟨hitem, hrest⟩)

end Parse

theorem Script.fitting_read (mode : Mode) (bytes : Nat) (tokens : List Token) :
    Gen.Fitting (Script.read mode bytes tokens).gen := by
  have hr := Parse.readers_fitting (depthBound bytes)
  have ended (items : List Stmt) (h : ∀ i ∈ items, Gen.Fitting i.gen) : Gen.Fitting (Script.statements items).gen :=
    fitting.before (Stmt.fitting_genAll h) fun _ => still_settle.bind fun _ => still_put
  unfold Script.read
  generalize TokenStream.ofList tokens = s
  cases mode with
  | script => exact ended _ (Parse.yields_statements_fitting hr _ _)
  | declarations => exact ended _ (hr.scope s)
  | expression => exact fitting.before (hr.expr false s {} none) fun _ => (still_reportFault _).bind fun _ => still_put

/-! ### Whole sources -/

namespace Config

/-- Every class of a program is well formed, and where no error was reported, its virtual methods stand where they may:
none of them is private, and none is in a class that is not virtual itself. -/
theorem classes_well_formed (config : Config) (source : String) (c : Compilation)
    (h : (config.compile source).result = .ok c) :
    ∀ d ∈ c.program.classes, d.WellFormed ∧ (c.errors = 0 → d.InPlace) := by
  obtain ⟨read, -, hprogram, herrors⟩ := compile_ok h
  have none : (after (reportAll (lexReports read.errors)) (GenState.initial config)).ClassesFit := List.forall_mem_nil _
  have all := Script.fitting_read config.mode source.utf8ByteSize read.tokens _ none
  rw [hprogram, herrors]
  exact all

/-- The source of an interface and of a class with members of every kind. -/
def declaredMembers : String :=
  "interface I { const K = 1; int f(int $x, string $y); } " ++
    "virtual class V { virtual protected int g($a); static int h() { return 1; } int $n; private const Z = 2; }"

theorem classes_well_formed_members :
    ∃ c, (({} : Config).compile declaredMembers).result = .ok c ∧
      c.program.classes.map (fun d => (d.attributes.length, d.methods.length)) = [(1, 1), (2, 2)] ∧
      ∀ d ∈ c.program.classes, d.WellFormed ∧ d.InPlace := by
  have numbers : (({} : Config).compile declaredMembers).result.toOption.map (fun c =>
      (c.errors, c.program.classes.map fun d => (d.attributes.length, d.methods.length))) =
        some (0, [(1, 1), (2, 2)]) := by
    have chars : declaredMembers = String.ofList _ := String.ofList_append.symm
    rw [compile_ofList rfl chars]
    decide +kernel
  obtain ⟨c, hr, told⟩ := Outcome.ok_of_map numbers
  obtain ⟨errors, sizes⟩ := Prod.mk.inj told
  have all := classes_well_formed _ _ c hr
  exact ⟨c, hr, sizes, fun d hd => ⟨(all d hd).1, (all d hd).2 errors⟩⟩

end Config

end StackScript
