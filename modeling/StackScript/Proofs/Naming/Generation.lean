/-
Names in code generation.

`Gen.Names` says of a generator that from every state it makes a history of names.  It is a class: what holds of the
steps of code generation and of the ways they are put together is found again for each construct, and only the
constructs that report something, and the two that name functions, need more than their parts.
-/
import StackScript.Proofs.Naming.History

namespace StackScript

open Gen

/-- What a state knows of names, and what else a history of names looks at. -/
def GenState.register (s : GenState) : Nat × List FunctionDef × List FunctionDef × ConstantPool × List Report :=
  (s.closures, s.program.functions, s.program.closures, s.program.constants, s.reports)

theorem Nameless.of {s t : GenState} (h : t.register = s.register) : Nameless s t := by
  obtain ⟨hclosures, hfunctions, hcaptured, hconstants, hreports⟩ := by
    simpa only [GenState.register, Prod.mk.injEq] using h
  exact ⟨hclosures, hfunctions, hcaptured, hconstants ▸ .refl, fun r hr => .inl (hreports ▸ hr)⟩

namespace Gen

variable {α β : Type}

/-- From every state the generator makes a history of names. -/
class Names (m : Gen α) : Prop where
  naming : ∀ s, ∃ ls, Naming ls s (after m s)

/-! ### Steps -/

theorem Names.of {m : Gen α} (h : ∀ s, (after m s).register = s.register) : Names m :=
  ⟨fun s => ⟨[], .nameless (.of (h s))⟩⟩

theorem Names.bind {m : Gen α} {f : α → Gen β} (hm : Names m) (hf : ∀ a, Names (f a)) : Names (m >>= f) := by
  refine ⟨fun s => ?_⟩
  obtain ⟨ls, first⟩ := hm.naming s
  obtain ⟨ls', second⟩ := (hf (result m s)).naming (after m s)
  exact ⟨ls ++ ls', first.trans second⟩

instance {m : Gen α} {f : α → Gen β} [hm : Names m] [hf : ∀ a, Names (f a)] : Names (m >>= f) := hm.bind hf

instance {c : Prop} [Decidable c] {m m' : Gen α} [h : Names m] [h' : Names m'] : Names (if c then m else m') := by
  split
  · exact h
  · exact h'

instance (a : α) : Names (pure a : Gen α) := .of fun _ => rfl

instance : Names (get : Gen GenState) := .of fun _ => rfl

instance : Names here := .of fun _ => rfl

instance : Names errorCount := .of fun _ => rfl

instance (line : Nat) : Names (setLine line) := .of fun _ => rfl

instance (op : Opcode) (p1 : Int) (p2 : Nat) (p3 : Operand) : Names (emit op p1 p2 p3) := .of fun _ => rfl

instance (op : Opcode) (p1 : Int) (p2 : Nat) (p3 : Operand) : Names (put op p1 p2 p3) := .of fun _ => rfl

instance (slot : Nat) : Names (loadSlot slot) := .of fun _ => rfl

instance : Names drop := .of fun _ => rfl

instance (index : Nat) : Names (landHere index) := .of fun _ => rfl

instance : Names last? := .of fun _ => rfl

instance : Names beforeLast? := .of fun _ => rfl

instance : Names takeBack := .of fun _ => rfl

instance (f : Instruction → Instruction) : Names (modifyLast f) := .of fun _ => rfl

instance : Names markCallee := .of fun _ => rfl

instance : Names markBoundary := .of fun _ => rfl

instance : Names openContainer := .of fun _ => rfl

instance (outer : Filled) : Names (closeContainer outer) := .of fun _ => rfl

instance (tags : List BlockTag) (first : Nat) (owner : BlockOwner) (deferred : Option (List Nat)) :
    Names (enter tags first owner deferred) := .of fun _ => rfl

instance : Names leave := .of fun _ => rfl

instance (id : Nat) : Names (restartHere id) := .of fun _ => rfl

instance (id : Nat) (op : Opcode) (p3 : Operand) : Names (await id op p3) := .of fun _ => rfl

instance (id : Nat) : Names (awaitContinue id) := .of fun _ => rfl

instance (id : Nat) : Names (recordJump id) := .of fun _ => rfl

instance (id : Nat) (op : Option Opcode) : Names (settle id op) := .of fun _ => rfl

instance (id : Nat) : Names (settleContinue id) := .of fun _ => rfl

instance : Names currentClass := by
  refine Names.bind inferInstance fun s => ?_
  split <;> infer_instance

instance : Names currentFunction := by
  refine Names.bind inferInstance fun s => ?_
  split <;> infer_instance

/-! ### Tables and constants -/

instance : Names reserveSwitch := .of fun _ => rfl

instance (id : Nat) (table : SwitchTable) : Names (fillSwitch id table) := .of fun _ => rfl

instance (table : ForeachTable) : Names (addForeach table) := .of fun _ => rfl

instance : Names reserveException := .of fun _ => rfl

instance (id : Nat) (entry : CatchEntry) : Names (addCatch id entry) := .of fun _ => rfl

instance (link : ClassLink) : Names (addLink link) := .of fun _ => rfl

instance (name : String) (code : Code) : Names (defineConstant name code) := .of fun _ => rfl

instance (c : ClassDef) : Names (installClass c) := by
  refine .of fun s => ?_
  unfold installClass
  rw [after_modifyGet]
  unfold Program.installClass?
  split <;> rename_i hq <;> split at hq <;> cases hq <;> rfl

instance (v : StaticVar) : Names (addStatic v) := by
  refine .of fun s => ?_
  unfold addStatic
  rw [after_modifyGet]
  split <;> rfl

theorem names_intern {add : ConstantPool → Nat × ConstantPool} (h : ∀ p : ConstantPool, p.Grows (add p).2) :
    Names (intern add) := ⟨fun _ => ⟨[], .nameless ⟨rfl, rfl, rfl, h _, fun _ => .inl⟩⟩⟩

instance (v : Int64) : Names (intern (·.addInt v)) := names_intern fun _ => .int .refl v

instance (text : List Char) : Names (intern (·.addReal (readReal text))) := names_intern fun _ => .real .refl text

instance (text : String) : Names (intern (·.addString text)) := names_intern fun _ => .string .refl text

instance (add : ConstantPool → Nat × ConstantPool) [Names (intern add)] : Names (loadConstant add) := by
  unfold loadConstant
  infer_instance

instance (text : String) : Names (string text) := inferInstanceAs (Names (loadConstant _))

/-! ### Problems -/

theorem names_reportAll {rs : List Report} (h : ∀ r ∈ rs, r.problem.IsForeign) : Names (reportAll rs) := by
  refine ⟨fun s => ⟨[], .nameless ⟨rfl, rfl, rfl, .refl, fun r hr => ?_⟩⟩⟩
  exact (List.mem_append.mp hr).imp_right (h r)

theorem names_report (line : Nat) {problem : Problem} (h : problem.IsForeign) : Names (report line problem) :=
  names_reportAll (List.forall_mem_singleton.mpr h)

theorem names_reportFault {fault : Option Report} (h : Proper (Mention.fault fault)) : Names (reportFault fault) := by
  cases fault with
  | none => exact inferInstanceAs (Names (pure ()))
  | some r => exact names_report r.line (h _ List.mem_cons_self)

theorem names_reportMap {f : α → Report} (h : ∀ a, (f a).problem.IsForeign) (as : List α) :
    Names (reportAll (as.map f)) := by
  refine names_reportAll fun r hr => ?_
  obtain ⟨a, -, rfl⟩ := List.mem_map.mp hr
  exact h a

theorem names_faultMap {f : α → Report} (h : ∀ a, (f a).problem.IsForeign) (a : Option α) :
    Names (reportFault (a.map f)) := by
  cases a with
  | none => exact inferInstanceAs (Names (pure ()))
  | some a => exact names_report (f a).line (h a)

theorem names_lexReports (errors : List LexError) : Names (reportAll (lexReports errors)) := by
  refine names_reportMap ?_ errors
  exact fun _ => trivial

instance (header : Header) (strays : List Token) : Names (reportStrays header strays) := by
  refine names_reportMap ?_ strays
  exact fun _ => trivial

theorem names_reportIf (isWrong : Bool) (line : Nat) {problem : Problem} (h : problem.IsForeign) :
    Names (reportIf isWrong line problem) := by
  have := names_report line h
  unfold reportIf
  infer_instance

instance (line : Nat) : Names (noteNamespaces line) := by
  have noted : Names (modify fun s => { s with namespaceNoted := true }) := .of fun _ => rfl
  have told : Names (report line .namespacesDisabled) := names_report line trivial
  unfold noteNamespaces
  infer_instance

instance (stray : Option Nat) : Names (cutShort stray) := by
  cases stray with
  | none => exact inferInstanceAs (Names (pure ()))
  | some line => exact names_report line trivial

instance (restriction : Option Restriction) (root : Tree Leaf) : Names (restrict restriction root) := by
  unfold restrict
  split
  · rename_i problem h
    obtain ⟨place, -, hviolation⟩ := Option.bind_eq_some_iff.mp h
    refine names_report _ ?_
    cases place <;> simp only [Restriction.violation?] at hviolation <;> repeat' split at hviolation
    all_goals cases hviolation <;> exact trivial
  · infer_instance

instance (captures : Option CaptureList) : Names (captureReports captures) := by
  cases captures with
  | none => exact inferInstanceAs (Names (pure ()))
  | some list =>
      refine (names_faultMap ?_ _).bind fun _ => names_faultMap ?_ _
      · exact fun _ => trivial
      · exact fun _ => trivial

/-! ### Containers and blocks -/

section Constructs

variable {value left right : Gen Unit} [Names value] [Names left] [Names right]

instance : Names (discarding value) := by
  have cut (n : Nat) : Names (modify fun s => { s with buffer := { s.buffer with code := s.buffer.code.take n } }) :=
    .of fun _ => rfl
  unfold discarding
  infer_instance

instance : Names (inContainer value) := by
  unfold inContainer
  infer_instance

instance {tags : List BlockTag} {deferred : Option (List Nat)} {body : Nat → Gen Unit} [∀ id, Names (body id)] :
    Names (inBlock tags deferred body) := by
  unfold inBlock
  infer_instance

instance {tags : List BlockTag} {first : Nat} {owner : BlockOwner} {body : Nat → Gen α} [∀ id, Names (body id)] :
    Names (owned tags first owner body) := by
  unfold owned
  infer_instance

instance {body : Gen α} [Names body] : Names (collectingStatics body) := by
  have first : Names (modify fun s => { s with statics := [] :: s.statics }) := .of fun _ => rfl
  have last (a : α) : Names (modifyGet fun s : GenState => ((a, s.statics.headD []), { s with statics := s.statics.tail })) :=
    .of fun _ => rfl
  unfold collectingStatics
  infer_instance

instance (line : Nat) (isPresent : Bool) : Names (thunk line isPresent value) := by
  unfold thunk
  infer_instance

/-! ### Expressions -/

instance (op : Operator) (p1 : Int) : Names (operator op p1) := by
  unfold operator
  split <;> infer_instance

instance : Names store := by
  unfold store
  refine Names.bind inferInstance fun last => ?_
  split
  · infer_instance
  · split <;> infer_instance

instance : Names create := by
  unfold create
  refine Names.bind inferInstance fun last => ?_
  split <;> infer_instance

instance : Names staticMember := by
  unfold staticMember
  refine Names.bind inferInstance fun last => ?_
  split <;> infer_instance

instance (line : Nat) (op : Operator) : Names (prefixed line op value) := by
  unfold prefixed
  refine Names.bind inferInstance fun _ => Names.bind inferInstance fun _ => ?_
  split <;> infer_instance

instance (line : Nat) (op : Operator) : Names (postfixed line op value) := by
  unfold postfixed
  infer_instance

instance (jump : Opcode) (op : Operator) : Names (shortCircuit jump op right) := by
  unfold shortCircuit
  infer_instance

instance (line : Nat) (op : Operator) : Names (binary line op left right) := by
  unfold binary
  refine Names.bind inferInstance fun _ => Names.bind inferInstance fun _ => ?_
  split <;> infer_instance

instance (line : Nat) (op : Operator) : Names (assign line op value left) := by
  unfold assign
  refine Names.bind inferInstance fun _ => Names.bind inferInstance fun _ => Names.bind inferInstance fun _ => ?_
  split <;> infer_instance

set_option synthInstance.maxSize 1000 in
instance (line : Nat) : Names (ternary line value left right) := by
  unfold ternary
  infer_instance

instance (line count : Nat) : Names (call line count left right) := by
  unfold call
  infer_instance

instance (line : Nat) (store : Bool) : Names (index line store left right) := by
  unfold index
  infer_instance

instance (line : Nat) (store : Bool) : Names (append line store value) := by
  unfold append
  infer_instance

/-! ### Leaves -/

instance (t : Token) : Names (number t) := by
  have large : Names (report t.line (.numberOutOfRange t.text)) := names_report _ trivial
  unfold number
  split
  · split <;> infer_instance
  · infer_instance

instance (text : String) : Names (simpleString text) := inferInstanceAs (Names (string _))

instance (name : Option String) : Names (nameOrNull name) := by
  unfold nameOrNull
  split <;> infer_instance

instance (path : Option Nat) (t : Token) : Names (name path t) := by
  have noted : Names (notePath path) := by
    unfold notePath
    split <;> infer_instance
  unfold name
  refine Names.bind noted fun _ => ?_
  split
  · infer_instance
  · split <;> infer_instance

instance (access : Access) (n : Nat) : Names (lookUp access n) := by
  induction n with
  | zero => exact inferInstanceAs (Names (pure ()))
  | succ n ih =>
      unfold lookUp
      infer_instance

instance (access : Access) (line : Nat) (name : String) (extra : Nat) : Names (loadVariable access line name extra) := by
  unfold loadVariable
  infer_instance

instance (access : Access) (line braceLine : Nat) (isPresent : Bool) (stray : Option Nat) (extra : Nat) :
    Names (computedVariable access line braceLine isPresent value stray extra) := by
  have missing : Names (report line .missingVariableName) := names_report line trivial
  unfold computedVariable
  infer_instance

instance (line braceLine : Nat) : Names (blankVariable line braceLine) := by
  have invalid : Names (report line .invalidVariable) := names_report line trivial
  unfold blankVariable
  infer_instance

instance (count : Nat) : Names (joinPieces count) := by
  unfold joinPieces
  infer_instance

instance (mark : ItemMark) : Names (item mark value) := by
  unfold item
  infer_instance

instance (line : Nat) : Names (plainEntry line value) := by
  unfold plainEntry
  infer_instance

instance (line : Nat) : Names (keyedEntry line left right) := by
  unfold keyedEntry
  infer_instance

instance (line : Nat) : Names (unkeyedEntry line value) := by
  have missing : Names (report line .missingEntryKey) := names_report line trivial
  unfold unkeyedEntry
  infer_instance

instance (count : Nat) (incomplete : Option Nat) : Names (array count value incomplete) := by
  unfold array
  refine Names.bind inferInstance fun _ => ?_
  split
  · rename_i line
    have missing : Names (report line .missingEntryValue) := names_report line trivial
    infer_instance
  · infer_instance

instance (count : Nat) : Names (list count value) := by
  unfold list
  infer_instance

instance (word : String) (isPresent : Bool) : Names (construct word isPresent value) := by
  unfold construct
  infer_instance

/-! ### Statements -/

instance (isPresent : Bool) : Names (dropIf isPresent) := by
  unfold dropIf
  infer_instance

instance (text : String) : Names (raw text) := by
  unfold raw
  infer_instance

instance (isPresent : Bool) : Names (expression isPresent value) := by
  unfold expression
  infer_instance

instance (isPresent : Bool) : Names (return_ isPresent value) := by
  unfold return_
  infer_instance

instance (isPresent : Bool) : Names (exit isPresent value) := by
  unfold exit
  infer_instance

instance (unclosed : Option Nat) : Names (braces value unclosed) := by
  have told : Names (reportFault (unclosed.map fun line => ⟨line, .unclosedBlock⟩)) := by
    refine names_faultMap ?_ unclosed
    exact fun _ => trivial
  unfold braces
  infer_instance

instance (id : Nat) (strays : List Token) (isLast : Bool) : Names (branch id value strays left isLast right) := by
  refine Names.bind inferInstance fun _ => Names.bind inferInstance fun _ => Names.bind inferInstance fun _ =>
    Names.bind inferInstance fun _ => ?_
  cases isLast with
  | true => exact inferInstanceAs (Names (settle id _ >>= fun _ => right))
  | false => exact inferInstanceAs (Names (await id .jmp .none >>= fun _ => settle id _ >>= fun _ => right))

instance {chain : Nat → Gen Unit} [∀ id, Names (chain id)] : Names (conditional chain) := by
  unfold conditional
  infer_instance

instance (strays : List Token) : Names (sectionBody strays value) := by
  have told : Names (reportAll (strays.map fun t => ⟨t.line, .unexpectedToken t.text⟩)) := by
    refine names_reportMap ?_ strays
    exact fun _ => trivial
  unfold sectionBody
  infer_instance

instance (line : Nat) (isPresent : Bool) (strays : List Token) (table : SwitchTable) :
    Names (caseSection line isPresent value strays left table) := by
  unfold caseSection
  infer_instance

instance (line : Nat) (strays : List Token) (table : SwitchTable) : Names (defaultSection line strays value table) := by
  have repeated : Names (report line .repeatedDefault) := names_report line trivial
  unfold defaultSection
  infer_instance

set_option synthInstance.maxSize 1000 in
theorem names_switch (strays : List Token) {sections : SwitchTable → Gen SwitchTable} [∀ table, Names (sections table)]
    {fault : Option Report} (h : Proper (Mention.fault fault)) : Names (switch value strays sections fault) := by
  have told := names_reportFault h
  unfold switch
  infer_instance

theorem names_switchWithoutBody (strays : List Token) {r : Report} (h : r.problem.IsForeign) :
    Names (switchWithoutBody value strays r) := by
  have told := names_report r.line h
  unfold switchWithoutBody
  infer_instance

instance (strays : List Token) : Names (whileLoop value strays left) := by
  unfold whileLoop jumpTo
  infer_instance

instance (strays : List Token) : Names (doLoop left value strays) := by
  unfold doLoop jumpTo
  infer_instance

theorem names_doWithoutTest {r : Report} (h : r.problem.IsForeign) : Names (doWithoutTest value r) := by
  have told := names_report r.line h
  unfold doWithoutTest
  infer_instance

instance (hasTest : Bool) (id : Nat) : Names (exitIf hasTest id) := by
  unfold exitIf
  infer_instance

instance {init : Gen Unit} [Names init] (line : Nat) (hasTest afterTest hasPost afterPost : Bool) :
    Names (forLoop line init hasTest value afterTest left hasPost right afterPost) := by
  have test := names_reportIf afterTest line (show Problem.forAfterTest.IsForeign from trivial)
  have post := names_reportIf afterPost line (show Problem.forAfterPost.IsForeign from trivial)
  unfold forLoop jumpTo
  refine Names.bind inferInstance fun _ => Names.bind inferInstance fun first => ?_
  -- what stands behind the body, where the next turn of the loop starts
  have next (id : Nat) : Names (settleContinue id >>= fun _ => right >>= fun _ => dropIf hasPost >>= fun _ =>
      reportIf afterPost line .forAfterPost >>= fun _ => put .jmp 0 first .none) := inferInstance
  infer_instance

instance (line : Nat) : Names (unbound line value) := by
  have invalid : Names (report line .foreachNotVariable) := names_report line trivial
  unfold unbound
  infer_instance

instance (id : Nat) (table : ForeachTable) : Names (foreachLoop id table value) := by
  unfold foreachLoop jumpTo
  infer_instance

instance (strays : List Token) {head : Nat → Gen Unit} [∀ id, Names (head id)] : Names (foreach value strays head) := by
  unfold foreach
  infer_instance

instance (jump : LoopJump) (line level : Nat) (unterminated : Bool) : Names (loopJump jump line level unterminated) := by
  have outside : Names (report line (.jumpOutsideLoop jump)) := names_report line trivial
  have open_ : Names (report line (.jumpWithoutSemicolon jump)) := names_report line trivial
  unfold loopJump
  refine Names.bind inferInstance fun s => ?_
  dsimp only
  split
  · infer_instance
  · split
    · infer_instance
    · unfold jumpOn jumpTo
      infer_instance

instance : Names (catchBody value) := by
  unfold catchBody
  infer_instance

theorem names_tryCatch {clauses : Nat → Gen Unit} [∀ table, Names (clauses table)] {fault : Option Report}
    (h : Proper (Mention.fault fault)) : Names (tryCatch value clauses fault) := by
  have told := names_reportFault h
  unfold tryCatch tryBody
  infer_instance

instance (line : Nat) (isPresent : Bool) : Names (throw line isPresent value) := by
  have invalid : Names (report line .notThrowable) := names_report line trivial
  unfold throw
  infer_instance

instance (name : String) (line : Nat) (isPresent : Bool) : Names (constant name line isPresent value) := by
  unfold constant
  infer_instance

instance (line : Nat) (type : TypeSpec) (name : String) : Names (declare line type name) := by
  unfold declare
  infer_instance

instance (line : Nat) (type : TypeSpec) (name : String) (isPresent : Bool) :
    Names (assigned line type name isPresent value) := by
  have missing : Names (report line (.missingInitialValue name)) := names_report line trivial
  unfold assigned
  infer_instance

instance (line : Nat) (type : TypeSpec) (name : String) (init : Code) : Names (static line type name init) := by
  have outside : Names (report line (.staticOutsideFunction name)) := names_report line trivial
  unfold static
  infer_instance

instance (line : Nat) (type : TypeSpec) (name : String) (valueLine : Nat) (isPresent : Bool) :
    Names (staticValue line type name valueLine isPresent value) := by
  have missing : Names (report line (.missingStaticValue name)) := names_report line trivial
  unfold staticValue
  infer_instance

/-! ### Functions and classes -/

instance (name : String) (className : Option String) : Names (functionBody name className value) := by
  unfold functionBody
  infer_instance

instance (head : FunctionHead) (args : List Argument) : Names (functionDef head args value) := by
  unfold functionDef
  infer_instance

theorem names_arguments {params : Gen (List Argument)} [Names params] {fault : Option Report}
    (h : Proper (Mention.fault fault)) : Names (arguments params fault) := by
  have told := names_reportFault h
  unfold arguments
  infer_instance

theorem names_memberValue (head : MemberHead) {problem : Problem} (h : problem.IsForeign) (line : Nat) (isPresent : Bool) :
    Names (memberValue head problem line isPresent value) := by
  have missing := names_report head.line h
  unfold memberValue
  infer_instance

instance (head : ClassHead) (c : ClassDef) : Names (completeClass head c) := by
  have duplicate : Names (report head.line
      (if head.flags.isInterface then .duplicateInterface head.name else .duplicateClass head.name)) := by
    refine names_report _ ?_
    split <;> exact trivial
  unfold completeClass link
  infer_instance

theorem names_class_ (head : ClassHead) {members : ClassDef → Gen ClassDef} [∀ c, Names (members c)]
    {fault : Option ErrorReport} (h : Proper (Mention.error fault)) : Names (class_ head members fault) := by
  unfold class_
  cases fault with
  | none =>
      dsimp only
      infer_instance
  | some error =>
      have told := names_report error.line (h _ List.mem_cons_self)
      dsimp only
      infer_instance

end Constructs

end Gen

end StackScript
