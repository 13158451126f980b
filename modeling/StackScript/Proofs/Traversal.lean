/-
One recursion over the script for judgments about generators.

Some generators make bodies in containers of their own.  A `Judgment` says something of a generator and the
bodies it makes; what is asked of a judgment is that it holds of steps that make none, and that the ways
generators are put together keep it.  Where it also holds of the installation of any class, it holds of the
generator of every part of a script, and of the script, with all the bodies in it.
-/
import StackScript.Proofs.Nesting

namespace StackScript

namespace CatchClause

/-- The body of a clause that is not malformed. -/
def body? : CatchClause → Option Stmt
  | malformed _ => none
  | clause _ _ body => some body

end CatchClause

open Gen

/-! ### What is kept -/

theorem Retains.errors_le {s t : GenState} (h : Retains s t) : s.errors ≤ t.errors := h.reports.sublist.countP_le

/-- What tables and records of a state matter here. -/
def GenState.stored (s : GenState) : List Report × List SwitchTable × List ForeachTable × List (List Block) × List Filled :=
  (s.reports, s.program.switches, s.program.foreachs, s.jumps, s.filled)

/-- A step that adds nothing. -/
theorem Retains.of {s t : GenState} (h : t.stored = s.stored) : Retains s t := by
  obtain ⟨hreports, hswitches, hforeachs, hjumps, hfilled⟩ := by
    simpa only [GenState.stored, Prod.mk.injEq] using h
  exact ⟨hreports ▸ List.prefix_rfl, .same hswitches hjumps hfilled, hforeachs ▸ List.prefix_rfl⟩

namespace Gen

variable {α β : Type}

/-- A generator that only adds to reports, tables and records. -/
def Stores (m : Gen α) : Prop := ∀ s, Retains s (after m s)

theorem Stores.bind {m : Gen α} {f : α → Gen β} (hm : Stores m) (hf : ∀ a, Stores (f a)) : Stores (m >>= f) := by
  intro s
  rw [after_bind]
  exact (hm s).trans (hf _ _)

theorem Valued.stores {m : Gen α} (h : Valued m) : Stores m := fun s => (h s).builds.retains

/-! ### Steps that make no body -/

/-- A generator that only adds to reports, tables and records, but no class, no clause and no container. -/
structure Still (m : Gen α) : Prop where
  stores : Stores m
  kept : ∀ s, ((after m s).program.classes, (after m s).program.exceptions, (after m s).filled) =
    (s.program.classes, s.program.exceptions, s.filled)

namespace Still

theorem classes {m : Gen α} (h : Still m) (s : GenState) : (after m s).program.classes = s.program.classes :=
  congrArg Prod.fst (h.kept s)

theorem clauses {m : Gen α} (h : Still m) (s : GenState) : (after m s).program.exceptions = s.program.exceptions :=
  congrArg (fun x => x.2.1) (h.kept s)

theorem filled {m : Gen α} (h : Still m) (s : GenState) : (after m s).filled = s.filled :=
  congrArg (fun x => x.2.2) (h.kept s)

theorem of {m : Gen α} (h : ∀ s, ((after m s).stored, (after m s).program.classes, (after m s).program.exceptions) =
    (s.stored, s.program.classes, s.program.exceptions)) : Still m where
  stores := fun s => .of (congrArg Prod.fst (h s))
  kept := fun s => congrArg (fun x => (x.2.1, x.2.2, x.1.2.2.2.2)) (h s)

theorem bind {m : Gen α} {f : α → Gen β} (hm : Still m) (hf : ∀ a, Still (f a)) : Still (m >>= f) where
  stores := hm.stores.bind fun a => (hf a).stores
  kept := by
    intro s
    rw [after_bind, (hf _).kept, hm.kept]

theorem ite {c : Prop} [Decidable c] {m m' : Gen α} (h : Still m) (h' : Still m') : Still (if c then m else m') := by
  split
  · exact h
  · exact h'

end Still

theorem still_pure (a : α) : Still (pure a : Gen α) := .of fun _ => rfl

theorem still_get : Still (get : Gen GenState) := .of fun _ => rfl

theorem still_here : Still here := .of fun _ => rfl

theorem still_setLine (line : Nat) : Still (setLine line) := .of fun _ => rfl

theorem still_emit {op : Opcode} {p1 : Int} {p2 : Nat} {p3 : Operand} : Still (emit op p1 p2 p3) := .of fun _ => rfl

theorem still_put {op : Opcode} {p1 : Int} {p2 : Nat} {p3 : Operand} : Still (put op p1 p2 p3) := .of fun _ => rfl

theorem still_landHere {index : Nat} : Still (landHere index) := .of fun _ => rfl

theorem still_intern {add : ConstantPool → Nat × ConstantPool} : Still (intern add) := .of fun _ => rfl

theorem still_loadConstant {add : ConstantPool → Nat × ConstantPool} : Still (loadConstant add) := .of fun _ => rfl

theorem still_await {id : Nat} {op : Opcode} {p3 : Operand} : Still (await id op p3) := .of fun _ => rfl

theorem still_settle {id : Nat} {op : Option Opcode} : Still (settle id op) := .of fun _ => rfl

theorem still_settleContinue {id : Nat} : Still (settleContinue id) := .of fun _ => rfl

theorem still_markBoundary : Still markBoundary := .of fun _ => rfl

/-! ### Reports -/

theorem still_reportAll (rs : List Report) : Still (reportAll rs) := ⟨(valued_reportAll rs).stores, fun _ => rfl⟩

theorem still_report (line : Nat) (problem : Problem) : Still (report line problem) :=
  ⟨(valued_report line problem).stores, fun _ => rfl⟩

theorem still_reportFault (fault : Option Report) : Still (reportFault fault) := by
  cases fault with
  | none => exact still_pure ()
  | some r => exact still_report r.line r.problem

theorem still_reportStrays (header : Header) (strays : List Token) : Still (reportStrays header strays) := still_reportAll _

theorem still_reportIf (isWrong : Bool) (line : Nat) (problem : Problem) : Still (reportIf isWrong line problem) :=
  .ite (still_report line problem) (still_pure ())

theorem still_cutShort (stray : Option Nat) : Still (cutShort stray) := by
  cases stray with
  | none => exact still_pure ()
  | some line => exact still_report line _

theorem still_noteNamespaces (line : Nat) : Still (noteNamespaces line) :=
  still_get.bind fun _ => .ite ((Still.of fun _ => rfl).bind fun _ => still_report line _) (still_pure ())

theorem still_restrict (restriction : Option Restriction) (root : Tree Leaf) : Still (restrict restriction root) := by
  unfold restrict
  split
  · exact still_report _ _
  · exact still_pure ()

theorem still_captureReports (captures : Option CaptureList) : Still (captureReports captures) := by
  cases captures with
  | none => exact still_pure ()
  | some list => exact (still_reportFault _).bind fun _ => still_reportFault _

/-! ### Operators and leaves -/

theorem still_operator (op : Operator) (p1 : Int) : Still (operator op p1) := by
  unfold operator
  split
  · exact still_put
  · exact still_pure ()

theorem still_store : Still store := by
  refine .of fun s => ?_
  unfold store
  rw [after_bind]
  split
  · rfl
  · split <;> rfl

theorem still_create : Still create := by
  refine .of fun s => ?_
  unfold create
  rw [after_bind]
  split
  · rw [after_bind]
    split <;> rfl
  · rfl

theorem still_staticMember : Still staticMember := by
  refine .of fun s => ?_
  unfold staticMember
  rw [after_bind]
  split
  · split <;> rfl
  · rfl

theorem still_number (t : Token) : Still (number t) := by
  unfold number
  split
  · split
    · exact still_loadConstant
    · exact .ite still_loadConstant ((still_report _ _).bind fun _ => still_loadConstant)
  · exact still_loadConstant

theorem still_nameOrNull (name : Option String) : Still (nameOrNull name) := by
  cases name with
  | none => exact still_put
  | some text => exact still_loadConstant

theorem still_currentClass : Still currentClass := by
  refine still_get.bind fun s => ?_
  split <;> exact still_pure _

theorem still_currentFunction : Still currentFunction := by
  refine still_get.bind fun s => ?_
  split <;> exact still_pure _

theorem still_name (path : Option Nat) (t : Token) : Still (name path t) := by
  have noted : Still (notePath path) := by
    cases path with
    | none => exact still_pure ()
    | some line => exact still_noteNamespaces line
  refine noted.bind fun _ => ?_
  split
  · exact still_put
  · split
    · exact still_loadConstant
    · exact still_get.bind fun _ => still_loadConstant
    · exact still_get.bind fun _ => still_loadConstant
    · exact still_currentClass.bind still_nameOrNull
    · exact still_currentFunction.bind fun _ => still_nameOrNull _
    · exact still_currentFunction.bind fun _ => still_nameOrNull _
    · exact still_intern.bind fun _ => still_put

theorem still_lookUp (access : Access) (n : Nat) : Still (lookUp access n) := by
  induction n with
  | zero => exact still_pure ()
  | succ n ih => exact still_put.bind fun _ => ih

theorem still_loadVariable (access : Access) (line : Nat) (name : String) (extra : Nat) :
    Still (loadVariable access line name extra) :=
  (still_setLine line).bind fun _ => still_put.bind fun _ => still_lookUp access extra

theorem still_blankVariable (line braceLine : Nat) : Still (blankVariable line braceLine) :=
  (still_setLine braceLine).bind fun _ => still_report line _

theorem still_joinPieces (count : Nat) : Still (joinPieces count) := .ite still_put (still_pure ())

/-! ### Functions, classes and statements -/

theorem still_installFunction (f : FunctionDef) : Still (installFunction f) := by
  refine .of fun s => ?_
  unfold installFunction
  rw [after_modifyGet]
  unfold Program.installFunction?
  split <;> rename_i hq <;> split at hq <;> cases hq <;> rfl

theorem still_loadFunction (f : FunctionDef) : Still (loadFunction f) :=
  .ite ((Still.of fun _ => rfl).bind fun _ => still_put)
    ((still_installFunction f).bind fun _ => .ite still_loadConstant (still_report _ _))

theorem still_link (head : ClassHead) : Still (link head) :=
  .ite ((⟨fun _ => ⟨List.prefix_rfl, .same rfl rfl rfl, List.prefix_rfl⟩, fun _ => rfl⟩ : Still (addLink _)).bind fun _ =>
    (still_setLine _).bind fun _ => still_put) (still_pure ())

/-- All that changes where a class is installed is the table of classes, in which it then comes last. -/
theorem after_installClass (c : ClassDef) (s : GenState) :
    ∃ classes, after (installClass c) s = { s with program := { s.program with classes := classes } } ∧
      (classes = s.program.classes ∨ classes = s.program.classes ++ [c]) := by
  unfold installClass
  rw [after_modifyGet]
  unfold Program.installClass?
  split <;> rename_i hq <;> split at hq <;> cases hq
  · exact ⟨_, rfl, .inr rfl⟩
  · exact ⟨_, rfl, .inl rfl⟩

/-- What comes behind the installation of a class. -/
theorem still_installed (head : ClassHead) (isInstalled : Bool) (problem : Problem) :
    Still (if isInstalled then link head else report head.line problem) := .ite (still_link head) (still_report _ _)

theorem stores_completeClass (head : ClassHead) (c : ClassDef) : Stores (completeClass head c) := by
  refine Stores.bind (fun s => ?_) fun isInstalled => (still_installed head isInstalled _).stores
  obtain ⟨classes, hafter, -⟩ := after_installClass c s
  rw [hafter]
  exact .of rfl

/-- Where a declaration is completed, there are no more clauses and no more containers. -/
theorem completeClass_kept (head : ClassHead) (c : ClassDef) (s : GenState) :
    (after (completeClass head c) s).program.exceptions = s.program.exceptions ∧
      (after (completeClass head c) s).filled = s.filled := by
  obtain ⟨classes, hafter, -⟩ := after_installClass c s
  unfold completeClass
  rw [after_bind, hafter]
  have behind := still_installed head (result (installClass c) s)
    (if head.flags.isInterface then .duplicateInterface head.name else .duplicateClass head.name)
  exact ⟨behind.clauses _, behind.filled _⟩

theorem still_dropIf (isPresent : Bool) : Still (dropIf isPresent) := .ite still_put (still_pure ())

theorem still_exitIf (hasTest : Bool) (id : Nat) : Still (exitIf hasTest id) := .ite still_await (still_pure ())

theorem still_addForeach (table : ForeachTable) : Still (addForeach table) :=
  ⟨(valued_addForeach table).stores, fun _ => rfl⟩

theorem still_loopJump (jump : LoopJump) (line level : Nat) (unterminated : Bool) :
    Still (loopJump jump line level unterminated) := by
  refine ⟨fun s => (flows_loopJump jump line level unterminated s).builds.retains, fun s => ?_⟩
  have jumped : ∀ id target t, ((after (jumpOn jump id target) t).program.classes,
      (after (jumpOn jump id target) t).program.exceptions, (after (jumpOn jump id target) t).filled) =
      (t.program.classes, t.program.exceptions, t.filled) := by
    intro id target t
    unfold jumpOn
    split
    · rfl
    · split <;> rfl
  unfold loopJump
  rw [after_bind]
  dsimp only
  split
  · rfl
  · split
    · rfl
    · rw [after_bind, after_bind]
      exact ((Still.ite (still_report _ _) (still_pure ())).kept _).trans (jumped _ _ _)

theorem still_declare (line : Nat) (type : TypeSpec) (name : String) : Still (declare line type name) :=
  (still_setLine line).bind fun _ => still_put

theorem still_static (line : Nat) (type : TypeSpec) (name : String) (init : Code) : Still (static line type name init) := by
  have add : Still (addStatic ⟨name, type, init⟩) := by
    refine .of fun s => ?_
    unfold addStatic
    rw [after_modifyGet]
    split <;> rfl
  exact add.bind fun _ => .ite (still_report _ _) (still_pure ())

end Gen

open Gen

/-- A judgment about generators and the bodies they make, kept by the ways generators are put together. -/
structure Judgment where
  Claims : {α : Type} → List Stmt → Gen α → Prop
  still : ∀ {α : Type} {m : Gen α}, Still m → Claims [] m
  bind : ∀ {α β : Type} {bs cs : List Stmt} {m : Gen α} {f : α → Gen β}, Claims bs m → (∀ a, Claims cs (f a)) →
    Claims (bs ++ cs) (m >>= f)
  /-- In which order the bodies are listed does not matter. -/
  perm : ∀ {α : Type} {bs cs : List Stmt} {m : Gen α}, bs.Perm cs → Claims bs m → Claims cs m
  thunk : ∀ {bs : List Stmt} (line : Nat) (value : Expr), Claims bs (value.gen {} none) →
    Claims bs (thunk line value.isPresent (value.gen {} none))
  /-- The table of a switch is filled in behind its sections. -/
  switchRest : ∀ {bs : List Stmt} {sections : SwitchTable → Gen SwitchTable} (fault : Option Report),
    (∀ table, Claims bs (sections table)) → Claims bs (switchRest sections fault)
  functionBody : ∀ {bs : List Stmt} (name : String) (className : Option String) (body : Stmt), Claims bs body.gen →
    Claims (body :: bs) (functionBody name className body.gen)
  tryCatch : ∀ {bs : List Stmt} (body : Stmt) (clauses : List CatchClause) (fault : Option Report), Claims bs body.gen →
    (∀ b ∈ clauses.filterMap CatchClause.body?, Claims b.bodies b.gen) →
    Claims (bs ++ CatchClause.allBodies clauses) (Stmt.tryCatch body clauses fault).gen

namespace Judgment

variable (J : Judgment) {α β : Type} {bs cs ds es : List Stmt}

/-! ### Ways generators are put together -/

/-- What comes first makes no body. -/
theorem behind {m : Gen α} {f : α → Gen β} (hm : Still m) (hf : ∀ a, J.Claims bs (f a)) : J.Claims bs (m >>= f) :=
  J.bind (J.still hm) hf

theorem last {m : Gen α} {f : α → Gen β} (hm : J.Claims bs m) (hf : ∀ a, J.Claims [] (f a)) : J.Claims bs (m >>= f) := by
  have := J.bind hm hf
  rwa [List.append_nil] at this

/-- What comes last makes no body. -/
theorem before {m : Gen α} {f : α → Gen β} (hm : J.Claims bs m) (hf : ∀ a, Still (f a)) : J.Claims bs (m >>= f) :=
  J.last hm fun a => J.still (hf a)

section Constructs

variable {value left right : Gen Unit}

theorem discarding (h : J.Claims bs value) : J.Claims bs (Gen.discarding value) :=
  J.behind still_here fun _ => J.before h fun _ => .of fun _ => rfl

theorem inBlock {tags : List BlockTag} {deferred : Option (List Nat)} {body : Nat → Gen Unit}
    (h : ∀ id, J.Claims bs (body id)) : J.Claims bs (Gen.inBlock tags deferred body) :=
  J.behind still_here fun _ => J.behind (.of fun _ => rfl) fun id => J.before (h id) fun _ => .of fun _ => rfl

theorem owned {tags : List BlockTag} {first : Nat} {owner : BlockOwner} {body : Nat → Gen α}
    (h : ∀ id, J.Claims bs (body id)) : J.Claims bs (Gen.owned tags first owner body) :=
  J.behind (.of fun _ => rfl) fun id => J.before (h id) fun _ => .of fun _ => rfl

/-! ### Expressions -/

theorem prefixed (line : Nat) (op : Operator) (h : J.Claims bs value) : J.Claims bs (Gen.prefixed line op value) := by
  refine J.behind (still_setLine line) fun _ => J.before h fun _ => ?_
  split
  · exact still_create
  all_goals exact still_operator _ _

theorem postfixed (line : Nat) (op : Operator) (h : J.Claims bs value) : J.Claims bs (Gen.postfixed line op value) :=
  J.behind (still_setLine line) fun _ => J.before h fun _ => still_operator op 0

theorem shortCircuit (jump : Opcode) (op : Operator) (h : J.Claims bs right) :
    J.Claims bs (Gen.shortCircuit jump op right) :=
  J.behind still_emit fun _ => J.before h fun _ => (still_operator op 0).bind fun _ => still_landHere

theorem binary (line : Nat) (op : Operator) (hl : J.Claims bs left) (hr : J.Claims cs right) :
    J.Claims (bs ++ cs) (Gen.binary line op left right) := by
  refine J.behind (still_setLine line) fun _ => J.bind hl fun _ => ?_
  split
  · exact J.behind still_put fun _ => hr
  · exact J.shortCircuit _ _ hr
  · exact J.shortCircuit _ _ hr
  · exact J.before hr fun _ => still_staticMember
  · exact J.before hr fun _ => still_operator _ _

theorem assign (line : Nat) (op : Operator) (hv : J.Claims bs value) (ht : J.Claims cs left) :
    J.Claims (bs ++ cs) (Gen.assign line op value left) := by
  refine J.behind (still_setLine line) fun _ => J.bind hv fun _ => J.before ht fun _ => ?_
  split
  · exact still_store
  · exact still_operator _ _

theorem ternary (line : Nat) (hc : J.Claims bs value) (hy : J.Claims cs left) (hn : J.Claims ds right) :
    J.Claims (bs ++ (cs ++ ds)) (Gen.ternary line value left right) :=
  J.behind (still_setLine line) fun _ => J.bind hc fun _ => J.behind still_emit fun _ => J.bind hy fun _ =>
    J.behind still_emit fun _ => J.behind still_landHere fun _ => J.before hn fun _ => still_landHere

theorem call (line count : Nat) (ha : J.Claims bs left) (hc : J.Claims cs right) :
    J.Claims (bs ++ cs) (Gen.call line count left right) :=
  J.behind (still_setLine line) fun _ => J.bind ha fun _ => J.before hc fun _ => .of fun _ => rfl

theorem index (line : Nat) (store : Bool) (hb : J.Claims bs left) (hk : J.Claims cs right) :
    J.Claims (bs ++ cs) (Gen.index line store left right) :=
  J.behind (still_setLine line) fun _ => J.bind hb fun _ => J.before hk fun _ => still_put

theorem append (line : Nat) (store : Bool) (h : J.Claims bs value) : J.Claims bs (Gen.append line store value) :=
  J.behind (still_setLine line) fun _ => J.before h fun _ => still_put

theorem computedVariable (access : Access) (line braceLine : Nat) (isPresent : Bool) (h : J.Claims bs value)
    (stray : Option Nat) (extra : Nat) :
    J.Claims bs (Gen.computedVariable access line braceLine isPresent value stray extra) :=
  J.behind (still_setLine braceLine) fun _ => J.before h fun _ => (still_cutShort stray).bind fun _ =>
    .ite (still_lookUp access _) (still_report _ _)

theorem item (mark : ItemMark) (h : J.Claims bs value) : J.Claims bs (Gen.item mark value) :=
  J.before h fun _ => .ite still_put (still_cutShort _)

theorem plainEntry (line : Nat) (h : J.Claims bs value) : J.Claims bs (Gen.plainEntry line value) :=
  J.behind (still_setLine line) fun _ => J.behind still_put fun _ => h

theorem keyedEntry (line : Nat) (hk : J.Claims bs left) (hv : J.Claims cs right) :
    J.Claims (bs ++ cs) (Gen.keyedEntry line left right) :=
  J.behind (still_setLine line) fun _ => J.bind hk fun _ => hv

theorem unkeyedEntry (line : Nat) (h : J.Claims bs value) : J.Claims bs (Gen.unkeyedEntry line value) :=
  J.behind (still_setLine line) fun _ => J.behind (still_report _ _) fun _ => J.behind still_put fun _ => h

theorem array (count : Nat) (h : J.Claims bs value) (incomplete : Option Nat) :
    J.Claims bs (Gen.array count value incomplete) := by
  refine J.before h fun _ => ?_
  cases incomplete with
  | none => exact still_put
  | some line => exact (still_setLine line).bind fun _ => still_report _ _

theorem list (count : Nat) (h : J.Claims bs value) : J.Claims bs (Gen.list count value) := J.before h fun _ => still_put

theorem construct (word : String) (isPresent : Bool) (h : J.Claims bs value) :
    J.Claims bs (Gen.construct word isPresent value) :=
  J.before h fun _ => still_loadConstant.bind fun _ => still_put

/-! ### Functions and classes -/

theorem arguments {params : Gen (List Argument)} (h : J.Claims bs params) (fault : Option Report) :
    J.Claims bs (Gen.arguments params fault) :=
  J.before h fun _ => (still_reportFault fault).bind fun _ => still_pure _

theorem functionDef (head : FunctionHead) (args : List Argument) {body : Stmt} (h : J.Claims bs body.gen) :
    J.Claims (body :: bs) (Gen.functionDef head args body.gen) := by
  unfold Gen.functionDef
  split
  · exact J.behind still_currentClass fun className =>
      J.before (J.functionBody head.name className body h) fun _ => still_pure _
  · exact J.behind (still_pure none) fun className =>
      J.before (J.functionBody head.name className body h) fun _ => still_pure _

theorem function (head : FunctionHead) {params : Gen (List Argument)} (hp : J.Claims bs params) (fault : Option Report)
    {body : Stmt} (hb : J.Claims cs body.gen) :
    J.Claims (bs ++ body :: cs) (Gen.function head params fault body.gen) :=
  J.bind (J.arguments hp fault) fun _ => J.before (J.functionDef head _ hb) fun f =>
    (still_installFunction f).bind fun _ => .ite (still_report _ _) (still_pure _)

theorem closure (line : Nat) (returns : TypeSpec) {params : Gen (List Argument)} (hp : J.Claims bs params)
    (fault : Option Report) (captures : Option CaptureList) {body : Stmt} (hb : J.Claims cs body.gen) :
    J.Claims (bs ++ body :: cs) (Gen.closure line returns params fault captures body.gen) :=
  J.behind (.of fun _ => rfl) fun _ => J.bind (J.arguments hp fault) fun _ =>
    J.behind (still_captureReports captures) fun _ => J.before (J.functionDef _ _ hb) fun _ => still_loadFunction _

theorem memberValue (head : MemberHead) (problem : Problem) (line : Nat) (value : Expr)
    (h : J.Claims bs (value.gen {} none)) :
    J.Claims bs (Gen.memberValue head problem line value.isPresent (value.gen {} none)) := by
  refine J.before (J.thunk line value h) fun code => ?_
  cases value.isPresent with
  | true => exact still_pure code
  | false => exact (still_report _ _).bind fun _ => still_pure code

/-- A declaration is dropped, or else the judgment has to hold of its installation. -/
theorem class_ (head : ClassHead) {members : ClassDef → Gen ClassDef} (hm : ∀ c, J.Claims bs (members c))
    (fault : Option ErrorReport) (installs : fault = none → ∀ c, J.Claims [] (completeClass head c)) :
    J.Claims bs (Gen.class_ head members fault) := by
  unfold Gen.class_
  dsimp only
  cases fault with
  | none =>
      split
      · exact J.last (hm _) (installs rfl)
      · exact J.behind still_here fun _ => J.last (J.owned fun _ => hm _) (installs rfl)
  | some error =>
      split
      · exact J.before (hm _) fun _ => still_report _ _
      · exact J.behind still_here fun _ => J.before (J.owned fun _ => hm _) fun _ => still_report _ _

/-! ### Statements -/

theorem expression (isPresent : Bool) (h : J.Claims bs value) : J.Claims bs (Gen.expression isPresent value) :=
  J.before h fun _ => still_dropIf isPresent

theorem braces (h : J.Claims bs value) (unclosed : Option Nat) : J.Claims bs (Gen.braces value unclosed) :=
  J.behind still_here fun _ => J.owned fun _ => J.before h fun _ => still_reportFault _

theorem branch (id : Nat) (ht : J.Claims bs value) (strays : List Token) (hb : J.Claims cs left) (isLast : Bool)
    (hr : J.Claims ds right) : J.Claims (bs ++ (cs ++ ds)) (Gen.branch id value strays left isLast right) := by
  refine J.bind ht fun _ => J.behind (still_reportStrays .plain strays) fun _ => J.behind still_await fun _ =>
    J.bind hb fun _ => ?_
  cases isLast with
  | true => exact J.behind still_settle fun _ => hr
  | false => exact J.behind still_await fun _ => J.behind still_settle fun _ => hr

theorem sectionBody (strays : List Token) (h : J.Claims bs value) : J.Claims bs (Gen.sectionBody strays value) :=
  J.behind (still_reportAll _) fun _ => J.behind still_here fun _ => J.before h fun _ => still_pure _

theorem caseSection (line : Nat) (guard : Expr) (hg : J.Claims bs (guard.gen {} none)) (strays : List Token)
    (hb : J.Claims cs left) (table : SwitchTable) :
    J.Claims (bs ++ cs) (Gen.caseSection line guard.isPresent (guard.gen {} none) strays left table) :=
  J.bind (J.thunk line guard hg) fun _ => J.before (J.sectionBody strays hb) fun _ => still_pure _

theorem defaultSection (line : Nat) (strays : List Token) (hb : J.Claims bs value) (table : SwitchTable) :
    J.Claims bs (Gen.defaultSection line strays value table) := by
  have labelled := J.before (J.sectionBody strays hb) fun start =>
    still_pure { table with default? := table.default?.or (some start) }
  unfold Gen.defaultSection
  split
  · exact J.behind (still_report _ _) fun _ => labelled
  · exact labelled

theorem switch (hs : J.Claims bs value) (strays : List Token) {sections : SwitchTable → Gen SwitchTable}
    (h : ∀ table, J.Claims cs (sections table)) (fault : Option Report) :
    J.Claims (bs ++ cs) (Gen.switch value strays sections fault) :=
  J.inBlock fun _ => J.bind hs fun _ => J.behind (still_reportStrays .switch strays) fun _ => J.switchRest fault h

theorem switchWithoutBody (hs : J.Claims bs value) (strays : List Token) (r : Report) :
    J.Claims bs (Gen.switchWithoutBody value strays r) :=
  J.inBlock fun _ => J.before hs fun _ => (still_reportStrays .switch strays).bind fun _ => still_report _ _

theorem whileLoop (ht : J.Claims bs value) (strays : List Token) (hb : J.Claims cs left) :
    J.Claims (bs ++ cs) (Gen.whileLoop value strays left) :=
  J.behind still_here fun _ => J.inBlock fun _ => J.bind ht fun _ => J.behind (still_reportStrays .plain strays) fun _ =>
    J.behind still_await fun _ => J.before hb fun _ => still_put

theorem doLoop (hb : J.Claims bs left) (ht : J.Claims cs value) (strays : List Token) :
    J.Claims (bs ++ cs) (Gen.doLoop left value strays) :=
  J.behind still_here fun _ => J.inBlock fun _ => J.bind hb fun _ => J.behind still_settleContinue fun _ =>
    J.before ht fun _ => (still_reportStrays .plain strays).bind fun _ => still_put

theorem doWithoutTest (hb : J.Claims bs value) (r : Report) : J.Claims bs (Gen.doWithoutTest value r) :=
  J.inBlock fun _ => J.before hb fun _ => still_report _ _

theorem forLoop {init test body post : Gen Unit} (line : Nat) (hi : J.Claims bs init) (hasTest : Bool)
    (ht : J.Claims cs test) (afterTest : Bool) (hb : J.Claims ds body) (hasPost : Bool) (hp : J.Claims es post)
    (afterPost : Bool) :
    J.Claims (bs ++ (cs ++ (ds ++ es))) (Gen.forLoop line init hasTest test afterTest body hasPost post afterPost) := by
  refine J.bind hi fun _ => J.behind still_here fun _ => J.inBlock fun id => J.bind ht fun _ => ?_
  refine J.behind (still_exitIf hasTest id) fun _ => J.behind (still_reportIf _ _ _) fun _ => J.bind hb fun _ => ?_
  refine J.behind still_settleContinue fun _ => J.before hp fun _ => ?_
  exact (still_dropIf hasPost).bind fun _ => (still_reportIf _ _ _).bind fun _ => still_put

theorem unbound (line : Nat) (h : J.Claims bs value) : J.Claims bs (Gen.unbound line value) :=
  J.behind (.of fun _ => rfl) fun _ => J.before (J.discarding h) fun _ => (Still.of fun _ => rfl).bind fun _ =>
    .ite (still_report _ _) (still_pure _)

theorem foreachLoop (id : Nat) (table : ForeachTable) (h : J.Claims bs value) :
    J.Claims bs (Gen.foreachLoop id table value) :=
  J.behind (still_addForeach table) fun _ => J.behind still_await fun _ => J.behind (.of fun _ => rfl) fun _ =>
    J.behind still_here fun _ => J.behind still_await fun _ => J.before h fun _ => still_put

theorem foreach (hs : J.Claims bs value) (strays : List Token) {head : Nat → Gen Unit} (h : ∀ id, J.Claims cs (head id)) :
    J.Claims (bs ++ cs) (Gen.foreach value strays head) :=
  J.inBlock fun id => J.bind hs fun _ => J.behind (still_reportStrays .foreach strays) fun _ => h id

theorem throw (line : Nat) (isPresent : Bool) (h : J.Claims bs value) : J.Claims bs (Gen.throw line isPresent value) := by
  refine J.before h fun _ => ?_
  cases isPresent with
  | true => exact still_get.bind fun _ => still_await
  | false => exact still_report _ _

theorem constant (name : String) (line : Nat) (value : Expr) (h : J.Claims bs (value.gen {} none)) :
    J.Claims bs (Gen.constant name line value.isPresent (value.gen {} none)) :=
  J.before (J.thunk line value h) fun _ => .of fun _ => rfl

theorem assigned (line : Nat) (type : TypeSpec) (name : String) (isPresent : Bool) (h : J.Claims bs value) :
    J.Claims bs (Gen.assigned line type name isPresent value) :=
  J.behind (still_declare line type name) fun _ => J.before h fun _ => .ite still_put (still_report _ _)

theorem staticValue (line : Nat) (type : TypeSpec) (name : String) (valueLine : Nat) (value : Expr)
    (h : J.Claims bs (value.gen {} none)) :
    J.Claims bs (Gen.staticValue line type name valueLine value.isPresent (value.gen {} none)) := by
  refine J.before (J.thunk valueLine value h) fun init => ?_
  cases value.isPresent with
  | true => exact still_static line type name init
  | false => exact (still_report _ _).bind fun _ => still_static line type name init

end Constructs

end Judgment

/-! ### The recursion -/

/-- A judgment that holds of the installation of a class, whatever class it is, and so of every part of a script. -/
structure ScriptJudgment extends Judgment where
  completeClass : ∀ (head : ClassHead) (c : ClassDef), Claims [] (completeClass head c)

namespace ScriptJudgment

variable (J : ScriptJudgment)

mutual

theorem claims_expr (access : Access) (restriction : Option Restriction) :
    (e : Expr) → J.Claims e.bodies (e.gen access restriction)
  | .missing => J.still (still_pure ())
  | .rejected _ => J.still (still_report _ _)
  | .tree root => J.behind (still_restrict restriction root) fun _ => claims_tree access root

theorem claims_tree (access : Access) : (t : Tree Leaf) → J.Claims (Leaf.treeBodies t) (Leaf.genTree access t)
  | .leaf _ content => claims_leaf access content
  | .prefixed _ _ x => J.prefixed _ _ (claims_tree access x)
  | .postfixed _ _ x => J.postfixed _ _ (claims_tree access x)
  | .binary _ _ x y => J.binary _ _ (claims_tree access x) (claims_tree access y)
  | .assign _ _ target value =>
    J.perm List.perm_append_comm (J.assign _ _ (claims_tree access value) (claims_tree access.target target))
  | .ternary _ c x y => J.ternary _ (claims_tree access c) (claims_tree access x) (claims_tree access y)
  | .call _ f xs => J.perm List.perm_append_comm (J.call _ _ (claims_trees access.argument xs) (claims_tree access f))
  | .index _ x k => J.index _ _ (claims_tree access x) (claims_tree access.key k)
  | .append _ x => J.append _ _ (claims_tree access x)

theorem claims_trees (access : Access) : (ts : List (Tree Leaf)) → J.Claims (Leaf.treesBodies ts) (Leaf.genTrees access ts)
  | [] => J.still (still_pure ())
  | t :: ts => J.bind (claims_tree access t) fun _ => claims_trees access ts

theorem claims_leaf (access : Access) : (l : Leaf) → J.Claims l.bodies (l.gen access)
  | .unread _ => J.still (still_report _ _)
  | .number t => J.still (still_number t)
  | .simpleString _ => J.still still_loadConstant
  | .template first rest =>
    J.bind (claims_piece first) fun _ => J.before (claims_pieces rest) fun _ => still_joinPieces _
  | .variable line name extra => J.still (still_loadVariable access line name extra)
  | .computedVariable line braceLine name stray extra =>
    J.computedVariable access line braceLine _ (claims_expr _ _ name) stray extra
  | .blankVariable line braceLine => J.still (still_blankVariable line braceLine)
  | .name path t => J.still (still_name path t)
  | .array entries incomplete => J.array _ (claims_entries entries) incomplete
  | .list targets => J.list _ (claims_targets targets)
  | .closure line returns params fault captures body =>
    J.closure line returns (claims_parameters params) fault captures (claims_stmt body)
  | .construct word argument => J.construct word _ (claims_expr _ _ argument)

theorem claims_piece : (x : Piece) → J.Claims x.bodies x.gen
  | .text _ => J.still still_loadConstant
  | .value _ root => J.behind (still_reportAll _) fun _ => claims_tree {} root
  | .rejected _ _ => J.still ((still_reportAll _).bind fun _ => still_report _ _)

theorem claims_pieces : (xs : List Piece) → J.Claims (Piece.allBodies xs) (Piece.genAll xs)
  | [] => J.still (still_pure ())
  | x :: xs => J.bind (claims_piece x) fun _ => claims_pieces xs

theorem claims_entry : (e : Entry) → J.Claims e.bodies e.gen
  | .plain line value mark => J.plainEntry line (J.item mark (claims_expr _ _ value))
  | .keyed line key keyMark value mark =>
    J.keyedEntry line (J.item keyMark (claims_expr _ _ key)) (J.item mark (claims_expr _ _ value))
  | .unkeyed line value mark => J.unkeyedEntry line (J.item mark (claims_expr _ _ value))

theorem claims_entries : (es : List Entry) → J.Claims (Entry.allBodies es) (Entry.genAll es)
  | [] => J.still (still_pure ())
  | e :: es => J.bind (claims_entry e) fun _ => claims_entries es

theorem claims_targets : (es : List Expr) → J.Claims (Expr.allBodies es) (Expr.genTargets es)
  | [] => J.still (still_pure ())
  | e :: es => J.bind (claims_expr _ _ e) fun _ => claims_targets es

theorem claims_parameter : (x : Parameter) → J.Claims x.bodies x.gen
  | .required _ _ _ => J.still (still_pure _)
  | .optional _ _ _ line value =>
    J.before (J.thunk line value (claims_expr _ _ value)) fun _ => still_pure _

theorem claims_parameters : (xs : List Parameter) → J.Claims (Parameter.allBodies xs) (Parameter.genAll xs)
  | [] => J.still (still_pure _)
  | x :: xs => J.bind (claims_parameter x) fun _ => J.before (claims_parameters xs) fun _ => still_pure _

theorem claims_chain (id : Nat) : (c : Chain) → J.Claims c.bodies (c.gen id)
  | .branch test strays body rest =>
    J.branch id (claims_expr _ _ test) strays (claims_stmt body) _ (claims_chain id rest)
  | .otherwise body => claims_stmt body
  | .malformed _ => J.still (still_report _ _)
  | .done => J.still (still_pure ())

theorem claims_section : (sec : Section) → (table : SwitchTable) → J.Claims sec.bodies (sec.gen table)
  | .case_ line guard strays body => by
    intro table
    exact J.caseSection line guard (claims_expr _ _ guard) strays (claims_stmts body) table
  | .default_ line strays body => by
    intro table
    exact J.defaultSection line strays (claims_stmts body) table

theorem claims_sections : (ss : List Section) → (table : SwitchTable) → J.Claims (Section.allBodies ss) (Section.genAll ss table)
  | [] => by
    intro table
    exact J.still (still_pure _)
  | sec :: ss => by
    intro table
    exact J.bind (claims_section sec table) fun next => claims_sections ss next

theorem claims_head (id line : Nat) (key : Option String) : (x : ForeachHead) → J.Claims x.bodies (x.gen id line key)
  | .malformed _ => J.still (still_report _ _)
  | .unbound _ binding => J.unbound _ (claims_expr _ _ binding)
  | .key name binding rest =>
    J.bind (J.discarding (claims_expr _ _ binding)) fun _ => claims_head id line (some name) rest
  | .value _ _ binding body =>
    J.bind (J.discarding (claims_expr _ _ binding)) fun _ => J.foreachLoop id _ (claims_stmt body)

theorem claims_clauses : (cs : List CatchClause) → ∀ b ∈ cs.filterMap CatchClause.body?, J.Claims b.bodies b.gen
  | [] => nofun
  | .malformed r :: cs => claims_clauses cs
  | .clause className binding body :: cs => by
    have first := claims_stmt body
    have rest := claims_clauses cs
    intro b hb
    rcases List.mem_cons.mp hb with rfl | hb
    · exact first
    · exact rest b hb

theorem claims_declarator (type : TypeSpec) : (d : Declarator) → J.Claims d.bodies (d.gen type)
  | .plain line name => J.still (still_declare line type name)
  | .assigned _ _ assignment => J.assigned _ _ _ _ (claims_expr _ _ assignment)
  | .static line name => J.still (still_static line type name #[])
  | .staticValue _ _ _ value => J.staticValue _ _ _ _ value (claims_expr _ _ value)

theorem claims_declarators (type : TypeSpec) : (ds : List Declarator) → J.Claims (Declarator.allBodies ds) (Declarator.genAll type ds)
  | [] => J.still (still_pure ())
  | d :: ds => J.bind (claims_declarator type d) fun _ => claims_declarators type ds

theorem claims_member : (m : Member) → (c : ClassDef) → J.Claims m.bodies (m.gen c)
  | .report r => by
    intro c
    exact J.still ((still_report _ _).bind fun _ => still_pure c)
  | .constant head line value => by
    intro c
    exact J.before (J.memberValue head _ line value (claims_expr _ _ value)) fun _ => still_pure _
  | .attribute head type => by
    intro c
    exact J.still (still_pure _)
  | .attributeValue head type line value => by
    intro c
    exact J.before (J.memberValue head _ line value (claims_expr _ _ value)) fun _ => still_pure _
  | .signature head function params fault => by
    intro c
    exact J.before (J.arguments (claims_parameters params) fault) fun _ => still_pure _
  | .method head function params fault body => by
    intro c
    exact J.bind (J.arguments (claims_parameters params) fault) fun args =>
      J.before (J.functionDef function args (claims_stmt body)) fun _ => still_pure _

theorem claims_members : (ms : List Member) → (c : ClassDef) → J.Claims (Member.allBodies ms) (Member.genAll ms c)
  | [] => by
    intro c
    exact J.still (still_pure c)
  | m :: ms => by
    intro c
    exact J.bind (claims_member m c) fun next => claims_members ms next

theorem claims_stmt : (s : Stmt) → J.Claims s.bodies s.gen
  | .empty => J.still (still_pure ())
  | .report _ => J.still (still_report _ _)
  | .sequence items => claims_stmts items
  | .onLine line body =>
    J.behind (still_setLine line) fun _ => J.behind still_markBoundary fun _ => J.before (claims_stmt body) fun _ =>
      still_markBoundary
  | .block items unclosed => J.braces (claims_stmts items) unclosed
  | .raw _ => J.still (still_loadConstant.bind fun _ => still_put)
  | .expression value => J.expression _ (claims_expr _ _ value)
  | .conditional chain => J.inBlock fun id => claims_chain id chain
  | .switch subject strays sections fault =>
    J.switch (claims_expr _ _ subject) strays (claims_sections sections) fault
  | .switchWithoutBody subject strays r => J.switchWithoutBody (claims_expr _ _ subject) strays r
  | .whileLoop test strays body => J.whileLoop (claims_expr _ _ test) strays (claims_stmt body)
  | .doLoop body test strays => J.doLoop (claims_stmt body) (claims_expr _ _ test) strays
  | .doWithoutTest body r => J.doWithoutTest (claims_stmt body) r
  | .forLoop line init test afterTest body post afterPost =>
    J.forLoop line (claims_stmt init) _ (claims_expr _ _ test) afterTest (claims_stmt body) _ (claims_expr _ _ post) afterPost
  | .foreach line source strays head =>
    J.foreach (claims_expr _ _ source) strays fun id => claims_head id line none head
  | .tryCatch body clauses fault => J.tryCatch body clauses fault (claims_stmt body) (claims_clauses clauses)
  | .throw line value => J.throw line _ (claims_expr _ _ value)
  | .loopJump jump line level unterminated => J.still (still_loopJump jump line level unterminated)
  | .return_ value => J.before (claims_expr _ _ value) fun _ => still_put
  | .exit value => J.before (claims_expr _ _ value) fun _ => still_put
  | .constant name line value => J.constant name line value (claims_expr _ _ value)
  | .declaration type items fault => J.before (claims_declarators type items) fun _ => still_reportFault fault
  | .namespace_ line items => J.behind (still_noteNamespaces line) fun _ => claims_stmts items
  | .using_ line => J.still (still_noteNamespaces line)
  | .function head params fault body => J.function head (claims_parameters params) fault (claims_stmt body)
  | .class_ head members fault => J.class_ head (claims_members members) fault fun _ => J.completeClass head

theorem claims_stmts : (ss : List Stmt) → J.Claims (Stmt.allBodies ss) (Stmt.genAll ss)
  | [] => J.still (still_pure ())
  | s :: ss => J.bind (claims_stmt s) fun _ => claims_stmts ss

end

/-- A judgment holds of whole scripts. -/
theorem claims_script (script : Script) : J.Claims script.bodies script.gen := by
  cases script with
  | statements items => exact J.before (J.claims_stmts items) fun _ => still_settle.bind fun _ => still_put
  | expression value stray => exact J.before (J.claims_expr {} none value) fun _ => (still_reportFault _).bind fun _ => still_put

end ScriptJudgment

end StackScript
