/-
Nothing is left over without a word.

Where an expression has a span of its own, a semicolon may end it before the span does.  What is left over
behind it is kept in the script, and generating code for that part of the script reports it.  A generator
`Tells` something when it reports an error unless that is so; one recursion over the script collects what its
parts tell.
-/
import StackScript.Proofs.Checks
import StackScript.Proofs.Reading.Scan
import StackScript.Proofs.Evaluation
import StackScript.Proofs.Run.Compilation
import StackScript.Proofs.Stack.Script

namespace StackScript

/-! ### What is left over -/

namespace Leaf

/-- The name of a computed variable fills its braces. -/
def isWhole : Leaf → Bool
  | .computedVariable _ _ _ stray _ => stray.isNone
  | _ => true

end Leaf

namespace Tree

def isWhole : Tree Leaf → Bool
  | leaf _ content => content.isWhole
  | _ => true

end Tree

/-- A key or value fills its place.  Behind a reference nobody looks for more. -/
def ItemMark.isWhole (mark : ItemMark) : Bool := mark.byRef || mark.stray.isNone

def Entry.isWhole : Entry → Bool
  | .plain _ _ mark | .unkeyed _ _ mark => mark.isWhole
  | .keyed _ _ keyMark _ mark => keyMark.isWhole && mark.isWhole

def Chain.isWhole : Chain → Bool
  | .branch _ strays _ _ => strays.isEmpty
  | _ => true

/-- Nothing stands between the guard of a label and its colon. -/
def Section.isWhole : Section → Bool
  | .case_ _ _ strays _ | .default_ _ strays _ => strays.isEmpty

/-- Conditions, subjects and sources fill their places. -/
def Stmt.isWhole : Stmt → Bool
  | .switch _ strays sections _ => strays.isEmpty && sections.all Section.isWhole
  | .switchWithoutBody _ strays _ | .whileLoop _ strays _ | .doLoop _ _ strays | .foreach _ _ strays _ =>
    strays.isEmpty
  | _ => true

/-- Nothing is left over behind an expression that has to fill its span. -/
def Checks.whole : Checks where
  tree := Tree.isWhole
  entry := Entry.isWhole
  chain := Chain.isWhole
  stmt := Stmt.isWhole

namespace Gen

variable {α β : Type} {P Q R : Prop}

/-! ### Generators that tell -/

/-- What has been reported stays, and there is a new error unless `P` holds. -/
structure Tells (P : Prop) (m : Gen α) : Prop where
  reports : ∀ s, s.reports <+: (after m s).reports
  told : ∀ s, (after m s).errors = s.errors → P

/-- What has been reported stays. -/
def Logs (m : Gen α) : Prop := ∀ s, s.reports <+: (after m s).reports

theorem Goes.logs {m : Gen α} (h : Goes m) : Logs m := fun s => (h s).1.reports

theorem Valued.logs {m : Gen α} (h : Valued m) : Logs m := h.goes.logs

theorem Logs.errors_le {m : Gen α} (h : Logs m) (s : GenState) : s.errors ≤ (after m s).errors :=
  (h s).sublist.countP_le

/-- A step that reports nothing. -/
theorem Logs.of {m : Gen α} (h : ∀ s, (after m s).reports = s.reports) : Logs m :=
  fun s => (h s).symm ▸ List.prefix_rfl

namespace Tells

theorem mono {m : Gen α} (h : Tells P m) (hpq : P → Q) : Tells Q m := ⟨h.reports, fun s he => hpq (h.told s he)⟩

theorem bind {m : Gen α} {f : α → Gen β} (hm : Tells P m) (hf : ∀ a, Tells Q (f a)) : Tells (P ∧ Q) (m >>= f) where
  reports := by
    intro s
    rw [after_bind]
    exact (hm.reports s).trans ((hf _).reports _)
  told := by
    intro s he
    rw [after_bind] at he
    have front := Logs.errors_le hm.reports s
    have rest := Logs.errors_le (hf (result m s)).reports (after m s)
    have hfront : (after m s).errors = s.errors := by omega
    exact ⟨hm.told s hfront, (hf _).told _ (he.trans hfront.symm)⟩

theorem nothing {m : Gen α} (h : Logs m) : Tells True m := ⟨h, fun _ _ => trivial⟩

/-- What comes first tells nothing. -/
theorem behind {m : Gen α} {f : α → Gen β} (hm : Logs m) (hf : ∀ a, Tells P (f a)) : Tells P (m >>= f) :=
  ((nothing hm).bind hf).mono And.right

/-- What comes last tells nothing. -/
theorem before {m : Gen α} {f : α → Gen β} (hm : Tells P m) (hf : ∀ a, Logs (f a)) : Tells P (m >>= f) :=
  (hm.bind fun a => nothing (hf a)).mono And.left

theorem pure (a : α) (h : P) : Tells P (pure a : Gen α) := ⟨fun _ => List.prefix_rfl, fun _ _ => h⟩

theorem both {a b : Bool} {m : Gen α} (h : Tells (a = true ∧ b = true) m) : Tells ((a && b) = true) m :=
  h.mono fun h => both_true h.1 h.2

end Tells

theorem Logs.bind {m : Gen α} {f : α → Gen β} (hm : Logs m) (hf : ∀ a, Logs (f a)) : Logs (m >>= f) :=
  ((Tells.nothing hm).before hf).reports

/-- An error is told of. -/
theorem tells_error (line : Nat) {problem : Problem} (h : problem.severity = .error) : Tells False (report line problem) where
  reports := (valued_report line problem).logs
  told := by
    intro s he
    rcases Grown.report (s := s) line h with hlt | hlt
    · exact absurd hlt (Nat.lt_irrefl _)
    · exact absurd he (Nat.ne_of_gt hlt)

/-! ### Steps -/

theorem logs_setLine (line : Nat) : Logs (setLine line) := .of fun _ => rfl

theorem logs_put {op : Opcode} {p1 : Int} {p2 : Nat} {p3 : Operand} : Logs (put op p1 p2 p3) := .of fun _ => rfl

theorem logs_operator (op : Operator) (p1 : Int) : Logs (operator op p1) := (valued_operator op p1).logs

theorem logs_await {id : Nat} {op : Opcode} {p3 : Operand} : Logs (await id op p3) := .of fun _ => rfl

theorem logs_settle {id : Nat} {op : Option Opcode} : Logs (settle id op) := .of fun _ => rfl

theorem logs_reportAll (rs : List Report) : Logs (reportAll rs) := (valued_reportAll rs).logs

theorem logs_reportFault (fault : Option Report) : Logs (reportFault fault) := (valued_reportFault fault).logs

theorem logs_report (line : Nat) (problem : Problem) : Logs (report line problem) := (valued_report line problem).logs

theorem logs_pure (a : α) : Logs (pure a : Gen α) := .of fun _ => rfl

theorem logs_get : Logs (get : Gen GenState) := .of fun _ => rfl

theorem logs_ite {c : Prop} [Decidable c] {m m' : Gen α} (h : Logs m) (h' : Logs m') : Logs (if c then m else m') := by
  split
  · exact h
  · exact h'

/-- A stray semicolon is reported. -/
theorem tells_cutShort (stray : Option Nat) : Tells (stray.isNone = true) (cutShort stray) := by
  cases stray with
  | none => exact .pure () rfl
  | some line => exact (tells_error line rfl).mono False.elim

/-- A report is an error for every token left over. -/
theorem tells_reportAll {rs : List Report} (h : ∀ r ∈ rs, r.isError = true) : Tells (rs = []) (reportAll rs) where
  reports := logs_reportAll rs
  told := by
    intro s he
    have counted : (after (reportAll rs) s).errors = s.errors + rs.countP Report.isError := List.countP_append
    rw [List.countP_eq_length.mpr h] at counted
    exact List.eq_nil_of_length_eq_zero (by omega)

theorem tells_strays {strays : List Token} {f : Token → Report} (h : ∀ t, (f t).isError = true) :
    Tells (strays.isEmpty = true) (reportAll (strays.map f)) := by
  refine (tells_reportAll fun r hr => ?_).mono fun hnil => ?_
  · obtain ⟨t, -, rfl⟩ := List.mem_map.mp hr
    exact h t
  · rw [List.map_eq_nil_iff.mp hnil]
    rfl

theorem tells_reportStrays (header : Header) (strays : List Token) :
    Tells (strays.isEmpty = true) (reportStrays header strays) :=
  tells_strays fun _ => by cases header <;> rfl

/-! ### Containers and blocks -/

section Combinators

variable {value left right : Gen Unit}

theorem tells_discarding (h : Tells P value) : Tells P (discarding value) :=
  .behind (.of fun _ => rfl) fun _ => h.before fun _ => .of fun _ => rfl

theorem tells_inContainer (h : Tells P value) : Tells P (inContainer value) :=
  .behind (.of fun _ => rfl) fun _ => h.before fun _ => .of fun _ => rfl

theorem tells_thunk (line : Nat) (isPresent : Bool) (h : Tells P value) : Tells P (thunk line isPresent value) :=
  tells_inContainer (h.before fun _ => .of fun _ => rfl)

theorem tells_inBlock {tags : List BlockTag} {deferred : Option (List Nat)} {body : Nat → Gen Unit}
    (h : ∀ id, Tells P (body id)) : Tells P (inBlock tags deferred body) :=
  .behind (.of fun _ => rfl) fun _ => .behind (.of fun _ => rfl) fun id => (h id).before fun _ => .of fun _ => rfl

theorem tells_owned {tags : List BlockTag} {first : Nat} {owner : BlockOwner} {body : Nat → Gen α}
    (h : ∀ id, Tells P (body id)) : Tells P (owned tags first owner body) :=
  .behind (.of fun _ => rfl) fun id => (h id).before fun _ => .of fun _ => rfl

theorem tells_collectingStatics {body : Gen α} (h : Tells P body) : Tells P (collectingStatics body) :=
  .behind (.of fun _ => rfl) fun _ => h.before fun _ => .of fun _ => rfl

/-! ### Expressions -/

theorem tells_prefixed (line : Nat) (op : Operator) (h : Tells P value) : Tells P (prefixed line op value) := by
  refine .behind (logs_setLine line) fun _ => h.before fun _ => ?_
  split
  · exact goes_create.logs
  all_goals exact logs_operator _ _

theorem tells_postfixed (line : Nat) (op : Operator) (h : Tells P value) : Tells P (postfixed line op value) :=
  .behind (logs_setLine line) fun _ => h.before fun _ => logs_operator _ _

theorem tells_shortCircuit (jump : Opcode) (op : Operator) (h : Tells P right) : Tells P (shortCircuit jump op right) :=
  .behind (.of fun _ => rfl) fun _ => h.before fun _ => (logs_operator _ _).bind fun _ => .of fun _ => rfl

theorem tells_binary (line : Nat) (op : Operator) (hl : Tells P left) (hr : Tells Q right) :
    Tells (P ∧ Q) (binary line op left right) := by
  refine .behind (logs_setLine line) fun _ => hl.bind fun _ => ?_
  split
  · exact .behind (.of fun _ => rfl) fun _ => hr
  · exact tells_shortCircuit _ _ hr
  · exact tells_shortCircuit _ _ hr
  · exact hr.before fun _ => goes_staticMember.logs
  · exact hr.before fun _ => logs_operator _ _

theorem tells_assign (line : Nat) (op : Operator) (hv : Tells P value) (ht : Tells Q left) :
    Tells (P ∧ Q) (assign line op value left) := by
  refine .behind (logs_setLine line) fun _ => hv.bind fun _ => ht.before fun _ => ?_
  split
  · exact goes_store.logs
  · exact logs_operator _ _

theorem tells_ternary (line : Nat) (hc : Tells P value) (hy : Tells Q left) (hn : Tells R right) :
    Tells (P ∧ Q ∧ R) (ternary line value left right) :=
  .behind (logs_setLine line) fun _ => hc.bind fun _ => .behind (.of fun _ => rfl) fun _ => hy.bind fun _ =>
    .behind (.of fun _ => rfl) fun _ => .behind (.of fun _ => rfl) fun _ => hn.before fun _ => .of fun _ => rfl

theorem tells_call (line count : Nat) (ha : Tells P left) (hc : Tells Q right) :
    Tells (P ∧ Q) (call line count left right) :=
  .behind (logs_setLine line) fun _ => ha.bind fun _ => hc.before fun _ => .of fun _ => rfl

theorem tells_index (line : Nat) (store : Bool) (hb : Tells P left) (hk : Tells Q right) :
    Tells (P ∧ Q) (index line store left right) :=
  .behind (logs_setLine line) fun _ => hb.bind fun _ => hk.before fun _ => .of fun _ => rfl

theorem tells_append (line : Nat) (store : Bool) (hb : Tells P value) : Tells P (append line store value) :=
  .behind (logs_setLine line) fun _ => hb.before fun _ => .of fun _ => rfl

theorem tells_computedVariable (access : Access) (line braceLine : Nat) (isPresent : Bool) (h : Tells P value)
    (stray : Option Nat) (extra : Nat) :
    Tells (P ∧ stray.isNone = true) (computedVariable access line braceLine isPresent value stray extra) := by
  refine .behind (logs_setLine braceLine) fun _ => h.bind fun _ => (tells_cutShort stray).before fun _ => ?_
  exact logs_ite (valued_lookUp access _).logs (logs_report _ _)

theorem tells_item (mark : ItemMark) (h : Tells P value) : Tells (P ∧ mark.isWhole = true) (item mark value) := by
  refine h.bind fun _ => ?_
  unfold ItemMark.isWhole
  cases mark.byRef with
  | true => exact (Tells.nothing logs_put).mono fun _ => rfl
  | false => exact tells_cutShort mark.stray

theorem tells_plainEntry (line : Nat) (h : Tells P value) : Tells P (plainEntry line value) :=
  .behind (logs_setLine line) fun _ => .behind (.of fun _ => rfl) fun _ => h

theorem tells_keyedEntry (line : Nat) (hk : Tells P left) (hv : Tells Q right) :
    Tells (P ∧ Q) (keyedEntry line left right) :=
  .behind (logs_setLine line) fun _ => hk.bind fun _ => hv

theorem tells_unkeyedEntry (line : Nat) (h : Tells P value) : Tells P (unkeyedEntry line value) :=
  .behind (logs_setLine line) fun _ => .behind (logs_report _ _) fun _ => .behind (.of fun _ => rfl) fun _ => h

theorem tells_array (count : Nat) (h : Tells P value) (incomplete : Option Nat) :
    Tells P (array count value incomplete) := by
  refine h.before fun _ => ?_
  cases incomplete with
  | none => exact .of fun _ => rfl
  | some line => exact (logs_setLine line).bind fun _ => logs_report _ _

theorem tells_list (count : Nat) (h : Tells P value) : Tells P (list count value) := h.before fun _ => .of fun _ => rfl

theorem tells_construct (word : String) (isPresent : Bool) (h : Tells P value) :
    Tells P (construct word isPresent value) :=
  h.before fun _ => .of fun _ => rfl

/-! ### Functions and classes -/

theorem tells_functionBody (name : String) (className : Option String) (h : Tells P value) :
    Tells P (functionBody name className value) :=
  tells_owned fun _ => tells_collectingStatics <| tells_inContainer <| h.before fun _ => logs_settle.bind
    fun _ => .of fun _ => rfl

theorem tells_arguments {params : Gen (List Argument)} (h : Tells P params) (fault : Option Report) :
    Tells P (arguments params fault) :=
  h.before fun _ => (logs_reportFault fault).bind fun _ => logs_pure _

theorem tells_completed (head : FunctionHead) (args : List Argument) (className : Option String) (h : Tells P value) :
    Tells P (do
      let (code, statics) ← functionBody head.name className value
      return { declared head args with code := code, statics := statics }) :=
  (tells_functionBody head.name className h).before fun _ => logs_pure _

theorem tells_functionDef (head : FunctionHead) (args : List Argument) (h : Tells P value) :
    Tells P (functionDef head args value) := by
  unfold functionDef
  split
  · exact .behind valued_currentClass.logs fun className => tells_completed head args className h
  · exact tells_completed head args none h

theorem logs_installFunction (f : FunctionDef) : Logs (installFunction f) :=
  (turns_installFunction (F := []) (n := 0) f).goes.logs

theorem tells_function (head : FunctionHead) {params : Gen (List Argument)} (hp : Tells P params)
    (fault : Option Report) (hb : Tells Q value) : Tells (P ∧ Q) (function head params fault value) :=
  (tells_arguments hp fault).bind fun _ => (tells_functionDef head _ hb).before fun f =>
    (logs_installFunction f).bind fun _ => logs_ite (logs_report _ _) (logs_pure _)

theorem tells_closure (line : Nat) (returns : TypeSpec) {params : Gen (List Argument)} (hp : Tells P params)
    (fault : Option Report) (captures : Option CaptureList) (hb : Tells Q value) :
    Tells (P ∧ Q) (closure line returns params fault captures value) :=
  .behind (.of fun _ => rfl) fun _ => (tells_arguments hp fault).bind fun _ => .behind (valued_captureReports captures).logs fun _ =>
    (tells_functionDef _ _ hb).before fun _ => (turns_loadFunction (F := []) (n := 0) _).goes.logs

theorem tells_memberValue (head : MemberHead) (problem : Problem) (line : Nat) (isPresent : Bool) (h : Tells P value) :
    Tells P (memberValue head problem line isPresent value) := by
  refine (tells_thunk line isPresent h).before fun code => ?_
  cases isPresent with
  | true => exact logs_pure code
  | false => exact (logs_report _ _).bind fun _ => logs_pure code

theorem tells_class_ (head : ClassHead) {members : ClassDef → Gen ClassDef} (hm : ∀ c, Tells P (members c))
    (fault : Option ErrorReport) : Tells P (class_ head members fault) := by
  have inside : ∀ c, Tells P (do owned [.class_] (← here) (.class_ head.name) fun _ => members c) :=
    fun c => .behind logs_get fun _ => tells_owned fun _ => hm c
  have complete : ∀ c, Logs (completeClass head c) := fun c => (turns_completeClass (F := []) (n := 0) head c).goes.logs
  unfold class_
  dsimp only
  cases fault with
  | none =>
      split
      · exact (hm _).before complete
      · exact (inside _).before complete
  | some error =>
      split
      · exact (hm _).before fun _ => logs_report _ _
      · exact (inside _).before fun _ => logs_report _ _

/-! ### Statements -/

theorem tells_expression (isPresent : Bool) (h : Tells P value) : Tells P (expression isPresent value) :=
  h.before fun _ => (valued_dropIf isPresent).logs

theorem tells_braces (h : Tells P value) (unclosed : Option Nat) : Tells P (braces value unclosed) :=
  .behind logs_get fun _ => tells_owned fun _ => h.before fun _ => logs_reportFault _

theorem tells_branch (id : Nat) (ht : Tells P value) (strays : List Token) (hb : Tells Q left) (isLast : Bool)
    (hr : Tells R right) :
    Tells (P ∧ strays.isEmpty = true ∧ Q ∧ R) (branch id value strays left isLast right) := by
  refine ht.bind fun _ => (tells_reportStrays .plain strays).bind fun _ => .behind logs_await fun _ => hb.bind
    fun _ => ?_
  cases isLast with
  | true => exact .behind logs_settle fun _ => hr
  | false => exact .behind logs_await fun _ => .behind logs_settle fun _ => hr

theorem tells_sectionBody (strays : List Token) (h : Tells P value) :
    Tells (strays.isEmpty = true ∧ P) (sectionBody strays value) :=
  (tells_strays fun _ => rfl).bind fun _ => .behind logs_get fun _ => h.before fun _ => logs_pure _

theorem tells_caseSection (line : Nat) (isPresent : Bool) (hg : Tells P value) (strays : List Token)
    (hb : Tells Q left) (table : SwitchTable) :
    Tells (P ∧ strays.isEmpty = true ∧ Q) (caseSection line isPresent value strays left table) :=
  (tells_thunk line isPresent hg).bind fun _ => (tells_sectionBody strays hb).before fun _ => logs_pure _

theorem tells_defaultSection (line : Nat) (strays : List Token) (hb : Tells P value) (table : SwitchTable) :
    Tells (strays.isEmpty = true ∧ P) (defaultSection line strays value table) := by
  have labelled := (tells_sectionBody strays hb).before fun start =>
    logs_pure { table with default? := table.default?.or (some start) }
  unfold defaultSection
  split
  · exact .behind (logs_report _ _) fun _ => labelled
  · exact labelled

theorem tells_switch (hs : Tells P value) (strays : List Token) {sections : SwitchTable → Gen SwitchTable}
    (h : ∀ table, Tells Q (sections table)) (fault : Option Report) :
    Tells (P ∧ strays.isEmpty = true ∧ Q) (switch value strays sections fault) :=
  tells_inBlock fun _ => hs.bind fun _ => (tells_reportStrays .switch strays).bind fun _ => .behind (.of fun _ => rfl) fun _ =>
    .behind logs_put fun _ => (h {}).before fun _ => (logs_reportFault fault).bind fun _ => .of fun _ => rfl

theorem tells_switchWithoutBody (hs : Tells P value) (strays : List Token) (r : Report) :
    Tells (P ∧ strays.isEmpty = true) (switchWithoutBody value strays r) :=
  tells_inBlock fun _ => hs.bind fun _ => (tells_reportStrays .switch strays).before fun _ => logs_report _ _

theorem tells_whileLoop (ht : Tells P value) (strays : List Token) (hb : Tells Q left) :
    Tells (P ∧ strays.isEmpty = true ∧ Q) (whileLoop value strays left) :=
  .behind logs_get fun _ => tells_inBlock fun _ => ht.bind fun _ => (tells_reportStrays .plain strays).bind fun _ =>
    .behind logs_await fun _ => hb.before fun _ => logs_put

theorem tells_doLoop (hb : Tells P left) (ht : Tells Q value) (strays : List Token) :
    Tells (P ∧ Q ∧ strays.isEmpty = true) (doLoop left value strays) :=
  .behind logs_get fun _ => tells_inBlock fun _ => hb.bind fun _ => .behind (.of fun _ => rfl) fun _ => ht.bind fun _ =>
    (tells_reportStrays .plain strays).before fun _ => logs_put

theorem tells_doWithoutTest (hb : Tells P value) (r : Report) : Tells P (doWithoutTest value r) :=
  tells_inBlock fun _ => hb.before fun _ => logs_report _ _

theorem tells_forLoop {init test body post : Gen Unit} {S : Prop} (line : Nat) (hi : Tells P init) (hasTest : Bool)
    (ht : Tells Q test) (afterTest : Bool) (hb : Tells R body) (hasPost : Bool) (hp : Tells S post)
    (afterPost : Bool) :
    Tells (P ∧ Q ∧ R ∧ S) (forLoop line init hasTest test afterTest body hasPost post afterPost) := by
  have exit : ∀ id, Logs (exitIf hasTest id) := fun id => logs_ite logs_await (logs_pure ())
  have reportIf : ∀ isWrong problem, Logs (reportIf isWrong line problem) := fun _ _ => (valued_reportIf _ _ _).logs
  refine hi.bind fun _ => .behind logs_get fun _ => tells_inBlock fun id => ht.bind fun _ => .behind (exit id) fun _ => ?_
  refine .behind (reportIf _ _) fun _ => hb.bind fun _ => .behind (.of fun _ => rfl) fun _ => hp.before fun _ => ?_
  exact (valued_dropIf hasPost).logs.bind fun _ => (reportIf _ _).bind fun _ => logs_put

theorem tells_unbound (line : Nat) (h : Tells P value) : Tells P (unbound line value) :=
  .behind logs_get fun _ => (tells_discarding h).before fun _ => logs_get.bind fun _ =>
    logs_ite (logs_report _ _) (logs_pure _)

/-- What cannot be bound is reported at least once. -/
theorem refuses_unbound (line : Nat) (h : Logs value) : Tells False (unbound line value) where
  reports := (tells_unbound line (Tells.nothing h)).reports
  told := by
    intro s he
    have rises : s.errors ≤ (after (discarding value) s).errors := h.errors_le s
    have report := tells_error line (show Problem.foreachNotVariable.severity = .error from rfl)
    have end_ : after (unbound line value) s = after (if (after (discarding value) s).errors = s.errors then
        Gen.report line .foreachNotVariable else Pure.pure ()) (after (discarding value) s) := rfl
    rw [end_] at he
    split at he
    · rename_i heq
      exact report.told _ (he.trans heq.symm)
    · rename_i hne
      exact hne he

theorem tells_foreachLoop (id : Nat) (table : ForeachTable) (h : Tells P value) : Tells P (foreachLoop id table value) :=
  .behind (.of fun _ => rfl) fun _ => .behind logs_await fun _ => .behind (.of fun _ => rfl) fun _ => .behind logs_get fun _ =>
    .behind logs_await fun _ => h.before fun _ => logs_put

theorem tells_foreach (hs : Tells P value) (strays : List Token) {head : Nat → Gen Unit} (h : ∀ id, Tells Q (head id)) :
    Tells (P ∧ strays.isEmpty = true ∧ Q) (foreach value strays head) :=
  tells_inBlock fun id => hs.bind fun _ => (tells_reportStrays .foreach strays).bind fun _ => h id

theorem tells_catchBody (h : Tells P value) : Tells P (catchBody value) :=
  tells_owned fun _ => tells_inContainer <| h.before fun _ => logs_settle.bind fun _ => logs_put

theorem tells_tryBody (h : Tells P value) : Tells P (tryBody value) :=
  .behind logs_get fun _ => tells_owned fun _ => .behind (.of fun _ => rfl) fun _ => .behind logs_await fun _ =>
    h.before fun _ => logs_settle.bind fun _ => logs_put.bind fun _ => logs_pure _

theorem tells_tryCatch (hb : Tells P value) {clauses : Nat → Gen Unit} (h : ∀ table, Tells Q (clauses table))
    (fault : Option Report) : Tells (P ∧ Q) (tryCatch value clauses fault) :=
  (tells_tryBody hb).bind fun table => (h table).before fun _ => logs_reportFault fault

theorem tells_throw (line : Nat) (isPresent : Bool) (h : Tells P value) : Tells P (throw line isPresent value) := by
  refine h.before fun _ => ?_
  cases isPresent with
  | true => exact logs_get.bind fun _ => logs_await
  | false => exact logs_report _ _

theorem tells_constant (name : String) (line : Nat) (isPresent : Bool) (h : Tells P value) :
    Tells P (constant name line isPresent value) :=
  (tells_thunk line isPresent h).before fun _ => .of fun _ => rfl

theorem tells_assigned (line : Nat) (type : TypeSpec) (name : String) (isPresent : Bool) (h : Tells P value) :
    Tells P (assigned line type name isPresent value) :=
  .behind (valued_declare line type name).logs fun _ => h.before fun _ => logs_ite logs_put (logs_report _ _)

theorem tells_staticValue (line : Nat) (type : TypeSpec) (name : String) (valueLine : Nat) (isPresent : Bool)
    (h : Tells P value) : Tells P (staticValue line type name valueLine isPresent value) := by
  have add : ∀ init, Logs (static line type name init) := fun init =>
    (turns_static (F := []) (n := 0) line type name init).goes.logs
  refine (tells_thunk valueLine isPresent h).before fun init => ?_
  cases isPresent with
  | true => exact add init
  | false => exact (logs_report _ _).bind fun _ => add init

end Combinators

end Gen

open Gen

/-! ### A script tells what it leaves over -/

mutual

theorem Expr.tells_gen (access : Access) (restriction : Option Restriction) :
    (e : Expr) → Tells (e.meets .whole = true) (e.gen access restriction)
  | .missing => .pure () rfl
  | .rejected _ => (Tells.nothing (logs_report _ _)).mono fun _ => rfl
  | .tree root => .behind (valued_restrict restriction root).logs fun _ => Leaf.tells_genTree access root

theorem Leaf.tells_genTree (access : Access) :
    (t : Tree Leaf) → Tells (Leaf.treeMeets .whole t = true) (Leaf.genTree access t)
  | .leaf _ content => (Leaf.tells_gen access content).both
  | .prefixed _ _ x => (tells_prefixed _ _ (Leaf.tells_genTree access x)).mono fun hx => both_true rfl hx
  | .postfixed _ _ x => (tells_postfixed _ _ (Leaf.tells_genTree access x)).mono fun hx => both_true rfl hx
  | .binary _ _ x y =>
    (tells_binary _ _ (Leaf.tells_genTree access x) (Leaf.tells_genTree access y)).mono
      fun h => both_true (both_true rfl h.1) h.2
  | .assign _ _ target value =>
    (tells_assign _ _ (Leaf.tells_genTree access value) (Leaf.tells_genTree access.target target)).mono
      fun h => both_true (both_true rfl h.2) h.1
  | .ternary _ c x y =>
    (tells_ternary _ (Leaf.tells_genTree access c) (Leaf.tells_genTree access x)
      (Leaf.tells_genTree access y)).mono fun h => both_true (both_true (both_true rfl h.1) h.2.1) h.2.2
  | .call _ f xs =>
    (tells_call _ _ (Leaf.tells_genTrees access.argument xs) (Leaf.tells_genTree access f)).mono
      fun h => both_true (both_true rfl h.2) h.1
  | .index _ x k =>
    (tells_index _ _ (Leaf.tells_genTree access x) (Leaf.tells_genTree access.key k)).mono
      fun h => both_true (both_true rfl h.1) h.2
  | .append _ x => (tells_append _ _ (Leaf.tells_genTree access x)).mono fun hx => both_true rfl hx

theorem Leaf.tells_genTrees (access : Access) :
    (ts : List (Tree Leaf)) → Tells (Leaf.treesMeet .whole ts = true) (Leaf.genTrees access ts)
  | [] => .pure () rfl
  | t :: ts => ((Leaf.tells_genTree access t).bind fun _ => Leaf.tells_genTrees access ts).both

/-- A leaf is whole, and so are its parts. -/
theorem Leaf.tells_gen (access : Access) :
    (l : Leaf) → Tells (l.isWhole = true ∧ l.meets .whole = true) (l.gen access)
  | .unread line => (tells_error line rfl).mono False.elim
  | .number t => (Tells.nothing (emits_number t).valued.logs).mono fun _ => ⟨rfl, rfl⟩
  | .simpleString text => (Tells.nothing (emits_string _).valued.logs).mono fun _ => ⟨rfl, rfl⟩
  | .template first rest => by
    have pieces := (Piece.tells_gen first).bind fun _ => (Piece.tells_genAll rest).before fun _ =>
      (valued_joinPieces ((first :: rest).countP Piece.isPresent)).logs
    exact pieces.mono fun h => ⟨rfl, both_true h.1 h.2⟩
  | .variable line name extra =>
    (Tells.nothing (emits_loadVariable access line name extra).valued.logs).mono
      fun _ => ⟨rfl, rfl⟩
  | .computedVariable line braceLine name stray extra =>
    (tells_computedVariable access line braceLine _ (Expr.tells_gen _ _ name) stray extra).mono And.symm
  | .blankVariable line braceLine =>
    (Tells.nothing (emits_blankVariable line braceLine).valued.logs).mono
      fun _ => ⟨rfl, rfl⟩
  | .name path t => (Tells.nothing (emits_name path t).valued.logs).mono fun _ => ⟨rfl, rfl⟩
  | .array entries incomplete => (tells_array _ (Entry.tells_genAll entries) incomplete).mono fun h => ⟨rfl, h⟩
  | .list targets => (tells_list _ (Expr.tells_genTargets targets)).mono fun h => ⟨rfl, h⟩
  | .closure line returns params fault captures body =>
    (tells_closure line returns (Parameter.tells_genAll params) fault captures (Stmt.tells_gen body)).mono
      fun h => ⟨rfl, both_true h.1 h.2⟩
  | .construct word argument => (tells_construct word _ (Expr.tells_gen _ _ argument)).mono fun h => ⟨rfl, h⟩

theorem Piece.tells_gen : (p : Piece) → Tells (p.meets .whole = true) p.gen
  | .text text => (Tells.nothing (emits_string text).valued.logs).mono fun _ => rfl
  | .value _ root => .behind (logs_reportAll _) fun _ => Leaf.tells_genTree {} root
  | .rejected _ error => .behind (logs_reportAll _) fun _ => (tells_error error.line rfl).mono False.elim

theorem Piece.tells_genAll : (ps : List Piece) → Tells (Piece.allMeet .whole ps = true) (Piece.genAll ps)
  | [] => .pure () rfl
  | p :: ps => ((Piece.tells_gen p).bind fun _ => Piece.tells_genAll ps).both

theorem Entry.tells_gen : (e : Entry) → Tells (e.meets .whole = true) e.gen
  | .plain line value mark =>
    (tells_plainEntry line (tells_item mark (Expr.tells_gen _ _ value))).mono fun h => both_true h.2 h.1
  | .keyed line key keyMark value mark =>
    (tells_keyedEntry line (tells_item keyMark (Expr.tells_gen _ _ key))
      (tells_item mark (Expr.tells_gen _ _ value))).mono
        fun h => both_true (both_true (both_true h.1.2 h.2.2) h.1.1) h.2.1
  | .unkeyed line value mark =>
    (tells_unkeyedEntry line (tells_item mark (Expr.tells_gen _ _ value))).mono fun h => both_true h.2 h.1

theorem Entry.tells_genAll : (es : List Entry) → Tells (Entry.allMeet .whole es = true) (Entry.genAll es)
  | [] => .pure () rfl
  | e :: es => ((Entry.tells_gen e).bind fun _ => Entry.tells_genAll es).both

theorem Expr.tells_genTargets : (es : List Expr) → Tells (Expr.allMeet .whole es = true) (Expr.genTargets es)
  | [] => .pure () rfl
  | e :: es => ((Expr.tells_gen _ _ e).bind fun _ => Expr.tells_genTargets es).both

theorem Parameter.tells_gen : (p : Parameter) → Tells (p.meets .whole = true) p.gen
  | .required _ _ _ => .pure _ rfl
  | .optional _ _ _ line value =>
    (tells_thunk line _ (Expr.tells_gen _ _ value)).before fun _ => logs_pure _

theorem Parameter.tells_genAll : (ps : List Parameter) → Tells (Parameter.allMeet .whole ps = true) (Parameter.genAll ps)
  | [] => .pure _ rfl
  | p :: ps => ((Parameter.tells_gen p).bind fun _ => (Parameter.tells_genAll ps).before fun _ => logs_pure _).both

theorem Chain.tells_gen (id : Nat) : (c : Chain) → Tells (c.meets .whole = true) (c.gen id)
  | .branch test strays body rest =>
    (tells_branch id (Expr.tells_gen _ _ test) strays (Stmt.tells_gen body) _ (Chain.tells_gen id rest)).mono
      fun h => both_true (both_true (both_true h.2.1 h.1) h.2.2.1) h.2.2.2
  | .otherwise body => Stmt.tells_gen body
  | .malformed _ => (Tells.nothing (logs_report _ _)).mono fun _ => rfl
  | .done => .pure () rfl

theorem Section.tells_gen : (sec : Section) → (table : SwitchTable) →
    Tells (sec.isWhole = true ∧ sec.meets .whole = true) (sec.gen table)
  | .case_ line guard strays body => by
    intro table
    exact (tells_caseSection line _ (Expr.tells_gen _ _ guard) strays (Stmt.tells_genAll body) table).mono
      fun h => ⟨h.2.1, both_true h.1 h.2.2⟩
  | .default_ line strays body => by
    intro table
    exact tells_defaultSection line strays (Stmt.tells_genAll body) table

theorem Section.tells_genAll : (ss : List Section) → (table : SwitchTable) →
    Tells (ss.all Section.isWhole = true ∧ Section.allMeet .whole ss = true) (Section.genAll ss table)
  | [] => by
    intro table
    exact .pure _ ⟨rfl, rfl⟩
  | sec :: ss => by
    intro table
    exact ((Section.tells_gen sec table).bind fun next => Section.tells_genAll ss next).mono
      fun h => ⟨both_true h.1.1 h.2.1, both_true h.1.2 h.2.2⟩

theorem ForeachHead.tells_gen (id line : Nat) (key : Option String) :
    (h : ForeachHead) → Tells (h.meets .whole = true) (h.gen id line key)
  | .malformed _ => (Tells.nothing (logs_report _ _)).mono fun _ => rfl
  | .unbound _ binding => tells_unbound _ (Expr.tells_gen _ _ binding)
  | .key name binding rest =>
    ((tells_discarding (Expr.tells_gen _ _ binding)).bind fun _ =>
      ForeachHead.tells_gen id line (some name) rest).both
  | .value _ _ binding body =>
    ((tells_discarding (Expr.tells_gen _ _ binding)).bind fun _ => tells_foreachLoop id _ (Stmt.tells_gen body)).both

theorem CatchClause.tells_gen (table : Nat) : (c : CatchClause) → Tells (c.meets .whole = true) (c.gen table)
  | .malformed _ => (Tells.nothing (logs_report _ _)).mono fun _ => rfl
  | .clause _ _ body => (tells_catchBody (Stmt.tells_gen body)).before fun _ => .of fun _ => rfl

theorem CatchClause.tells_genAll (table : Nat) :
    (cs : List CatchClause) → Tells (CatchClause.allMeet .whole cs = true) (CatchClause.genAll table cs)
  | [] => .pure () rfl
  | c :: cs => ((CatchClause.tells_gen table c).bind fun _ => CatchClause.tells_genAll table cs).both

theorem Declarator.tells_gen (type : TypeSpec) : (d : Declarator) → Tells (d.meets .whole = true) (d.gen type)
  | .plain line name => (Tells.nothing (valued_declare line type name).logs).mono fun _ => rfl
  | .assigned _ _ assignment => tells_assigned _ _ _ _ (Expr.tells_gen _ _ assignment)
  | .static line name =>
    (Tells.nothing (turns_static (F := []) (n := 0) line type name #[]).goes.logs).mono fun _ => rfl
  | .staticValue _ _ _ value => tells_staticValue _ _ _ _ _ (Expr.tells_gen _ _ value)

theorem Declarator.tells_genAll (type : TypeSpec) :
    (ds : List Declarator) → Tells (Declarator.allMeet .whole ds = true) (Declarator.genAll type ds)
  | [] => .pure () rfl
  | d :: ds => ((Declarator.tells_gen type d).bind fun _ => Declarator.tells_genAll type ds).both

theorem Member.tells_gen : (m : Member) → (c : ClassDef) → Tells (m.meets .whole = true) (m.gen c)
  | .report r => by
    intro c
    exact .behind (logs_report _ _) fun _ => .pure c rfl
  | .constant head line value => by
    intro c
    exact (tells_memberValue head _ line _ (Expr.tells_gen _ _ value)).before fun _ => logs_pure _
  | .attribute head type => by
    intro c
    exact .pure _ rfl
  | .attributeValue head type line value => by
    intro c
    exact (tells_memberValue head _ line _ (Expr.tells_gen _ _ value)).before fun _ => logs_pure _
  | .signature head function params fault => by
    intro c
    exact (tells_arguments (Parameter.tells_genAll params) fault).before fun _ => logs_pure _
  | .method head function params fault body => by
    intro c
    exact ((tells_arguments (Parameter.tells_genAll params) fault).bind fun args =>
      (tells_functionDef function args (Stmt.tells_gen body)).before fun _ => logs_pure _).both

theorem Member.tells_genAll : (ms : List Member) → (c : ClassDef) →
    Tells (Member.allMeet .whole ms = true) (Member.genAll ms c)
  | [] => by
    intro c
    exact .pure c rfl
  | m :: ms => by
    intro c
    exact ((Member.tells_gen m c).bind fun next => Member.tells_genAll ms next).both

/-- Code of a statement that reports no error leaves nothing over. -/
theorem Stmt.tells_gen : (s : Stmt) → Tells (s.meets .whole = true) s.gen
  | .empty => .pure () rfl
  | .report _ => (Tells.nothing (logs_report _ _)).mono fun _ => rfl
  | .sequence items => Stmt.tells_genAll items
  | .onLine line body =>
    .behind (logs_setLine line) fun _ => .behind valued_markBoundary.logs fun _ =>
      (Stmt.tells_gen body).before fun _ => valued_markBoundary.logs
  | .block items unclosed => tells_braces (Stmt.tells_genAll items) unclosed
  | .raw text => (Tells.nothing (valued_raw text).logs).mono fun _ => rfl
  | .expression value => tells_expression _ (Expr.tells_gen _ _ value)
  | .conditional chain => tells_inBlock fun id => Chain.tells_gen id chain
  | .switch subject strays sections fault =>
    (tells_switch (Expr.tells_gen _ _ subject) strays (Section.tells_genAll sections) fault).mono
      fun h => both_true (both_true (both_true h.2.1 h.2.2.1) h.1) h.2.2.2
  | .switchWithoutBody subject strays r =>
    (tells_switchWithoutBody (Expr.tells_gen _ _ subject) strays r).mono fun h => both_true h.2 h.1
  | .whileLoop test strays body =>
    (tells_whileLoop (Expr.tells_gen _ _ test) strays (Stmt.tells_gen body)).mono
      fun h => both_true (both_true h.2.1 h.1) h.2.2
  | .doLoop body test strays =>
    (tells_doLoop (Stmt.tells_gen body) (Expr.tells_gen _ _ test) strays).mono
      fun h => both_true (both_true h.2.2 h.1) h.2.1
  | .doWithoutTest body r => tells_doWithoutTest (Stmt.tells_gen body) r
  | .forLoop line init test afterTest body post afterPost =>
    (tells_forLoop line (Stmt.tells_gen init) _ (Expr.tells_gen _ _ test) afterTest (Stmt.tells_gen body) _
      (Expr.tells_gen _ _ post) afterPost).mono fun h => both_true (both_true (both_true h.1 h.2.1) h.2.2.1) h.2.2.2
  | .foreach line source strays head =>
    (tells_foreach (Expr.tells_gen _ _ source) strays fun id => ForeachHead.tells_gen id line none head).mono
      fun h => both_true (both_true h.2.1 h.1) h.2.2
  | .tryCatch body clauses fault =>
    (tells_tryCatch (Stmt.tells_gen body) (fun table => CatchClause.tells_genAll table clauses) fault).both
  | .throw line value => tells_throw line _ (Expr.tells_gen _ _ value)
  | .loopJump jump line level unterminated =>
    (Tells.nothing (flows_loopJump jump line level unterminated).goes.logs).mono fun _ => rfl
  | .return_ value => (Expr.tells_gen _ _ value).before fun _ => logs_put
  | .exit value => (Expr.tells_gen _ _ value).before fun _ => logs_put
  | .constant name line value => tells_constant name line _ (Expr.tells_gen _ _ value)
  | .declaration type items fault => (Declarator.tells_genAll type items).before fun _ => logs_reportFault fault
  | .namespace_ line items => .behind (valued_noteNamespaces line).logs fun _ => Stmt.tells_genAll items
  | .using_ line => (Tells.nothing (valued_noteNamespaces line).logs).mono fun _ => rfl
  | .function head params fault body =>
    (tells_function head (Parameter.tells_genAll params) fault (Stmt.tells_gen body)).both
  | .class_ head members fault => tells_class_ head (Member.tells_genAll members) fault

theorem Stmt.tells_genAll : (ss : List Stmt) → Tells (Stmt.allMeet .whole ss = true) (Stmt.genAll ss)
  | [] => .pure () rfl
  | s :: ss => ((Stmt.tells_gen s).bind fun _ => Stmt.tells_genAll ss).both

end

/-- So does a whole script. -/
theorem Script.tells_gen (script : Script) : Tells (script.meets .whole = true) script.gen := by
  cases script with
  | statements items =>
      exact (Stmt.tells_genAll items).before fun _ => logs_settle.bind fun _ => logs_put
  | expression value stray =>
      exact (Expr.tells_gen {} none value).before fun _ => (logs_reportFault _).bind fun _ => logs_put

/-! ### What counts as left over -/

namespace Scan

variable {tokens : Array Token} {stop : Nat}

/-- A shorter search stops before what a longer one finds. -/
theorem findAtDepth_shorter {change : Token → Int} {p : Token → Int → Bool} {m n i : Nat} {depth : Int} (hmn : m ≤ n)
    (h : ∀ j, findAtDepth tokens change p n i depth = some j → i + m ≤ j) :
    findAtDepth tokens change p m i depth = none := by
  induction m generalizing n i depth with
  | zero => rfl
  | succ m ih =>
      obtain ⟨n, rfl⟩ : ∃ k, n = k + 1 := ⟨n - 1, by omega⟩
      rw [findAtDepth] at h ⊢
      cases ht : tokens[i]? with
      | none => rfl
      | some t =>
          rw [ht] at h
          dsimp only at h ⊢
          by_cases hp : p t depth = true
          · rw [if_pos hp] at h
            have := h i rfl
            omega
          · rw [if_neg hp] at h ⊢
            refine ih (n := n) (by omega) fun j hj => ?_
            have := h j hj
            omega

/-- There is no semicolon before the first one. -/
theorem semicolon?_before {start last : Nat} (hstop : last ≤ stop)
    (h : ∀ i, semicolon? tokens start stop = some i → last ≤ i) : semicolon? tokens start last = none := by
  refine findAtDepth_shorter (n := stop - start) (by omega) fun j hj => ?_
  have := h j hj
  have := semicolon?_bounds hj
  omega

end Scan

namespace TokenStream

/-- A semicolon ends the expression at the cursor before the window ends. -/
def isCut (s : TokenStream) : Bool := (Scan.semicolon? s.tokens s.pos s.stop).isSome

/-- The window without what such a semicolon cuts off. -/
def trimmed (s : TokenStream) : TokenStream := { s with stop := s.exprEnd s.pos false }

variable {s : TokenStream}

theorem pos_le_exprEnd (s : TokenStream) : s.pos ≤ s.exprEnd s.pos false := by
  simp only [exprEnd, Bool.false_eq_true, if_false]
  cases h : Scan.semicolon? s.tokens s.pos s.stop with
  | none => exact Nat.le_max_left _ _
  | some i => exact (Scan.semicolon?_bounds h).1

theorem exprEnd_le (s : TokenStream) : s.exprEnd s.pos false ≤ max s.pos s.stop := by
  simp only [exprEnd, Bool.false_eq_true, if_false]
  cases h : Scan.semicolon? s.tokens s.pos s.stop with
  | none => exact Nat.le_refl _
  | some i => exact Nat.le_trans (Nat.le_of_lt (Scan.semicolon?_bounds h).2) (Nat.le_max_right _ _)

theorem exprEnd_comma_le (s : TokenStream) : s.exprEnd s.pos true ≤ s.exprEnd s.pos false := by
  unfold exprEnd
  simp only [if_true, Bool.false_eq_true, if_false]
  generalize (Scan.semicolon? s.tokens s.pos s.stop).getD (max s.pos s.stop) = last
  cases h : Scan.comma? s.tokens s.pos last with
  | none => exact Nat.le_refl _
  | some i => exact Nat.le_of_lt (Scan.comma?_bounds h).2

/-- A window is cut when its expression ends before it does. -/
theorem isCut_iff (s : TokenStream) : s.isCut = true ↔ s.exprEnd s.pos false < s.stop := by
  simp only [isCut, exprEnd, Bool.false_eq_true, if_false]
  cases h : Scan.semicolon? s.tokens s.pos s.stop with
  | none => exact iff_of_false (by simp) (Nat.not_lt.mpr (Nat.le_max_right _ _))
  | some i => simpa using (Scan.semicolon?_bounds h).2

/-- Up to where the expression ends, nothing is cut off. -/
theorem semicolon?_exprEnd {last : Nat} (h : last ≤ s.exprEnd s.pos false) :
    Scan.semicolon? s.tokens s.pos last = none := by
  by_cases hpos : last ≤ s.pos
  · rw [Scan.semicolon?, Nat.sub_eq_zero_of_le hpos]
    rfl
  · have first : ∀ i, Scan.semicolon? s.tokens s.pos s.stop = some i → last ≤ i := by
      intro i hi
      simpa [exprEnd, hi] using h
    have := s.exprEnd_le
    exact Scan.semicolon?_before (by omega) first

/-- A window that ends at a comma or semicolon holds one expression. -/
theorem isCut_window_exprEnd (hpos : s.pos ≤ s.tokens.size) : (s.window s.pos (s.exprEnd s.pos true)).isCut = false := by
  have front : (s.window s.pos (s.exprEnd s.pos true)).pos = s.pos := Nat.min_eq_left hpos
  have back : (s.window s.pos (s.exprEnd s.pos true)).stop ≤ s.exprEnd s.pos false :=
    Nat.le_trans (Nat.min_le_left _ _) s.exprEnd_comma_le
  unfold isCut
  rw [front]
  exact congrArg Option.isSome (semicolon?_exprEnd back)

theorem exprEnd_trimmed (s : TokenStream) : s.trimmed.exprEnd s.trimmed.pos false = s.exprEnd s.pos false := by
  have uncut : Scan.semicolon? s.trimmed.tokens s.trimmed.pos s.trimmed.stop = none :=
    semicolon?_exprEnd (s := s) (Nat.le_refl _)
  have far : s.trimmed.exprEnd s.trimmed.pos false = max s.pos (s.exprEnd s.pos false) := by
    rw [exprEnd, uncut]
    rfl
  rw [far]
  exact Nat.max_eq_right s.pos_le_exprEnd

/-- The window lies in the buffer. -/
structure Fits (s : TokenStream) : Prop where
  pos : s.pos ≤ s.tokens.size
  stop : s.stop ≤ s.tokens.size

theorem fits_window (s : TokenStream) (start stop : Nat) : (s.window start stop).Fits :=
  ⟨Nat.min_le_right _ _, Nat.min_le_right _ _⟩

theorem Fits.exprEnd (hs : s.Fits) : s.exprEnd s.pos false ≤ s.tokens.size :=
  Nat.le_trans s.exprEnd_le (Nat.max_le.mpr ⟨hs.pos, hs.stop⟩)

theorem Fits.trimmed (hs : s.Fits) : s.trimmed.Fits := ⟨hs.pos, hs.exprEnd⟩

end TokenStream

namespace Parse

variable {s : TokenStream}

/-- The expression in a range of a buffer, for readers that can look one level less deep. -/
def exprBetween (r : Readers) (tokens : Array Token) (start stop : Nat) : Expr :=
  if stop ≤ start then .missing
  else
    match Node.build tokens start stop with
    | .error error => .rejected error
    | .ok none => .missing
    | .ok (some root) => .tree <| root.mapLeaves fun place kind =>
      ((leaf r kind).run ((TokenStream.mk tokens start stop).window place.start place.stop)).1

/-- Reading an expression reads up to what cuts it short, and leaves the cursor there. -/
theorem run_expr (n : Nat) (hs : s.Fits) :
    ((readers (n + 1)).expr false).run s =
      (exprBetween (readers n) s.tokens s.pos (s.exprEnd s.pos false), { s with pos := s.exprEnd s.pos false }) := by
  show (if s.exprEnd s.pos false ≤ s.pos then _ else _ : Parse Expr).run s = _
  unfold exprBetween
  by_cases h : s.exprEnd s.pos false ≤ s.pos
  · rw [if_pos h, if_pos h, Nat.le_antisymm h s.pos_le_exprEnd]
    rfl
  · have moved : (setPos (s.exprEnd s.pos false)).run s = ((), { s with pos := s.exprEnd s.pos false }) :=
      congrArg (fun pos => (((), { s with pos := pos }) : Unit × TokenStream)) (Nat.min_eq_left hs.exprEnd)
    rw [if_neg h, if_neg h]
    show (setPos (s.exprEnd s.pos false) >>= _ : Parse Expr).run s = _
    rw [StateT.run_bind, moved]
    show (match Node.build s.tokens s.pos (s.exprEnd s.pos false) with
      | .error error => _
      | .ok none => _
      | .ok (some root) => _ : Parse Expr).run _ = _
    cases Node.build s.tokens s.pos (s.exprEnd s.pos false) with
    | error error => rfl
    | ok root => cases root <;> rfl

/-- Nothing in an expression depends on what a semicolon cuts off behind it. -/
theorem expr_trimmed (n : Nat) (hs : s.Fits) :
    (((readers n).expr false).run s.trimmed).1 = (((readers n).expr false).run s).1 := by
  cases n with
  | zero => rfl
  | succ n =>
      rw [run_expr n hs, run_expr n hs.trimmed, s.exprEnd_trimmed]
      rfl

/-- A condition has tokens left over just when its window is cut. -/
theorem condition_noted (n : Nat) (s : TokenStream) (start stop : Nat) :
    ((condition (readers (n + 1)) start stop).run s).1.2.isEmpty = !(s.window start stop).isCut := by
  have hs := s.fits_window start stop
  generalize hw : s.window start stop = w at hs
  show ((((readers (n + 1)).expr false >>= fun value => rest >>= fun strays => pure (value, strays)) :
    Parse (Expr × List Token)).run (s.window start stop)).1.2.isEmpty = _
  rw [hw, StateT.run_bind, run_expr n hs]
  show (w.tokens.extract (w.exprEnd w.pos false) w.stop).toList.isEmpty = _
  have hcut := w.isCut_iff
  have hstop := hs.stop
  by_cases h : w.exprEnd w.pos false < w.stop
  · rw [hcut.mpr h]
    simp
    omega
  · rw [Bool.eq_false_iff.mpr (mt hcut.mp h)]
    simp
    omega

theorem filling_noted (n : Nat) (hs : s.Fits) : ((filling (readers (n + 1))).run s).1.2.isNone = !s.isCut := by
  show ((((readers (n + 1)).expr false >>= fun value => atEnd >>= fun ended =>
    if ended then pure (value, none) else line >>= fun stray => pure (value, some stray)) :
    Parse (Expr × Option Nat)).run s).1.2.isNone = _
  rw [StateT.run_bind, run_expr n hs]
  show ((if decide (s.stop ≤ s.exprEnd s.pos false) then _ else _ : Parse (Expr × Option Nat)).run _).1.2.isNone = _
  have hcut := s.isCut_iff
  by_cases h : s.exprEnd s.pos false < s.stop
  · rw [hcut.mpr h, if_neg (by simpa using h)]
    rfl
  · rw [Bool.eq_false_iff.mpr (mt hcut.mp h), if_pos (by simpa using h)]
    rfl

end Parse

/-! ### A whole compilation -/

namespace Config

/-- Of a source without errors the script that was read is whole: behind no condition, no subject or source, no
key or value of an array, no guard and no name of a variable is anything left over.  What a condition, and what
an expression that should fill its window keeps as left over, tells whether a semicolon cuts the window, and the
window of a default value is never cut.  An expression alone does not tell: it is the same without what is cut
off. -/
theorem leftovers_reported (config : Config) (source : String) (c : Compilation) (read : Tokens)
    (h : (config.compile source).result = .ok c) (he : c.errors = 0) (hread : config.tokens? source = some read) :
    (Script.read config.mode source.utf8ByteSize read.tokens).meets .whole = true ∧
      ∀ (n : Nat) (s : TokenStream), s.Fits →
        (∀ start stop, ((Parse.condition (Parse.readers (n + 1)) start stop).run s).1.2.isEmpty =
          !(s.window start stop).isCut) ∧
        ((Parse.filling (Parse.readers (n + 1))).run s).1.2.isNone = (!s.isCut) ∧
        (s.window s.pos (s.exprEnd s.pos true)).isCut = false ∧
        (((Parse.readers n).expr false).run s.trimmed).1 = (((Parse.readers n).expr false).run s).1 := by
  obtain ⟨read', hread', -, herrors⟩ := compile_ok h
  obtain rfl : read' = read := Option.some.inj (hread'.symm.trans hread)
  have tells := (Script.tells_gen (Script.read config.mode source.utf8ByteSize read'.tokens))
  refine ⟨?_, fun n s hs => ⟨Parse.condition_noted n s, Parse.filling_noted n hs, s.isCut_window_exprEnd hs.pos,
    Parse.expr_trimmed n hs⟩⟩
  have whole := Gen.Tells.behind (Gen.logs_reportAll (Gen.lexReports read'.errors)) fun _ => tells
  exact whole.told (GenState.initial config) (herrors.symm.trans he)

/-- The binding of a `foreach` is an expression alone: there are no errors and the code is that of the loop
without the cut-off tokens, although a semicolon cuts the window of the binding. -/
theorem leftovers_unnoticed_in_binding :
    ∃ c c' read, (({} : Config).compile "foreach ($a as $v; $b) { }").result = .ok c ∧ c.errors = 0 ∧
      (({} : Config).tokens? "foreach ($a as $v; $b) { }") = some read ∧
      (Script.read .script "foreach ($a as $v; $b) { }".utf8ByteSize read.tokens).meets .whole = true ∧
      ((TokenStream.ofList read.tokens).window 5 10).isCut = true ∧
      (({} : Config).compile "foreach ($a as $v) { }").result = .ok c' ∧ c.program.main = c'.program.main := by
  have cut : ((({} : Config).tokens? "foreach ($a as $v; $b) { }").any fun read =>
      ((TokenStream.ofList read.tokens).window 5 10).isCut) = true := by
    rw [tokens?_ofList rfl rfl]
    decide +kernel
  have compiled : (({} : Config).compile "foreach ($a as $v; $b) { }").result.toOption.map (fun c =>
      (c.errors, (({} : Config).compile "foreach ($a as $v) { }").result.toOption.map fun c' =>
        decide (c.program.main.toList.map Instruction.parts = c'.program.main.toList.map Instruction.parts))) =
      some (0, some true) := by
    rw [compile_ofList rfl rfl, compile_ofList rfl rfl]
    decide +kernel
  obtain ⟨read, hread, hcut⟩ := (Option.any_eq_true _ _).mp cut
  obtain ⟨c, hr, told⟩ := Outcome.ok_of_map compiled
  obtain ⟨errors, other⟩ := Prod.mk.inj told
  obtain ⟨c', hr', same⟩ := Outcome.ok_of_map other
  exact ⟨c, c', read, hr, errors, hread, (leftovers_reported _ _ c read hr errors hread).1, hcut, hr',
    Code.eq_of_parts (of_decide_eq_true same)⟩

end Config

end StackScript
