/-
What becomes of the lists of a script.

A `list(...)` is compiled to its targets and one instruction that takes a value apart.  An equals sign takes the last
instruction of its target back, whatever it is, so the instruction of a list at the end of a target is lost; no other
operator takes one back.  `Script.lists` follows the script in the order in which it is compiled and tells of each list
whether that happens to it, container by container.
-/
import StackScript.Proofs.Evaluation
import StackScript.Proofs.Unpacking
import StackScript.Proofs.Origin
import StackScript.Proofs.Joins

namespace StackScript

open Gen

/-- A list of so many targets, and whether its instruction is taken back. -/
structure ListUse where
  targets : Nat
  taken : Bool
deriving DecidableEq

/-- What is left of a list. -/
def ListUse.unpacking? (u : ListUse) : Option Int := if u.taken then none else some u.targets

/-- The operator leaves the end of its last operand as it is: it has no instruction. -/
def Operator.isSilent (op : Operator) : Bool := op.opcode?.isNone

mutual

/-- The lists of an expression that is the target of no assignment. -/
def Expr.lists : Expr → Contents ListUse
  | .tree root => Leaf.treeLists false root
  | _ => {}

/-- The lists of an expression tree, whose last instruction may be taken. -/
def Leaf.treeLists (taken : Bool) : Tree Leaf → Contents ListUse
  | .leaf _ content => content.lists taken
  | .prefixed _ op x | .postfixed _ op x => Leaf.treeLists (taken && op.isSilent) x
  | .binary _ op x y => Leaf.treeLists false x ++ Leaf.treeLists (taken && op.isSilent) y
  | .assign _ op target value =>
    Leaf.treeLists false value ++ Leaf.treeLists (op == .assign || taken && op.isSilent) target
  | .ternary _ c x y => Leaf.treeLists false c ++ (Leaf.treeLists false x ++ Leaf.treeLists taken y)
  | .call _ f xs => Leaf.allLists xs ++ Leaf.treeLists false f
  | .index _ x k => Leaf.treeLists false x ++ Leaf.treeLists false k
  | .append _ x => Leaf.treeLists false x

def Leaf.allLists : List (Tree Leaf) → Contents ListUse
  | [] => {}
  | t :: ts => Leaf.treeLists false t ++ Leaf.allLists ts

def Leaf.lists (taken : Bool) : Leaf → Contents ListUse
  | .template first rest => first.lists (taken && rest.isEmpty) ++ Piece.allLists rest
  | .computedVariable _ _ name _ _ => name.lists
  | .array entries _ => Entry.allLists entries
  | .list targets => Expr.allLists targets ++ ⟨[⟨targets.countP Expr.isPresent, taken⟩], []⟩
  | .closure _ _ params _ _ body => Parameter.allLists params ++ body.lists.closed
  | .construct _ argument => argument.lists
  | _ => {}

def Piece.lists (taken : Bool) : Piece → Contents ListUse
  | .value _ root => Leaf.treeLists taken root
  | _ => {}

def Piece.allLists : List Piece → Contents ListUse
  | [] => {}
  | p :: ps => p.lists false ++ Piece.allLists ps

def Entry.lists : Entry → Contents ListUse
  | .plain _ value _ | .unkeyed _ value _ => value.lists
  | .keyed _ key _ value _ => key.lists ++ value.lists

def Entry.allLists : List Entry → Contents ListUse
  | [] => {}
  | e :: es => e.lists ++ Entry.allLists es

def Expr.allLists : List Expr → Contents ListUse
  | [] => {}
  | e :: es => e.lists ++ Expr.allLists es

def Parameter.lists : Parameter → Contents ListUse
  | .required _ _ _ => {}
  | .optional _ _ _ _ value => value.lists.closed

def Parameter.allLists : List Parameter → Contents ListUse
  | [] => {}
  | p :: ps => p.lists ++ Parameter.allLists ps

def Chain.lists : Chain → Contents ListUse
  | .branch test _ body rest => test.lists ++ (body.lists ++ rest.lists)
  | .otherwise body => body.lists
  | _ => {}

def Section.lists : Section → Contents ListUse
  | .case_ _ guard _ body => guard.lists.closed ++ Stmt.allLists body
  | .default_ _ _ body => Stmt.allLists body

def Section.allLists : List Section → Contents ListUse
  | [] => {}
  | sec :: ss => sec.lists ++ Section.allLists ss

/-- The code of what is bound is dropped. -/
def ForeachHead.lists : ForeachHead → Contents ListUse
  | .key _ binding rest => binding.lists.dropped ++ rest.lists
  | .value _ _ binding body => binding.lists.dropped ++ body.lists
  | _ => {}

def CatchClause.lists : CatchClause → Contents ListUse
  | .malformed _ => {}
  | .clause _ _ body => body.lists.closed

def CatchClause.allLists : List CatchClause → Contents ListUse
  | [] => {}
  | c :: cs => c.lists ++ CatchClause.allLists cs

def Declarator.lists : Declarator → Contents ListUse
  | .assigned _ _ assignment => assignment.lists
  | .staticValue _ _ _ value => value.lists.closed
  | _ => {}

def Declarator.allLists : List Declarator → Contents ListUse
  | [] => {}
  | d :: ds => d.lists ++ Declarator.allLists ds

def Member.lists : Member → Contents ListUse
  | .constant _ _ value | .attributeValue _ _ _ value => value.lists.closed
  | .signature _ _ params _ => Parameter.allLists params
  | .method _ _ params _ body => Parameter.allLists params ++ body.lists.closed
  | _ => {}

def Member.allLists : List Member → Contents ListUse
  | [] => {}
  | m :: ms => m.lists ++ Member.allLists ms

/-- The lists of a statement. -/
def Stmt.lists : Stmt → Contents ListUse
  | .sequence items | .block items _ | .namespace_ _ items => Stmt.allLists items
  | .onLine _ body | .doWithoutTest body _ => body.lists
  | .expression value | .throw _ value | .return_ value | .exit value => value.lists
  | .constant _ _ value => value.lists.closed
  | .conditional chain => chain.lists
  | .switch subject _ sections _ => subject.lists ++ Section.allLists sections
  | .switchWithoutBody subject _ _ => subject.lists
  | .whileLoop test _ body => test.lists ++ body.lists
  | .doLoop body test _ => body.lists ++ test.lists
  | .forLoop _ init test _ body post _ => init.lists ++ (test.lists ++ (body.lists ++ post.lists))
  | .foreach _ source _ head => source.lists ++ head.lists
  | .tryCatch body clauses _ => body.lists ++ CatchClause.allLists clauses
  | .declaration _ items _ => Declarator.allLists items
  | .function _ params _ body => Parameter.allLists params ++ body.lists.closed
  | .class_ _ members _ => Member.allLists members
  | .empty | .report _ | .raw _ | .loopJump _ _ _ _ | .using_ _ => {}

def Stmt.allLists : List Stmt → Contents ListUse
  | [] => {}
  | s :: ss => s.lists ++ Stmt.allLists ss

end

/-- The lists of a script. -/
def Script.lists : Script → Contents ListUse
  | .statements items => Stmt.allLists items
  | .expression value _ => value.lists

/-! ### Ends of targets -/

mutual

/-- The last instruction of a tree is that of a list. -/
def Leaf.treeEndsInList : Tree Leaf → Bool
  | .leaf _ content => content.endsInList
  | .prefixed _ op x | .postfixed _ op x => op.isSilent && Leaf.treeEndsInList x
  | .binary _ op _ y => op.isSilent && Leaf.treeEndsInList y
  | .assign _ op target _ => op.isSilent && Leaf.treeEndsInList target
  | .ternary _ _ _ no => Leaf.treeEndsInList no
  | .call _ _ _ | .index _ _ _ | .append _ _ => false

def Leaf.endsInList : Leaf → Bool
  | .list _ => true
  | .template first rest => rest.isEmpty && first.endsInList
  | _ => false

def Piece.endsInList : Piece → Bool
  | .value _ root => Leaf.treeEndsInList root
  | _ => false

end

/-- What is left of the lists of an expression when its last instruction is taken back: all but a list at its end. -/
def Leavings (all rest : Contents ListUse) (endsInList : Bool) : Prop :=
  ∃ last : List Int, last.length = endsInList.toNat ∧
    all.filterMap ListUse.unpacking? = rest.filterMap ListUse.unpacking? ++ ⟨last, []⟩

namespace Leavings

variable {a b front : Contents ListUse} {e : Bool}

theorem refl (a : Contents ListUse) : Leavings a a false := ⟨[], rfl, (Contents.append_empty _).symm⟩

theorem behind (h : Leavings a b e) : Leavings (front ++ a) (front ++ b) e := by
  obtain ⟨last, hlast, heq⟩ := h
  refine ⟨last, hlast, ?_⟩
  rw [Contents.filterMap_append, Contents.filterMap_append, heq, Contents.append_assoc]

/-- Where an operator has an instruction of its own, that is the one that is taken. -/
theorem silent {f : Bool → Contents ListUse} (h : Leavings (f false) (f true) e) (op : Operator) :
    Leavings (f false) (f op.isSilent) (op.isSilent && e) := by
  cases op.isSilent with
  | true => exact h
  | false => exact .refl _

end Leavings

mutual

theorem Leaf.leavings_tree : (t : Tree Leaf) →
    Leavings (Leaf.treeLists false t) (Leaf.treeLists true t) (Leaf.treeEndsInList t)
  | .leaf p content =>
    Leaf.leavings content
  | .prefixed p op x =>
    Leavings.silent (f := fun b => Leaf.treeLists b x) (Leaf.leavings_tree x) op
  | .postfixed p op x =>
    Leavings.silent (f := fun b => Leaf.treeLists b x) (Leaf.leavings_tree x) op
  | .binary p op x y =>
    (Leavings.silent (f := fun b => Leaf.treeLists b y) (Leaf.leavings_tree y) op).behind
  | .assign p op target value => by
    refine Leavings.behind ?_
    cases hop : op == .assign with
    | true =>
        rw [beq_iff_eq.mp hop]
        exact .refl _
    | false => exact Leavings.silent (f := fun b => Leaf.treeLists b target) (Leaf.leavings_tree target) op
  | .ternary p c x y => (Leaf.leavings_tree y).behind.behind
  | .call p f xs => .refl _
  | .index p x k => .refl _
  | .append p x => .refl _

theorem Leaf.leavings : (l : Leaf) → Leavings (l.lists false) (l.lists true) l.endsInList
  | .list targets => Leavings.behind ⟨[(targets.countP Expr.isPresent : Int)], rfl, rfl⟩
  | .template first [] => by
    show Leavings (first.lists false ++ {}) (first.lists true ++ {}) first.endsInList
    rw [Contents.append_empty, Contents.append_empty]
    exact Piece.leavings first
  | .template first (second :: rest) => .refl _
  | .unread _ | .number _ | .simpleString _ | .variable _ _ _ | .computedVariable _ _ _ _ _ | .blankVariable _ _
  | .name _ _ | .array _ _ | .closure _ _ _ _ _ _ | .construct _ _ => .refl _

theorem Piece.leavings : (p : Piece) → Leavings (p.lists false) (p.lists true) p.endsInList
  | .value _ root => Leaf.leavings_tree root
  | .text _ | .rejected _ _ => .refl _

end

namespace Gen

variable {α β : Type} {b : Bool}

/-- As long as there is no error, whether the code ends with the instruction of a list is told. -/
structure Closes (b : Bool) (m : Gen α) : Prop where
  logs : Logs m
  closes : ∀ s, (after m s).errors = 0 → (after m s).code.back?.any (·.op == .loadList) = b

namespace Closes

variable {value left right : Gen Unit}

/-- What comes first does not matter. -/
theorem behind {m : Gen α} {f : α → Gen β} (hm : Logs m) (hf : ∀ a, Closes b (f a)) : Closes b (m >>= f) where
  logs := hm.bind fun a => (hf a).logs
  closes := fun s he => (hf (result m s)).closes (after m s) he

theorem put (op : Opcode) (p1 : Int) (p2 : Nat) (p3 : Operand) : Closes (op == .loadList) (Gen.put op p1 p2 p3) where
  logs := .of fun _ => rfl
  closes := by
    intro s _
    rw [after_put, Array.back?_push]
    rfl

theorem refused {m : Gen α} (h : Tells False m) : Closes b m where
  logs := h.reports
  closes := by
    intro s he
    have rises := Logs.errors_le h.reports s
    exact (h.told s (by omega)).elim

theorem report (line : Nat) {problem : Problem} (hp : problem.severity = .error) : Closes b (Gen.report line problem) :=
  .refused (tells_error line hp)

theorem ite {c : Prop} [Decidable c] {m m' : Gen α} (h : Closes b m) (h' : Closes b m') :
    Closes b (if c then m else m') := by
  split
  · exact h
  · exact h'

/-- An operator without an instruction leaves the end as it is. -/
theorem operator (h : Closes b value) (op : Operator) (p1 : Int) :
    Closes (op.isSilent && b) (do value; Gen.operator op p1) := by
  unfold Gen.operator Operator.isSilent
  cases hcode : op.opcode? with
  | none => exact h
  | some own =>
      have other : (own == Opcode.loadList) = false := beq_eq_false_iff_ne.mpr fun h => opcode_ne_loadList op (h ▸ hcode)
      have closed := put own p1 0 .none
      rw [other] at closed
      exact behind h.logs fun _ => closed

/-- What takes an instruction back puts another one in its place. -/
theorem store : Closes false Gen.store := by
  refine behind (.of fun _ => rfl) fun last => ?_
  split
  · exact put .store 0 0 .none
  · split
    · exact put .store 0 1 .none
    · exact behind (.of fun _ => rfl) fun _ => put .storeIdx _ 0 .none
    · exact behind (.of fun _ => rfl) fun _ => put .store 0 0 _

theorem create : Closes false Gen.create := by
  refine behind (.of fun _ => rfl) fun last => ?_
  split
  · refine behind (.of fun _ => rfl) fun _ => ite ?_ (put .new 0 0 .none)
    exact behind (.of fun _ => rfl) fun _ => put .new _ 0 .none
  · exact put .new 0 0 .none

theorem staticMember : Closes false Gen.staticMember := by
  refine behind (.of fun _ => rfl) fun last => ?_
  split
  · refine ite ?_ (put .member 1 0 .none)
    exact behind (.of fun _ => rfl) fun _ => put .member 1 0 _
  · exact put .member 1 0 .none

/-- Pointing a jump to the end changes no instruction's kind. -/
theorem landing {m : Gen Nat} {v : Gen Unit} (h : Closes b v) (hm : Logs m) :
    Closes b (do
      let i ← m
      v
      landHere i) := by
  refine behind hm fun i => ⟨h.logs.bind fun _ => .of fun _ => rfl, fun s he => ?_⟩
  have closed := h.closes s he
  rw [after_bind, after_landHere]
  show (Code.patch (after v s).code i _).back?.any _ = b
  rw [← closed, Array.back?_eq_getElem?, Array.back?_eq_getElem?, Code.size_patch, Code.getElem?_patch]
  split
  · exact Option.any_map
  · rfl

/-! ### Nodes of an expression tree -/

theorem prefixed (line : Nat) (op : Operator) (h : Closes b value) :
    Closes (op.isSilent && b) (Gen.prefixed line op value) := by
  refine behind (logs_setLine line) fun _ => ?_
  split
  · exact behind h.logs fun _ => create
  · exact operator h .incr 1
  · exact operator h .decr 1
  · exact operator h op 0

theorem postfixed (line : Nat) (op : Operator) (h : Closes b value) :
    Closes (op.isSilent && b) (Gen.postfixed line op value) :=
  behind (logs_setLine line) fun _ => operator h op 0

theorem binary (line : Nat) (op : Operator) (hl : Logs left) (h : Closes b right) :
    Closes (op.isSilent && b) (Gen.binary line op left right) := by
  refine behind (logs_setLine line) fun _ => behind hl fun _ => ?_
  split
  · exact behind (.of fun _ => rfl) fun _ => h
  · exact landing (v := do right; Gen.operator .logAnd 0) (operator h .logAnd 0) (.of fun _ => rfl)
  · exact landing (v := do right; Gen.operator .logOr 0) (operator h .logOr 0) (.of fun _ => rfl)
  · exact behind h.logs fun _ => staticMember
  · exact operator h op 0

theorem assign (line : Nat) (op : Operator) (hv : Logs value) (h : Closes b left) :
    Closes (op.isSilent && b) (Gen.assign line op value left) := by
  refine behind (logs_setLine line) fun _ => behind hv fun _ => ?_
  split
  · exact behind h.logs fun _ => store
  · exact operator h op 0

theorem ternary (line : Nat) (hc : Logs value) (hy : Logs left) (h : Closes b right) :
    Closes b (Gen.ternary line value left right) := by
  refine behind (logs_setLine line) fun _ => behind hc fun _ => behind (.of fun _ => rfl) fun skip => behind hy fun _ => ?_
  exact landing (v := do landHere skip; right) (behind (.of fun _ => rfl) fun _ => h) (.of fun _ => rfl)

/-! ### Leaves -/

theorem loadSlot (slot : Nat) : Closes false (Gen.loadSlot slot) := put .loadc 0 slot .none

theorem loadConstant (add : ConstantPool → Nat × ConstantPool) : Closes false (Gen.loadConstant add) :=
  behind (.of fun _ => rfl) loadSlot

theorem number (t : Token) : Closes false (Gen.number t) := by
  unfold Gen.number
  split
  · split
    · exact loadConstant _
    · exact ite (loadConstant _) (behind (logs_report _ _) fun _ => loadConstant _)
  · exact loadConstant _

theorem nameOrNull (name : Option String) : Closes false (Gen.nameOrNull name) := by
  cases name with
  | none => exact loadSlot _
  | some text => exact loadConstant _

theorem name (path : Option Nat) (t : Token) : Closes false (Gen.name path t) := by
  refine behind (valued_notePath path).logs fun _ => ?_
  split
  · exact loadSlot _
  · split
    · exact loadConstant _
    · exact behind logs_get fun _ => loadConstant _
    · exact behind logs_get fun _ => loadConstant _
    · exact behind valued_currentClass.logs fun _ => nameOrNull _
    · exact behind valued_currentFunction.logs fun _ => nameOrNull _
    · exact behind valued_currentFunction.logs fun _ => nameOrNull _
    · exact behind (.of fun _ => rfl) fun _ => put .loadc 1 _ .none

/-- The last look-up of a variable. -/
theorem lookUp (access : Access) (p1 : Int) (p3 : Operand) (n : Nat) :
    Closes false (do Gen.put .load p1 0 p3; Gen.lookUp access n) := by
  induction n generalizing p1 p3 with
  | zero => exact put .load p1 0 p3
  | succ n ih => exact behind (.of fun _ => rfl) fun _ => ih _ .none

theorem loadVariable (access : Access) (line : Nat) (name : String) (extra : Nat) :
    Closes false (Gen.loadVariable access line name extra) :=
  behind (logs_setLine line) fun _ => lookUp access _ _ extra

theorem computedVariable (access : Access) (line braceLine : Nat) (isPresent : Bool) (h : Logs value)
    (stray : Option Nat) (extra : Nat) :
    Closes false (Gen.computedVariable access line braceLine isPresent value stray extra) :=
  behind (logs_setLine braceLine) fun _ => behind h fun _ => behind (valued_cutShort stray).logs fun _ =>
    ite (lookUp access _ .none extra) (report line rfl)

theorem array (count : Nat) (h : Logs value) (incomplete : Option Nat) :
    Closes false (Gen.array count value incomplete) := by
  refine behind h fun _ => ?_
  cases incomplete with
  | none => exact put .loadMap _ 0 .none
  | some line => exact behind (logs_setLine line) fun _ => report line rfl

theorem closure (line : Nat) (returns : TypeSpec) {params : Gen (List Argument)} (hp : Logs params)
    (fault : Option Report) (captures : Option CaptureList) (hb : Logs value) :
    Closes false (Gen.closure line returns params fault captures value) := by
  have load (f : FunctionDef) : Closes false (loadFunction f) := by
    refine ite (behind (.of fun _ => rfl) fun _ => put .loadClosure 0 0 _) ?_
    exact behind (logs_installFunction f) fun _ => ite (loadConstant _) (report f.line rfl)
  have args := (tells_arguments (Tells.nothing hp) fault).reports
  refine behind (.of fun _ => rfl) fun _ => behind args fun _ => behind (valued_captureReports captures).logs fun _ => ?_
  exact behind (tells_functionDef _ _ (Tells.nothing hb)).reports fun _ => load _

theorem construct (word : String) (isPresent : Bool) (h : Logs value) :
    Closes false (Gen.construct word isPresent value) :=
  behind h fun _ => behind (.of fun _ => rfl) fun _ => put .call _ 0 .none

/-- The pieces of a string are put together at its end, unless there is only one. -/
theorem template {first : Piece} (rest : List Piece) (h : Closes b first.gen) : Closes (rest.isEmpty && b) (do
    first.gen
    Piece.genAll rest
    joinPieces ((first :: rest).countP Piece.isPresent)) := by
  have logs : Logs (joinPieces ((first :: rest).countP Piece.isPresent)) := (valued_joinPieces _).logs
  refine ⟨h.logs.bind fun _ => (Piece.valued_genAll rest).logs.bind fun _ => logs, fun s he => ?_⟩
  rw [after_bind, after_bind] at he ⊢
  cases rest with
  | nil =>
      have few : ¬1 < [first].countP Piece.isPresent := Nat.not_lt.mpr List.countP_le_length
      rw [joinPieces, if_neg few] at he ⊢
      exact h.closes s he
  | cons second rest =>
      have joined := logs.errors_le (after (Piece.genAll (second :: rest)) (after first.gen s))
      have others := (Piece.valued_genAll (second :: rest)).logs.errors_le (after first.gen s)
      have one := h.logs.errors_le s
      have present : ∀ p ∈ first :: second :: rest, p.isPresent = true :=
        List.forall_mem_cons.mpr ⟨first.isPresent_of_silent (s := s) (by omega),
          Piece.isPresent_of_allSilent (second :: rest) (s := after first.gen s) (by omega)⟩
      rw [List.countP_eq_length.mpr present, joinPieces,
        if_pos (by rw [List.length_cons, List.length_cons]; omega)]
      have silent : (after (Piece.genAll (second :: rest)) (after first.gen s)).errors = 0 := by omega
      exact (put .add _ 1 .none).closes _ silent

end Closes

end Gen

mutual

/-- The code of a tree ends with the instruction of a list just where the tree does. -/
theorem Leaf.closes_genTree (access : Access) : (t : Tree Leaf) → Closes (Leaf.treeEndsInList t) (Leaf.genTree access t)
  | .leaf p content => Leaf.closes_gen access content
  | .prefixed p op x => (Leaf.closes_genTree access x).prefixed p.line op
  | .postfixed p op x => (Leaf.closes_genTree access x).postfixed p.line op
  | .binary p op x y => (Leaf.closes_genTree access y).binary p.line op (Leaf.emits_genTree access x).valued.logs
  | .assign p op target value =>
    (Leaf.closes_genTree access.target target).assign p.line op (Leaf.emits_genTree access value).valued.logs
  | .ternary p c x y =>
    (Leaf.closes_genTree access y).ternary p.line (Leaf.emits_genTree access c).valued.logs
      (Leaf.emits_genTree access x).valued.logs
  | .call p f xs => by
    have args := (Leaf.valued_genTrees access.argument xs).logs
    have callee := (Leaf.emits_genTree access f).valued.logs
    exact .behind (logs_setLine _) fun _ => .behind args fun _ => .behind callee fun _ => .behind (.of fun _ => rfl) fun _ =>
      .put .call _ 0 .none
  | .index p x k =>
    .behind (logs_setLine _) fun _ => .behind (Leaf.emits_genTree access x).valued.logs fun _ =>
      .behind (Leaf.emits_genTree access.key k).valued.logs fun _ => .put .loadIdx 1 _ .none
  | .append p x =>
    .behind (logs_setLine _) fun _ => .behind (Leaf.emits_genTree access x).valued.logs fun _ =>
      .put .loadIdx 0 _ .none

theorem Leaf.closes_gen (access : Access) : (l : Leaf) → Closes l.endsInList (l.gen access)
  | .unread line => .report line rfl
  | .number t => .number t
  | .simpleString _ => .loadConstant _
  | .template first rest => .template rest (Piece.closes_gen first)
  | .variable line name extra => .loadVariable access line name extra
  | .computedVariable line braceLine name stray extra =>
    .computedVariable access line braceLine _ (Expr.valued_gen {} none name).logs stray extra
  | .blankVariable line _ => .behind (logs_setLine _) fun _ => .report line rfl
  | .name path t => .name path t
  | .array entries incomplete => .array _ (Entry.valued_genAll entries).logs incomplete
  | .list targets => .behind (Expr.valued_genTargets targets).logs fun _ => .put .loadList _ 0 .none
  | .closure line returns params fault captures body =>
    .closure line returns (Parameter.tells_genAll params).reports fault captures (Stmt.tells_gen body).reports
  | .construct word argument => .construct word _ (Expr.valued_gen Access.reading none argument).logs

theorem Piece.closes_gen : (p : Piece) → Closes p.endsInList p.gen
  | .text _ => .loadConstant _
  | .value _ root => .behind (logs_reportAll _) fun _ => Leaf.closes_genTree {} root
  | .rejected _ error => .behind (logs_reportAll _) fun _ => .report error.line rfl

end

/-! ### What is taken back -/

namespace Gen

variable {y z : Contents Int} {value target : Gen Unit}

/-- An equals sign behind another instruction than that of a list takes none of a list back. -/
theorem unpackings_store_of_not {s : GenState} (h : s.code.back?.any (·.op == .loadList) = false) :
    (after store s).unpackings = s.unpackings := by
  have plain (p2 : Nat) : (after (put .store 0 p2 .none) s).unpackings = s.unpackings :=
    congrArg (Contents.mk · _) (Code.unpackings_push_of_ne Opcode.noConfusion)
  unfold store
  rw [after_bind, result_last?, after_last?]
  cases hx : s.code.back? with
  | none => exact plain 0
  | some x =>
      have hne : x.op ≠ .loadList := by
        rw [hx] at h
        exact beq_eq_false_iff_ne.mp h
      dsimp only
      split
      · exact plain 1
      · exact unpacks_replace hx hne (by decide) x.p1 0 .none
      · exact unpacks_replace hx hne (by decide) 0 0 x.p3

/-- An equals sign behind the instruction of a list takes that one back. -/
theorem unpackings_store_of_list {s : GenState} {x : Instruction} (hx : s.code.back? = some x) (hop : x.op = .loadList) :
    (after store s).unpackings = ⟨Code.unpackings s.code.pop, s.unpackings.apart⟩ := by
  unfold store
  rw [after_bind, result_last?, after_last?, hx]
  dsimp only
  rw [hop]
  have stored : Code.unpackings (s.code.pop.push ⟨.store, 0, 0, x.p3, s.buffer.line⟩) = Code.unpackings s.code.pop :=
    Code.unpackings_push_of_ne Opcode.noConfusion
  exact congrArg (Contents.mk · _) stored

/-- With an equals sign, what is left of the lists of the target is left. -/
theorem unpacks_store (line : Nat) {all rest : Contents ListUse} {e : Bool} (hv : Unpacks y value)
    (ht : Unpacks (all.filterMap ListUse.unpacking?) target) (hc : Closes e target) (h : Leavings all rest e) :
    Unpacks (y ++ rest.filterMap ListUse.unpacking?) (assign line .assign value target) where
  logs := (tells_assign line .assign (Tells.nothing hv.logs) (Tells.nothing ht.logs)).reports
  adds := by
    intro s he
    obtain ⟨last, hlast, hall⟩ := h
    obtain ⟨t, ht'⟩ : ∃ t, t = after target (after value (after (setLine line) s)) := ⟨_, rfl⟩
    have end_ : after (assign line .assign value target) s = after store t := by
      rw [ht']
      rfl
    have silent : t.errors = 0 := by
      rw [end_] at he
      exact (Rewriter.errors_gen .store t).symm.trans he
    have operands := ((unpacks_setLine line).behind fun _ => hv.bind fun _ => ht).adds s
      (show (after target (after value (after (setLine line) s))).errors = 0 from ht' ▸ silent)
    have closed := hc.closes (after value (after (setLine line) s)) (ht' ▸ silent)
    have added : t.unpackings = s.unpackings ++ (y ++ rest.filterMap ListUse.unpacking?) ++ ⟨last, []⟩ := by
      rw [ht', Contents.append_assoc, Contents.append_assoc, ← hall]
      exact operands
    rw [← ht'] at closed
    rw [end_]
    cases e with
    | false =>
        rw [unpackings_store_of_not closed, added, List.length_eq_zero_iff.mp hlast]
        exact Contents.append_empty _
    | true =>
        obtain ⟨n, rfl⟩ := List.length_eq_one_iff.mp hlast
        obtain ⟨x, hx, hop⟩ := (Option.any_eq_true _ _).mp closed
        have hop : x.op = .loadList := beq_iff_eq.mp hop
        have here := congrArg Contents.here added
        have apart := congrArg Contents.apart added
        have ends : t.code.unpackings = Code.unpackings t.code.pop ++ [x.p1] := by
          rw [Code.unpackings_pop hx, Instruction.targets?, if_pos hop]
          rfl
        rw [unpackings_store_of_list hx hop]
        refine Contents.ext ?_ (apart.trans (List.append_nil _))
        exact (List.append_inj' (ends.symm.trans here) rfl).1

theorem unpacks_assign (line : Nat) {op : Operator} (hop : op ≠ .assign) (hv : Unpacks y value) (ht : Unpacks z target) :
    Unpacks (y ++ z) (assign line op value target) := by
  refine .behind (unpacks_setLine line) fun _ => hv.bind fun _ => ht.before fun _ => ?_
  split
  · contradiction
  · exact unpacks_operator op 0

end Gen

/-! ### A script adds what is left of its lists -/

/-- The instructions that are left of some lists. -/
abbrev Contents.left (c : Contents ListUse) : Contents Int := c.filterMap ListUse.unpacking?

theorem Expr.unpacks_restrict (restriction : Option Restriction) (root : Tree Leaf) :
    Unpacks {} (restrict restriction root) := by
  unfold restrict
  split
  · exact unpacks_report _ _
  · exact .pure ()

mutual

theorem Expr.unpacks_gen (access : Access) (restriction : Option Restriction) :
    (e : Expr) → Unpacks e.lists.left (e.gen access restriction)
  | .missing => .pure ()
  | .rejected _ => unpacks_report _ _
  | .tree root => (Expr.unpacks_restrict restriction root).behind fun _ => Leaf.unpacks_genTree access root

theorem Leaf.unpacks_genTree (access : Access) : (t : Tree Leaf) → Unpacks (Leaf.treeLists false t).left (Leaf.genTree access t)
  | .leaf p content => Leaf.unpacks_gen access content
  | .prefixed p op x => unpacks_prefixed _ _ (Leaf.unpacks_genTree access x)
  | .postfixed p op x => unpacks_postfixed _ _ (Leaf.unpacks_genTree access x)
  | .binary p op x y => by
    show Unpacks (Contents.left (_ ++ _)) _
    simp only [Contents.filterMap_append]
    exact unpacks_binary _ _ (Leaf.unpacks_genTree access x) (Leaf.unpacks_genTree access y)
  | .assign p op target value => by
    show Unpacks (Contents.left (_ ++ Leaf.treeLists (op == .assign || false) target)) _
    simp only [Bool.or_false, Contents.filterMap_append]
    have target_ := Leaf.unpacks_genTree access.target target
    cases hop : op == .assign with
    | true =>
        rw [beq_iff_eq.mp hop]
        exact unpacks_store p.line (Leaf.unpacks_genTree access value) target_ (Leaf.closes_genTree access.target target)
          (Leaf.leavings_tree target)
    | false => exact unpacks_assign p.line (beq_eq_false_iff_ne.mp hop) (Leaf.unpacks_genTree access value) target_
  | .ternary p c x y => by
    show Unpacks (Contents.left (_ ++ (_ ++ _))) _
    simp only [Contents.filterMap_append]
    exact unpacks_ternary _ (Leaf.unpacks_genTree access c) (Leaf.unpacks_genTree access x) (Leaf.unpacks_genTree access y)
  | .call p f xs => by
    show Unpacks (Contents.left (_ ++ _)) _
    simp only [Contents.filterMap_append]
    exact unpacks_call _ _ (Leaf.unpacks_genTrees access.argument xs) (Leaf.unpacks_genTree access f)
  | .index p x k => by
    show Unpacks (Contents.left (_ ++ _)) _
    simp only [Contents.filterMap_append]
    exact unpacks_index _ _ (Leaf.unpacks_genTree access x) (Leaf.unpacks_genTree access.key k)
  | .append p x => unpacks_append _ _ (Leaf.unpacks_genTree access x)

theorem Leaf.unpacks_genTrees (access : Access) :
    (ts : List (Tree Leaf)) → Unpacks (Leaf.allLists ts).left (Leaf.genTrees access ts)
  | [] => .pure ()
  | t :: ts => by
    show Unpacks (Contents.left (_ ++ _)) _
    simp only [Contents.filterMap_append]
    exact (Leaf.unpacks_genTree access t).bind fun _ => Leaf.unpacks_genTrees access ts

theorem Leaf.unpacks_gen (access : Access) : (l : Leaf) → Unpacks (l.lists false).left (l.gen access)
  | .unread line => unpacks_report _ _
  | .number t => unpacks_number t
  | .simpleString text => unpacks_string _
  | .template first rest => by
    show Unpacks (Contents.left (_ ++ _)) _
    simp only [Contents.filterMap_append]
    exact (Piece.unpacks_gen first).bind fun _ => (Piece.unpacks_genAll rest).before fun _ => unpacks_joinPieces _
  | .variable line name extra => unpacks_loadVariable access line name extra
  | .computedVariable line braceLine name stray extra =>
    unpacks_computedVariable access line braceLine _ (Expr.unpacks_gen {} none name) stray extra
  | .blankVariable line braceLine => (unpacks_setLine _).behind fun _ => unpacks_report _ _
  | .name path t => unpacks_name path t
  | .array entries incomplete => unpacks_array _ (Entry.unpacks_genAll entries) incomplete
  | .list targets => by
    show Unpacks (Contents.left (_ ++ _)) _
    simp only [Contents.filterMap_append]
    exact unpacks_list _ (Expr.unpacks_genTargets targets)
  | .closure line returns params fault captures body => by
    show Unpacks (Contents.left (_ ++ Contents.closed _)) _
    simp only [Contents.filterMap_append, Contents.filterMap_closed]
    exact unpacks_closure line returns (Parameter.unpacks_genAll params) fault captures (Stmt.unpacks_gen body)
  | .construct word argument => unpacks_construct word _ (Expr.unpacks_gen _ _ argument)

theorem Piece.unpacks_gen : (p : Piece) → Unpacks (p.lists false).left p.gen
  | .text text => unpacks_string text
  | .value _ root => (unpacks_reportAll _).behind fun _ => Leaf.unpacks_genTree {} root
  | .rejected _ _ => (unpacks_reportAll _).behind fun _ => unpacks_report _ _

theorem Piece.unpacks_genAll : (ps : List Piece) → Unpacks (Piece.allLists ps).left (Piece.genAll ps)
  | [] => .pure ()
  | p :: ps => by
    show Unpacks (Contents.left (_ ++ _)) _
    simp only [Contents.filterMap_append]
    exact (Piece.unpacks_gen p).bind fun _ => Piece.unpacks_genAll ps

theorem Entry.unpacks_gen : (e : Entry) → Unpacks e.lists.left e.gen
  | .plain line value mark => unpacks_plainEntry line (unpacks_item mark (Expr.unpacks_gen _ _ value))
  | .keyed line key keyMark value mark => by
    show Unpacks (Contents.left (_ ++ _)) _
    simp only [Contents.filterMap_append]
    exact unpacks_keyedEntry line (unpacks_item keyMark (Expr.unpacks_gen _ _ key))
      (unpacks_item mark (Expr.unpacks_gen _ _ value))
  | .unkeyed line value mark => unpacks_unkeyedEntry line (unpacks_item mark (Expr.unpacks_gen _ _ value))

theorem Entry.unpacks_genAll : (es : List Entry) → Unpacks (Entry.allLists es).left (Entry.genAll es)
  | [] => .pure ()
  | e :: es => by
    show Unpacks (Contents.left (_ ++ _)) _
    simp only [Contents.filterMap_append]
    exact (Entry.unpacks_gen e).bind fun _ => Entry.unpacks_genAll es

theorem Expr.unpacks_genTargets : (es : List Expr) → Unpacks (Expr.allLists es).left (Expr.genTargets es)
  | [] => .pure ()
  | e :: es => by
    show Unpacks (Contents.left (_ ++ _)) _
    simp only [Contents.filterMap_append]
    exact (Expr.unpacks_gen _ _ e).bind fun _ => Expr.unpacks_genTargets es

theorem Parameter.unpacks_gen : (p : Parameter) → Unpacks p.lists.left p.gen
  | .required name type byRef => .pure _
  | .optional name type byRef line value => by
    show Unpacks (Contents.left (Contents.closed _)) _
    simp only [Contents.filterMap_closed]
    exact (unpacks_thunk line _ (Expr.unpacks_gen _ _ value)).before fun _ => .pure _

theorem Parameter.unpacks_genAll : (ps : List Parameter) → Unpacks (Parameter.allLists ps).left (Parameter.genAll ps)
  | [] => .pure _
  | p :: ps => by
    show Unpacks (Contents.left (_ ++ _)) _
    simp only [Contents.filterMap_append]
    exact (Parameter.unpacks_gen p).bind fun _ => (Parameter.unpacks_genAll ps).before fun _ => .pure _

theorem Chain.unpacks_gen (id : Nat) : (c : Chain) → Unpacks c.lists.left (c.gen id)
  | .branch test strays body rest => by
    show Unpacks (Contents.left (_ ++ (_ ++ _))) _
    simp only [Contents.filterMap_append]
    exact unpacks_branch id (Expr.unpacks_gen _ _ test) strays (Stmt.unpacks_gen body) _ (Chain.unpacks_gen id rest)
  | .otherwise body => Stmt.unpacks_gen body
  | .malformed r => unpacks_report _ _
  | .done => .pure ()

theorem Section.unpacks_gen : (sec : Section) → (table : SwitchTable) → Unpacks sec.lists.left (sec.gen table)
  | .case_ line guard strays body => by
    intro table
    show Unpacks (Contents.left (Contents.closed _ ++ _)) _
    simp only [Contents.filterMap_append, Contents.filterMap_closed]
    exact unpacks_caseSection line _ (Expr.unpacks_gen _ _ guard) strays (Stmt.unpacks_genAll body) table
  | .default_ line strays body => by
    intro table
    exact unpacks_defaultSection line strays (Stmt.unpacks_genAll body) table

theorem Section.unpacks_genAll : (ss : List Section) → (table : SwitchTable) →
    Unpacks (Section.allLists ss).left (Section.genAll ss table)
  | [] => by
    intro table
    exact .pure _
  | sec :: ss => by
    intro table
    show Unpacks (Contents.left (_ ++ _)) _
    simp only [Contents.filterMap_append]
    exact (Section.unpacks_gen sec table).bind fun next => Section.unpacks_genAll ss next

theorem ForeachHead.unpacks_gen (id line : Nat) (key : Option String) :
    (h : ForeachHead) → Unpacks h.lists.left (h.gen id line key)
  | .malformed problem => unpacks_report _ _
  | .unbound bindingLine binding => .refused (refuses_unbound bindingLine (Expr.valued_gen _ _ binding).logs)
  | .key name binding rest => by
    show Unpacks (Contents.left (Contents.dropped _ ++ _)) _
    simp only [Contents.filterMap_append, Contents.filterMap_dropped]
    exact (unpacks_discarding (Expr.valued_gen _ _ binding) (Expr.unpacks_gen _ _ binding)).bind fun _ =>
      ForeachHead.unpacks_gen id line (some name) rest
  | .value byRef name binding body => by
    show Unpacks (Contents.left (Contents.dropped _ ++ _)) _
    simp only [Contents.filterMap_append, Contents.filterMap_dropped]
    exact (unpacks_discarding (Expr.valued_gen _ _ binding) (Expr.unpacks_gen _ _ binding)).bind fun _ =>
      unpacks_foreachLoop id _ (Stmt.unpacks_gen body)

theorem CatchClause.unpacks_gen (table : Nat) : (c : CatchClause) → Unpacks c.lists.left (c.gen table)
  | .malformed r => unpacks_report _ _
  | .clause className binding body => by
    show Unpacks (Contents.left (Contents.closed _)) _
    simp only [Contents.filterMap_closed]
    exact (unpacks_catchBody (Stmt.unpacks_gen body)).before fun _ =>
      .still (.of fun _ => rfl) (fun _ => rfl) fun _ => rfl

theorem CatchClause.unpacks_genAll (table : Nat) :
    (cs : List CatchClause) → Unpacks (CatchClause.allLists cs).left (CatchClause.genAll table cs)
  | [] => .pure ()
  | c :: cs => by
    show Unpacks (Contents.left (_ ++ _)) _
    simp only [Contents.filterMap_append]
    exact (CatchClause.unpacks_gen table c).bind fun _ => CatchClause.unpacks_genAll table cs

theorem Declarator.unpacks_gen (type : TypeSpec) : (d : Declarator) → Unpacks d.lists.left (d.gen type)
  | .plain line name => unpacks_declare line type name
  | .assigned line name assignment => unpacks_assigned line type name _ (Expr.unpacks_gen _ _ assignment)
  | .static line name => unpacks_static line type name #[]
  | .staticValue line name valueLine value => by
    show Unpacks (Contents.left (Contents.closed _)) _
    simp only [Contents.filterMap_closed]
    exact unpacks_staticValue line type name valueLine _ (Expr.unpacks_gen _ _ value)

theorem Declarator.unpacks_genAll (type : TypeSpec) :
    (ds : List Declarator) → Unpacks (Declarator.allLists ds).left (Declarator.genAll type ds)
  | [] => .pure ()
  | d :: ds => by
    show Unpacks (Contents.left (_ ++ _)) _
    simp only [Contents.filterMap_append]
    exact (Declarator.unpacks_gen type d).bind fun _ => Declarator.unpacks_genAll type ds

theorem Member.unpacks_gen : (m : Member) → (c : ClassDef) → Unpacks m.lists.left (m.gen c)
  | .report r => by
    intro c
    exact (unpacks_report _ _).behind fun _ => .pure _
  | .constant head line value => by
    intro c
    show Unpacks (Contents.left (Contents.closed _)) _
    simp only [Contents.filterMap_closed]
    exact (unpacks_memberValue head _ line _ (Expr.unpacks_gen _ _ value)).before fun _ => .pure _
  | .attribute head type => by
    intro c
    exact .pure _
  | .attributeValue head type line value => by
    intro c
    show Unpacks (Contents.left (Contents.closed _)) _
    simp only [Contents.filterMap_closed]
    exact (unpacks_memberValue head _ line _ (Expr.unpacks_gen _ _ value)).before fun _ => .pure _
  | .signature head function params fault => by
    intro c
    exact (unpacks_arguments (Parameter.unpacks_genAll params) fault).before fun _ => .pure _
  | .method head function params fault body => by
    intro c
    show Unpacks (Contents.left (_ ++ Contents.closed _)) _
    simp only [Contents.filterMap_append, Contents.filterMap_closed]
    exact (unpacks_arguments (Parameter.unpacks_genAll params) fault).bind fun _ =>
      (unpacks_functionDef function _ (Stmt.unpacks_gen body)).before fun _ => .pure _

theorem Member.unpacks_genAll : (ms : List Member) → (c : ClassDef) → Unpacks (Member.allLists ms).left (Member.genAll ms c)
  | [] => by
    intro c
    exact .pure _
  | m :: ms => by
    intro c
    show Unpacks (Contents.left (_ ++ _)) _
    simp only [Contents.filterMap_append]
    exact (Member.unpacks_gen m c).bind fun next => Member.unpacks_genAll ms next

theorem Stmt.unpacks_gen : (s : Stmt) → Unpacks s.lists.left s.gen
  | .empty => .pure ()
  | .report r => unpacks_report _ _
  | .sequence items => Stmt.unpacks_genAll items
  | .onLine line body => by
    have mark : Unpacks {} markBoundary := .still (.of fun _ => rfl) (fun _ => rfl) fun _ => rfl
    exact (unpacks_setLine line).behind fun _ => mark.behind fun _ => (Stmt.unpacks_gen body).before fun _ => mark
  | .block items unclosed => unpacks_braces (Stmt.unpacks_genAll items) unclosed
  | .raw text => unpacks_raw text
  | .expression value => unpacks_expression _ (Expr.unpacks_gen _ _ value)
  | .conditional chain => unpacks_inBlock fun id => Chain.unpacks_gen id chain
  | .switch subject strays sections fault => by
    show Unpacks (Contents.left (_ ++ _)) _
    simp only [Contents.filterMap_append]
    exact unpacks_switch (Expr.unpacks_gen _ _ subject) strays (Section.unpacks_genAll sections) fault
  | .switchWithoutBody subject strays r => unpacks_switchWithoutBody (Expr.unpacks_gen _ _ subject) strays r
  | .whileLoop test strays body => by
    show Unpacks (Contents.left (_ ++ _)) _
    simp only [Contents.filterMap_append]
    exact unpacks_whileLoop (Expr.unpacks_gen _ _ test) strays (Stmt.unpacks_gen body)
  | .doLoop body test strays => by
    show Unpacks (Contents.left (_ ++ _)) _
    simp only [Contents.filterMap_append]
    exact unpacks_doLoop (Stmt.unpacks_gen body) (Expr.unpacks_gen _ _ test) strays
  | .doWithoutTest body r => unpacks_doWithoutTest (Stmt.unpacks_gen body) r
  | .forLoop line init test afterTest body post afterPost => by
    show Unpacks (Contents.left (_ ++ (_ ++ (_ ++ _)))) _
    simp only [Contents.filterMap_append]
    exact unpacks_forLoop line (Stmt.unpacks_gen init) _ (Expr.unpacks_gen _ _ test) afterTest (Stmt.unpacks_gen body) _
      (Expr.unpacks_gen _ _ post) afterPost
  | .foreach line source strays head => by
    show Unpacks (Contents.left (_ ++ _)) _
    simp only [Contents.filterMap_append]
    exact unpacks_foreach (Expr.unpacks_gen _ _ source) strays fun id => ForeachHead.unpacks_gen id line none head
  | .tryCatch body clauses fault => by
    show Unpacks (Contents.left (_ ++ _)) _
    simp only [Contents.filterMap_append]
    exact unpacks_tryCatch (Stmt.unpacks_gen body) (fun table => CatchClause.unpacks_genAll table clauses) fault
  | .throw line value => unpacks_throw line _ (Expr.unpacks_gen _ _ value)
  | .loopJump jump line level unterminated => unpacks_loopJump jump line level unterminated
  | .return_ value => unpacks_return_ _ (Expr.unpacks_gen _ _ value)
  | .exit value => unpacks_exit _ (Expr.unpacks_gen _ _ value)
  | .constant name line value => by
    show Unpacks (Contents.left (Contents.closed _)) _
    simp only [Contents.filterMap_closed]
    exact unpacks_constant name line _ (Expr.unpacks_gen _ _ value)
  | .declaration type items fault => (Declarator.unpacks_genAll type items).before fun _ => unpacks_reportFault fault
  | .namespace_ line items => (unpacks_noteNamespaces line).behind fun _ => Stmt.unpacks_genAll items
  | .using_ line => unpacks_noteNamespaces line
  | .function head params fault body => by
    show Unpacks (Contents.left (_ ++ Contents.closed _)) _
    simp only [Contents.filterMap_append, Contents.filterMap_closed]
    exact unpacks_function head (Parameter.unpacks_genAll params) fault (Stmt.unpacks_gen body)
  | .class_ head members fault => unpacks_class_ head (fun c => Member.unpacks_genAll members c) fault

theorem Stmt.unpacks_genAll : (ss : List Stmt) → Unpacks (Stmt.allLists ss).left (Stmt.genAll ss)
  | [] => .pure ()
  | s :: ss => by
    show Unpacks (Contents.left (_ ++ _)) _
    simp only [Contents.filterMap_append]
    exact (Stmt.unpacks_gen s).bind fun _ => Stmt.unpacks_genAll ss

end

theorem Script.unpacks_gen : (script : Script) → Unpacks script.lists.left script.gen
  | .statements items =>
    (Stmt.unpacks_genAll items).before fun _ => (unpacks_settle 0 _).behind fun _ => unpacks_put (by decide) 0 0 .none
  | .expression value stray =>
    (Expr.unpacks_gen _ _ value).before fun _ => (unpacks_reportFault _).behind fun _ =>
      unpacks_put (by decide) _ 1 .none

/-! ### Whole programs -/

/-- All of some lists are left exactly if none is taken. -/
theorem ListUse.filterMap_eq_map_iff (us : List ListUse) :
    us.filterMap ListUse.unpacking? = us.map (fun u => (u.targets : Int)) ↔ ∀ u ∈ us, u.taken = false := by
  induction us with
  | nil => exact iff_of_true rfl nofun
  | cons u us ih =>
      rw [List.map_cons, List.forall_mem_cons]
      cases h : u.taken with
      | true =>
          have lost : u.unpacking? = none := if_pos h
          refine iff_of_false (fun heq => ?_) fun h => absurd h.1 (by decide)
          rw [List.filterMap_cons_none lost] at heq
          have shorter := List.length_filterMap_le ListUse.unpacking? us
          rw [heq, List.length_cons, List.length_map] at shorter
          omega
      | false =>
          have kept : u.unpacking? = some (u.targets : Int) := if_neg (by rw [h]; decide)
          rw [List.filterMap_cons_some kept, List.cons.injEq, ih]
          exact ⟨fun h => ⟨rfl, h.2⟩, fun h => ⟨rfl, h.2⟩⟩

namespace Contents

/-- Some lists without what becomes of them. -/
def targets (c : Contents ListUse) : Contents Int :=
  ⟨c.here.map fun u => u.targets, c.apart.map fun us => us.map fun u => u.targets⟩

/-- Every list keeps its instruction exactly if none stands at the end of a target. -/
theorem left_eq_targets_iff (c : Contents ListUse) :
    c.left = c.targets ↔ (∀ u ∈ c.here, u.taken = false) ∧ ∀ us ∈ c.apart, ∀ u ∈ us, u.taken = false := by
  have split : c.left = c.targets ↔ c.left.here = c.targets.here ∧ c.left.apart = c.targets.apart :=
    ⟨fun h => by rw [h]; exact ⟨rfl, rfl⟩, fun h => Contents.ext h.1 h.2⟩
  rw [split]
  refine and_congr (ListUse.filterMap_eq_map_iff c.here) ?_
  refine List.map_inj_left.trans (forall₂_congr fun us _ => ListUse.filterMap_eq_map_iff us)

end Contents

namespace Config

/-- Of a source without errors, the instructions that take values apart are those of its lists, each with its number
of targets and each in the container that the list is compiled into, in the order of the source; only those of the lists
at the end of a target of an equals sign are missing.  So every list keeps its instruction exactly if none stands there.
Besides the main one, the containers of the program are among those that were filled. -/
theorem lists_unpacked (config : Config) (source : String) (c : Compilation) (read : Tokens)
    (h : (config.compile source).result = .ok c) (he : c.errors = 0) (hread : config.tokens? source = some read) :
    let lists := (Script.read config.mode source.utf8ByteSize read.tokens).lists
    let filled := (config.generate source.utf8ByteSize read).filled
    (⟨c.program.main.unpackings, filled.map fun f => f.code.unpackings⟩ : Contents Int) = lists.left ∧
      (lists.left = lists.targets ↔
        (∀ u ∈ lists.here, u.taken = false) ∧ ∀ us ∈ lists.apart, ∀ u ∈ us, u.taken = false) ∧
      ∀ k ∈ c.program.containers, k.code = c.program.main ∨ k.code = #[] ∨ ∃ f ∈ filled, f.code = k.code := by
  intro lists filled
  obtain ⟨read', hread', hprogram, herrors⟩ := compile_ok h
  obtain rfl : read' = read := Option.some.inj (hread'.symm.trans hread)
  refine ⟨?_, lists.left_eq_targets_iff, fun k hk => ?_⟩
  · have generated := (unpacks_reportAll (lexReports read'.errors)).behind fun _ =>
      Script.unpacks_gen (Script.read config.mode source.utf8ByteSize read'.tokens)
    have added := generated.adds (GenState.initial config) (herrors.symm.trans he)
    rw [hprogram]
    exact added.trans (Contents.empty_append _)
  · rw [hprogram] at hk ⊢
    rcases (Program.lists_containers _ _).mp ⟨k, hk, rfl⟩ with hk | hk
    · exact .inl hk
    · exact .inr ((config.finish_generate source.utf8ByteSize read').origins k.code hk).recorded

/-- In `list($a, $b) = $c; $d = [list($e)];` the first list stands at the end of a target and loses its instruction,
the second one keeps it. -/
theorem lists_unpacked_of_target :
    ∃ c read, (({} : Config).compile "list($a, $b) = $c; $d = [list($e)];").result = .ok c ∧ c.errors = 0 ∧
      ({} : Config).tokens? "list($a, $b) = $c; $d = [list($e)];" = some read ∧
      (Script.read .script "list($a, $b) = $c; $d = [list($e)];".utf8ByteSize read.tokens).lists.here =
        [⟨2, true⟩, ⟨1, false⟩] ∧ c.program.main.unpackings = [1] := by
  let source := "list($a, $b) = $c; $d = [list($e)];"
  have compiled : ((({} : Config).tokens? source).bind fun read =>
      (({} : Config).deliver (({} : Config).generate source.utf8ByteSize read)).result.toOption.map fun c =>
        (c.errors, (Script.read .script source.utf8ByteSize read.tokens).lists.here)) =
      some (0, [⟨2, true⟩, ⟨1, false⟩]) := by
    rw [tokens?_ofList rfl rfl]
    decide +kernel
  obtain ⟨read, c, hread, hr, told⟩ := ok_of_bind compiled
  obtain ⟨errors, hhere⟩ := Prod.mk.inj told
  have unpacked := congrArg Contents.here (lists_unpacked _ _ c read hr errors hread).1
  refine ⟨c, read, hr, errors, hread, hhere, unpacked.trans ?_⟩
  show List.filterMap ListUse.unpacking? (Script.read .script _ read.tokens).lists.here = [1]
  rw [hhere]
  rfl

end Config

end StackScript
