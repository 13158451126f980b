/-
The code of a script.

One recursion over the script hands the generators of the parts to the generator of each construct.
-/
import StackScript.Generator.Control
import StackScript.Generator.Leaf

namespace StackScript

mutual

/-- The code of an expression wanted for `access`, at a place that may be restricted. -/
def Expr.gen (access : Access) (restriction : Option Restriction) : Expr → Gen Unit
  | .missing => pure ()
  | .rejected error => Gen.report error.line (.tree error.fault)
  | .tree root => do
    Gen.restrict restriction root
    Leaf.genTree access root

def Leaf.genTree (access : Access) : Tree Leaf → Gen Unit
  | .leaf _ content => content.gen access
  | .prefixed p op x => Gen.prefixed p.line op (Leaf.genTree access x)
  | .postfixed p op x => Gen.postfixed p.line op (Leaf.genTree access x)
  | .binary p op x y => Gen.binary p.line op (Leaf.genTree access x) (Leaf.genTree access y)
  | .assign p op target value =>
    Gen.assign p.line op (Leaf.genTree access value) (Leaf.genTree access.target target)
  | .ternary p c x y =>
    Gen.ternary p.line (Leaf.genTree access c) (Leaf.genTree access x) (Leaf.genTree access y)
  | .call p f xs =>
    Gen.call p.line xs.length (Leaf.genTrees access.argument xs) (Leaf.genTree access f)
  | .index p x k => Gen.index p.line access.store (Leaf.genTree access x) (Leaf.genTree access.key k)
  | .append p x => Gen.append p.line access.store (Leaf.genTree access x)

def Leaf.genTrees (access : Access) : List (Tree Leaf) → Gen Unit
  | [] => pure ()
  | t :: ts => do
    Leaf.genTree access t
    Leaf.genTrees access ts

def Leaf.gen (access : Access) : Leaf → Gen Unit
  | .unread line => Gen.report line (.tree .missingExpression)
  | .number t => Gen.number t
  | .simpleString text => Gen.simpleString text
  | .template first rest => do
    first.gen
    Piece.genAll rest
    Gen.joinPieces ((first :: rest).countP Piece.isPresent)
  | .variable line name extra => Gen.loadVariable access line name extra
  | .computedVariable line braceLine name stray extra =>
    Gen.computedVariable access line braceLine name.isPresent (name.gen {} none) stray extra
  | .blankVariable line braceLine => Gen.blankVariable line braceLine
  | .name path t => Gen.name path t
  | .array entries incomplete => Gen.array entries.length (Entry.genAll entries) incomplete
  | .list targets => Gen.list (targets.countP Expr.isPresent) (Expr.genTargets targets)
  | .closure line returns params fault captures body =>
    Gen.closure line returns (Parameter.genAll params) fault captures body.gen
  | .construct word argument =>
    Gen.construct word argument.isPresent (argument.gen Access.reading none)

def Piece.gen : Piece → Gen Unit
  | .text text => Gen.string text
  | .value errors root => do
    Gen.reportAll (Gen.lexReports errors)
    Leaf.genTree {} root
  | .rejected errors error => do
    Gen.reportAll (Gen.lexReports errors)
    Gen.report error.line (.tree error.fault)

def Piece.genAll : List Piece → Gen Unit
  | [] => pure ()
  | p :: ps => do
    p.gen
    Piece.genAll ps

def Entry.gen : Entry → Gen Unit
  | .plain line value mark =>
    Gen.plainEntry line (Gen.item mark (value.gen Access.reading mark.restriction))
  | .keyed line key keyMark value mark =>
    Gen.keyedEntry line (Gen.item keyMark (key.gen Access.reading keyMark.restriction))
      (Gen.item mark (value.gen Access.reading mark.restriction))
  | .unkeyed line value mark =>
    Gen.unkeyedEntry line (Gen.item mark (value.gen Access.reading mark.restriction))

def Entry.genAll : List Entry → Gen Unit
  | [] => pure ()
  | e :: es => do
    e.gen
    Entry.genAll es

/-- The targets of a list. -/
def Expr.genTargets : List Expr → Gen Unit
  | [] => pure ()
  | e :: es => do
    e.gen {} (some .listTarget)
    Expr.genTargets es

def Parameter.gen : Parameter → Gen Argument
  | .required name type byRef => return ⟨name, type, byRef, none⟩
  | .optional name type byRef line value => do
    let code ← Gen.thunk line value.isPresent (value.gen {} none)
    return ⟨name, type, byRef, some code⟩

def Parameter.genAll : List Parameter → Gen (List Argument)
  | [] => return []
  | p :: ps => do
    let a ← p.gen
    return a :: (← Parameter.genAll ps)

/-- The branches of an `if` on a block. -/
def Chain.gen (id : Nat) : Chain → Gen Unit
  | .branch test strays body rest =>
    Gen.branch id (test.gen {} none) strays body.gen rest.isDone (rest.gen id)
  | .otherwise body => body.gen
  | .malformed r => Gen.report r.line r.problem
  | .done => pure ()

def Section.gen (table : SwitchTable) : Section → Gen SwitchTable
  | .case_ line guard strays body =>
    Gen.caseSection line guard.isPresent (guard.gen {} none) strays (Stmt.genAll body) table
  | .default_ line strays body => Gen.defaultSection line strays (Stmt.genAll body) table

def Section.genAll : List Section → SwitchTable → Gen SwitchTable
  | [], table => return table
  | s :: ss, table => do
    let table ← s.gen table
    Section.genAll ss table

/-- What follows `as`, on the block of the loop. -/
def ForeachHead.gen (id line : Nat) (key : Option String) : ForeachHead → Gen Unit
  | .malformed problem => Gen.report line problem
  | .unbound bindingLine binding =>
    Gen.unbound bindingLine (binding.gen {} (some .foreachTarget))
  | .key name binding rest => do
    Gen.discarding (binding.gen {} (some .foreachTarget))
    rest.gen id line (some name)
  | .value byRef name binding body => do
    Gen.discarding (binding.gen {} (some .foreachTarget))
    Gen.foreachLoop id ⟨key, name, byRef⟩ body.gen

/-- A clause of the `try` with a table. -/
def CatchClause.gen (table : Nat) : CatchClause → Gen Unit
  | .malformed r => Gen.report r.line r.problem
  | .clause className binding body => do
    let code ← Gen.catchBody body.gen
    Gen.addCatch table ⟨className, binding, code⟩

def CatchClause.genAll (table : Nat) : List CatchClause → Gen Unit
  | [] => pure ()
  | c :: cs => do
    c.gen table
    CatchClause.genAll table cs

def Declarator.gen (type : TypeSpec) : Declarator → Gen Unit
  | .plain line name => Gen.declare line type name
  | .assigned line name assignment =>
    Gen.assigned line type name assignment.isPresent (assignment.gen {} none)
  | .static line name => Gen.static line type name #[]
  | .staticValue line name valueLine value =>
    Gen.staticValue line type name valueLine value.isPresent (value.gen {} none)

def Declarator.genAll (type : TypeSpec) : List Declarator → Gen Unit
  | [] => pure ()
  | d :: ds => do
    d.gen type
    Declarator.genAll type ds

/-- Adds a member to a class. -/
def Member.gen (c : ClassDef) : Member → Gen ClassDef
  | .report r => do
    Gen.report r.line r.problem
    return c
  | .constant head line value => do
    let code ← Gen.memberValue head (.emptyClassConstant head.name) line value.isPresent
      (value.gen {} none)
    return Gen.addAttribute head none (some code) c
  | .attribute head type => return Gen.addAttribute head (some type) none c
  | .attributeValue head type line value => do
    let code ← Gen.memberValue head (.missingAttributeValue head.name) line value.isPresent
      (value.gen {} none)
    return Gen.addAttribute head (some type) (some code) c
  | .signature head function params fault => do
    let args ← Gen.arguments (Parameter.genAll params) fault
    return Gen.addMethod head (Gen.declared function args) c
  | .method head function params fault body => do
    let args ← Gen.arguments (Parameter.genAll params) fault
    return Gen.addMethod head (← Gen.functionDef function args body.gen) c

def Member.genAll : List Member → ClassDef → Gen ClassDef
  | [], c => return c
  | m :: ms, c => do
    let c ← m.gen c
    Member.genAll ms c

def Stmt.gen : Stmt → Gen Unit
  | .empty => pure ()
  | .report r => Gen.report r.line r.problem
  | .sequence items => Stmt.genAll items
  | .onLine line body => do
    Gen.setLine line
    Gen.markBoundary
    body.gen
    Gen.markBoundary
  | .block items unclosed => Gen.braces (Stmt.genAll items) unclosed
  | .raw text => Gen.raw text
  | .expression value => Gen.expression value.isPresent (value.gen {} none)
  | .conditional chain => Gen.conditional fun id => chain.gen id
  | .switch subject strays sections fault =>
    Gen.switch (subject.gen {} none) strays (fun table => Section.genAll sections table) fault
  | .switchWithoutBody subject strays r => Gen.switchWithoutBody (subject.gen {} none) strays r
  | .whileLoop test strays body => Gen.whileLoop (test.gen {} none) strays body.gen
  | .doLoop body test strays => Gen.doLoop body.gen (test.gen {} none) strays
  | .doWithoutTest body r => Gen.doWithoutTest body.gen r
  | .forLoop line init test afterTest body post afterPost =>
    Gen.forLoop line init.gen test.isPresent (test.gen {} none) afterTest body.gen post.isPresent
      (post.gen {} none) afterPost
  | .foreach line source strays head =>
    Gen.foreach (source.gen {} none) strays fun id => head.gen id line none
  | .tryCatch body clauses fault =>
    Gen.tryCatch body.gen (fun table => CatchClause.genAll table clauses) fault
  | .throw line value => Gen.throw line value.isPresent (value.gen {} (some .throwable))
  | .loopJump jump line level unterminated => Gen.loopJump jump line level unterminated
  | .return_ value => Gen.return_ value.isPresent (value.gen {} none)
  | .exit value => Gen.exit value.isPresent (value.gen {} none)
  | .constant name line value => Gen.constant name line value.isPresent (value.gen {} none)
  | .declaration type items fault => do
    Declarator.genAll type items
    Gen.reportFault fault
  | .namespace_ line items => do
    Gen.noteNamespaces line
    Stmt.genAll items
  | .using_ line => Gen.noteNamespaces line
  | .function head params fault body =>
    Gen.function head (Parameter.genAll params) fault body.gen
  | .class_ head members fault =>
    Gen.class_ head (fun c => Member.genAll members c) fault

def Stmt.genAll : List Stmt → Gen Unit
  | [] => pure ()
  | s :: ss => do
    s.gen
    Stmt.genAll ss

end

/-! ### The code of a node, one equation for each construct -/

section Equations

variable {access : Access} {restriction : Option Restriction} {table : SwitchTable} {id line clauseTable : Nat}

theorem Expr.gen_rejected (error : TreeError) :
    (Expr.rejected error).gen access restriction = Gen.report error.line (.tree error.fault) := rfl

theorem Leaf.genTree_prefixed (p : Place) (op : Operator) (x : Tree Leaf) :
    Leaf.genTree access (.prefixed p op x) = Gen.prefixed p.line op (Leaf.genTree access x) := rfl

theorem Leaf.genTree_binary (p : Place) (op : Operator) (x y : Tree Leaf) :
    Leaf.genTree access (.binary p op x y) =
      Gen.binary p.line op (Leaf.genTree access x) (Leaf.genTree access y) := rfl

theorem Leaf.genTree_assign (p : Place) (op : Operator) (target value : Tree Leaf) :
    Leaf.genTree access (.assign p op target value) =
      Gen.assign p.line op (Leaf.genTree access value) (Leaf.genTree access.target target) := rfl

theorem Leaf.genTree_ternary (p : Place) (c x y : Tree Leaf) :
    Leaf.genTree access (.ternary p c x y) =
      Gen.ternary p.line (Leaf.genTree access c) (Leaf.genTree access x) (Leaf.genTree access y) := rfl

theorem Leaf.genTrees_cons (t : Tree Leaf) (ts : List (Tree Leaf)) :
    Leaf.genTrees access (t :: ts) = (do Leaf.genTree access t; Leaf.genTrees access ts) := rfl

theorem Piece.genAll_cons (p : Piece) (ps : List Piece) : Piece.genAll (p :: ps) = (do p.gen; Piece.genAll ps) := rfl

theorem Chain.gen_branch (test : Expr) (strays : List Token) (body : Stmt) (rest : Chain) :
    (Chain.branch test strays body rest).gen id =
      Gen.branch id (test.gen {} none) strays body.gen rest.isDone (rest.gen id) := rfl

theorem Section.gen_case (guard : Expr) (strays : List Token) (body : List Stmt) :
    (Section.case_ line guard strays body).gen table =
      Gen.caseSection line guard.isPresent (guard.gen {} none) strays (Stmt.genAll body) table := rfl

theorem Section.gen_default (strays : List Token) (body : List Stmt) :
    (Section.default_ line strays body).gen table = Gen.defaultSection line strays (Stmt.genAll body) table := rfl

theorem Section.genAll_nil : Section.genAll [] table = pure table := rfl

theorem Section.genAll_cons (s : Section) (ss : List Section) :
    Section.genAll (s :: ss) table = (do let table ← s.gen table; Section.genAll ss table) := rfl

theorem ForeachHead.gen_value (key : Option String) (byRef : Bool) (name : String) (binding : Expr) (body : Stmt) :
    (ForeachHead.value byRef name binding body).gen id line key = (do
      Gen.discarding (binding.gen {} (some .foreachTarget))
      Gen.foreachLoop id ⟨key, name, byRef⟩ body.gen) := rfl

theorem CatchClause.genAll_cons (c : CatchClause) (cs : List CatchClause) :
    CatchClause.genAll clauseTable (c :: cs) = (do c.gen clauseTable; CatchClause.genAll clauseTable cs) := rfl

theorem Stmt.gen_expression (value : Expr) :
    (Stmt.expression value).gen = Gen.expression value.isPresent (value.gen {} none) := rfl

theorem Stmt.gen_switch (subject : Expr) (strays : List Token) (sections : List Section) (fault : Option Report) :
    (Stmt.switch subject strays sections fault).gen =
      Gen.switch (subject.gen {} none) strays (fun table => Section.genAll sections table) fault := rfl

theorem Stmt.gen_switchWithoutBody (subject : Expr) (strays : List Token) (r : Report) :
    (Stmt.switchWithoutBody subject strays r).gen = Gen.switchWithoutBody (subject.gen {} none) strays r := rfl

theorem Stmt.gen_whileLoop (test : Expr) (strays : List Token) (body : Stmt) :
    (Stmt.whileLoop test strays body).gen = Gen.whileLoop (test.gen {} none) strays body.gen := rfl

theorem Stmt.gen_doLoop (body : Stmt) (test : Expr) (strays : List Token) :
    (Stmt.doLoop body test strays).gen = Gen.doLoop body.gen (test.gen {} none) strays := rfl

theorem Stmt.gen_doWithoutTest (body : Stmt) (r : Report) :
    (Stmt.doWithoutTest body r).gen = Gen.doWithoutTest body.gen r := rfl

/-- The first part of a `for` loop stands in front of a loop without one. -/
theorem Stmt.gen_forLoop (init : Stmt) (test : Expr) (afterTest : Bool) (body : Stmt) (post : Expr) (afterPost : Bool) :
    (Stmt.forLoop line init test afterTest body post afterPost).gen = (do
      init.gen
      Gen.forLoop line (pure ()) test.isPresent (test.gen {} none) afterTest body.gen post.isPresent (post.gen {} none)
        afterPost) := by
  show Gen.forLoop line init.gen test.isPresent (test.gen {} none) afterTest body.gen post.isPresent (post.gen {} none)
    afterPost = _
  unfold Gen.forLoop
  rw [pure_bind]

theorem Stmt.gen_foreach (source : Expr) (strays : List Token) (head : ForeachHead) :
    (Stmt.foreach line source strays head).gen =
      Gen.foreach (source.gen {} none) strays fun id => head.gen id line none := rfl

theorem Stmt.gen_tryCatch (body : Stmt) (clauses : List CatchClause) (fault : Option Report) :
    (Stmt.tryCatch body clauses fault).gen =
      Gen.tryCatch body.gen (fun table => CatchClause.genAll table clauses) fault := rfl

theorem Stmt.gen_throw (value : Expr) :
    (Stmt.throw line value).gen = Gen.throw line value.isPresent (value.gen {} (some .throwable)) := rfl

theorem Stmt.gen_loopJump (jump : LoopJump) (level : Nat) (unterminated : Bool) :
    (Stmt.loopJump jump line level unterminated).gen = Gen.loopJump jump line level unterminated := rfl

theorem Stmt.gen_class (head : ClassHead) (members : List Member) (fault : Option ErrorReport) :
    (Stmt.class_ head members fault).gen = Gen.class_ head (fun c => Member.genAll members c) fault := rfl

theorem Stmt.genAll_cons (s : Stmt) (ss : List Stmt) : Stmt.genAll (s :: ss) = (do s.gen; Stmt.genAll ss) := rfl

end Equations

namespace Script

/-- The code of a whole script.  An exception nobody catches ends it. -/
def gen : Script → Gen Unit
  | statements items => do
    Stmt.genAll items
    Gen.settle 0 (some .throw)
    Gen.put .done 0 0 .none
  | expression value stray => do
    value.gen {} none
    Gen.reportFault (stray.map fun t => ⟨t.line, .misplacedToken t.text⟩)
    Gen.put .done (Gen.flag value.isPresent) 1 .none

end Script

end StackScript
