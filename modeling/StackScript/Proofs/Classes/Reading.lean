/-
The classes of a script are read so that they fit.

Whatever the tokens of a declaration are, the members that are read from them fit its head: constants are marked as
such, an interface has nothing but constants and signatures, and a virtual method where there may be none comes with an
error.  So every reader yields parts whose generators keep the classes of the program well formed, by induction on how
deep it looks.
-/
import StackScript.Proofs.Classes.Generation
import StackScript.Proofs.Run.Compilation
import StackScript.Proofs.Yields

namespace StackScript

open Gen

/-! ### What is read -/

/-- The generator keeps the classes of the program well formed. -/
abbrev Gen.Fitting {α : Type} (m : Gen α) : Prop := fitting.Claims [] m

def Expr.Fitting (e : Expr) : Prop := ∀ access restriction, Gen.Fitting (e.gen access restriction)

def Leaf.Fitting (l : Leaf) : Prop := ∀ access, Gen.Fitting (l.gen access)

/-- Readers of parts that keep the classes of the program well formed. -/
structure Readers.Fitting (r : Readers) : Prop where
  stmt : r.stmt.Yields fun st => Gen.Fitting st.gen
  expr : ∀ atComma, (r.expr atComma).Yields Expr.Fitting
  scope : r.scope.Yields fun items => ∀ i ∈ items, Gen.Fitting i.gen

theorem Stmt.fitting_report (r : Report) : Gen.Fitting (Stmt.report r).gen := by
  exact fitting.still (still_report r.line r.problem)

theorem Stmt.fitting_genAll {items : List Stmt} (h : ∀ i ∈ items, Gen.Fitting i.gen) :
    Gen.Fitting (Stmt.genAll items) := by
  induction items with
  | nil => exact fitting.still (still_pure ())
  | cons i is ih =>
      exact fitting.bind (h i List.mem_cons_self) fun _ => ih fun j hj => h j (List.mem_cons_of_mem i hj)

theorem Stmt.fitting_onLine (line : Nat) {body : Stmt} (h : Gen.Fitting body.gen) :
    Gen.Fitting (Stmt.onLine line body).gen := by
  exact fitting.behind (still_setLine line) fun _ => fitting.behind still_markBoundary fun _ =>
    fitting.before h fun _ => still_markBoundary

theorem Expr.fitting_missing : Expr.missing.Fitting := by
  intro access restriction
  exact fitting.still (still_pure ())

theorem Expr.fitting_rejected (error : TreeError) : (Expr.rejected error).Fitting := by
  intro access restriction
  exact fitting.still (still_report _ _)

theorem Parameter.fitting_genAll {params : List Parameter} (h : ∀ p ∈ params, Gen.Fitting p.gen) :
    Gen.Fitting (Parameter.genAll params) := by
  induction params with
  | nil => exact fitting.still (still_pure [])
  | cons p ps ih =>
      exact fitting.bind (h p List.mem_cons_self) fun _ =>
        fitting.before (ih fun q hq => h q (List.mem_cons_of_mem p hq)) fun _ => still_pure _

namespace Parse

variable {r : Readers}

abbrev YieldsStmt (p : Parse Stmt) : Prop := p.Yields fun st => Gen.Fitting st.gen

theorem yieldsStmt_report (line : Nat) (problem : Problem) : YieldsStmt (pure (.report ⟨line, problem⟩)) :=
  .pure (Stmt.fitting_report _)

theorem yieldsStmt_dropped (line : Nat) (problem : Problem) : YieldsStmt (dropped line problem) :=
  .behind fun _ => yieldsStmt_report line problem

theorem yieldsStmt_recovered (line : Nat) (problem : Problem) : YieldsStmt (recovered line problem) :=
  .behind fun _ => yieldsStmt_report line problem

theorem yields_condition (hr : r.Fitting) (start stop : Nat) :
    (condition r start stop).Yields fun read => read.1.Fitting := by
  refine Yields.within ((hr.expr false).bind fun value hvalue => .behind fun strays => .pure ?_) start stop
  exact hvalue

theorem yields_filling (hr : r.Fitting) : (filling r).Yields fun read => read.1.Fitting :=
  (hr.expr false).bind fun _ he => .behind fun _ => .ite (.pure he) (.behind fun _ => .pure he)

/-! ### Blocks, arguments and functions -/

theorem yields_blockItems (hr : r.Fitting) (n : Nat) :
    (blockItems r n).Yields fun read => ∀ i ∈ read.1, Gen.Fitting i.gen := by
  induction n with
  | zero => exact .pure (List.forall_mem_nil _)
  | succ n ih =>
      unfold blockItems
      refine .behind fun next => ?_
      split
      · exact .pure (List.forall_mem_nil _)
      · refine .ite (.behind fun _ => .pure (List.forall_mem_nil _)) ?_
        exact hr.stmt.bind fun item hitem => ih.bind fun rest hrest => .pure (List.forall_mem_cons.mpr ⟨hitem, hrest⟩)

theorem yieldsStmt_braces (hr : r.Fitting) : YieldsStmt (braces r) := by
  refine .behind fun start => .behind fun _ => .behind fun s => (yields_blockItems hr _).bind fun read hread => .pure ?_
  exact fitting.braces (Stmt.fitting_genAll hread) _

theorem yieldsStmt_block (hr : r.Fitting) : YieldsStmt (block r) := by
  have rest (p : Parse Stmt) (hp : YieldsStmt p) : YieldsStmt (p >>= fun body => skipSemicolons >>= fun _ => pure body) :=
    hp.bind fun body hbody => .behind fun _ => .pure hbody
  exact .behind fun opened => rest _ (.ite (yieldsStmt_braces hr) hr.stmt)

theorem yields_argumentDefault (hr : r.Fitting) (line : Nat) :
    (argumentDefault r line).Yields fun read => ∀ value, read = .ok value → value.2.Fitting := by
  refine .behind fun s => .ite (.pure fun value h => by cases h) (.behind fun valueLine => ?_)
  refine ((hr.expr false).within _ _).bind fun value hvalue => .behind fun _ => .pure ?_
  rintro read ⟨⟩
  exact hvalue

theorem yields_argument (hr : r.Fitting) (t : Token) :
    (argument r t).Yields fun read => ∀ p, read = .ok p → Gen.Fitting p.gen := by
  unfold argument
  refine .behind fun type => ?_
  split
  · exact .pure fun p h => by cases h
  · refine .behind fun byRef => .behind fun ended => .ite (.pure fun p h => by cases h) (.behind fun name => ?_)
    split
    · exact .pure fun p h => by cases h
    · refine .behind fun _ => .behind fun _ => .behind fun equals => .ite ?_ (.pure ?_)
      · refine (yields_argumentDefault hr t.line).bind fun default hdefault => ?_
        split
        · exact .pure fun p h => by cases h
        · rename_i line value
          refine .pure ?_
          rintro p ⟨⟩
          exact fitting.before (fitting.thunk line value (hdefault (line, value) rfl {} none)) fun _ => still_pure _
      · rintro p ⟨⟩
        exact fitting.still (still_pure _)

theorem yields_arguments (hr : r.Fitting) (n : Nat) :
    (arguments r n).Yields fun read => ∀ p ∈ read.1, Gen.Fitting p.gen := by
  induction n with
  | zero => exact .pure (List.forall_mem_nil _)
  | succ n ih =>
      unfold arguments
      refine .behind fun next => ?_
      split
      · exact .pure (List.forall_mem_nil _)
      · refine (yields_argument hr _).bind fun read hread => ?_
        split
        · exact .pure (List.forall_mem_nil _)
        · have first := hread _ rfl
          refine .behind fun behind => ?_
          split
          · exact .pure (List.forall_mem_singleton.mpr first)
          · exact .ite (.behind fun _ => ih.bind fun rest hrest => .pure (List.forall_mem_cons.mpr ⟨first, hrest⟩))
              (.pure (List.forall_mem_singleton.mpr first))

theorem yields_signature? (hr : r.Fitting) :
    (signature? r).Yields fun read => ∀ params, read = some params → Gen.Fitting (Parameter.genAll params.1) := by
  unfold signature?
  refine .behind fun group => ?_
  split
  · exact .pure fun params h => by cases h
  · refine (Yields.within (.behind fun _ => yields_arguments hr _) _ _).bind fun read hread => .behind fun _ => .pure ?_
    rintro params ⟨⟩
    exact Parameter.fitting_genAll hread

theorem yields_closure (hr : r.Fitting) : (closure r).Yields Leaf.Fitting := by
  unfold closure
  refine .behind fun here => .behind fun returns => .behind fun _ => .behind fun _ => ?_
  refine (yields_signature? hr).bind fun read hread => ?_
  split
  · refine .pure fun access => ?_
    exact fitting.still (still_report _ _)
  · rename_i params fault
    have captured (captures : Option CaptureList) : Yields (do
        return .closure here returns params fault captures (← block r)) Leaf.Fitting := by
      refine (yieldsStmt_block hr).bind fun body hbody => .pure fun access => ?_
      exact fitting.closure here returns (hread (params, fault) rfl) fault captures hbody
    exact .behind fun opened => .ite (.behind captured) (captured none)

theorem yieldsStmt_function (hr : r.Fitting) : YieldsStmt (functionDeclaration r) := by
  unfold functionDeclaration
  refine .behind fun here => .behind fun returns => .behind fun _ => .behind fun byRef => .behind fun next => ?_
  split
  · exact .behind fun _ => .behind fun _ => yieldsStmt_report _ _
  · refine .behind fun _ => .behind fun opened => .ite ?_ (.behind fun _ => yieldsStmt_report _ _)
    refine .behind fun parenLine => (yields_signature? hr).bind fun read hread => ?_
    split
    · exact .behind fun _ => yieldsStmt_report _ _
    · rename_i params fault
      refine (yieldsStmt_block hr).bind fun body hbody => .pure ?_
      exact fitting.function _ (hread (params, fault) rfl) fault hbody

/-! ### Leaves -/

theorem piece_fitting (hr : r.Fitting) (line : Nat) (part : StringLiteral.Part) : Gen.Fitting (piece r line part).gen := by
  unfold piece
  split
  · exact fitting.still still_loadConstant
  · rename_i cs
    dsimp only
    have read := hr.expr false (TokenStream.ofList (Tokens.ofSource (String.ofList cs) line).tokens)
    split
    · rename_i root hroot
      rw [hroot] at read
      have tree := read {} none
      exact fitting.behind (still_reportAll _) fun _ => tree
    · exact fitting.still ((still_reportAll _).bind fun _ => still_report _ _)
    · exact fitting.still ((still_reportAll _).bind fun _ => still_report _ _)

theorem template_fitting (hr : r.Fitting) (t : Token) : (template r t).Fitting := by
  have pieces (parts : List StringLiteral.Part) : Gen.Fitting (Piece.genAll (parts.map (piece r t.line))) := by
    induction parts with
    | nil => exact fitting.still (still_pure ())
    | cons part parts ih =>
        exact fitting.bind (piece_fitting hr t.line part) fun _ => ih
  intro access
  unfold template
  split
  · exact fitting.still (still_loadConstant.bind fun _ => (still_pure ()).bind fun _ => still_joinPieces _)
  · exact fitting.bind (piece_fitting hr t.line _) fun _ => fitting.before (pieces _) fun _ => still_joinPieces _

theorem unread_fitting (line : Nat) : (Leaf.unread line).Fitting := by
  intro access
  exact fitting.still (still_report _ _)

theorem yields_variableLeaf (hr : r.Fitting) : (variableLeaf r).Yields Leaf.Fitting := by
  have blank (line braceLine : Nat) : (Leaf.blankVariable line braceLine).Fitting := by
    intro access
    exact fitting.still (still_blankVariable line braceLine)
  unfold variableLeaf
  refine .behind fun here => .behind fun before => .behind fun _ => .behind fun pos => .behind fun next => ?_
  dsimp only
  split
  · exact .pure (blank _ _)
  · refine .ite (.pure fun access => ?_) (.ite (.behind fun s => .ite (.pure (blank _ _)) ?_) (.pure (blank _ _)))
    · exact fitting.still (still_loadVariable access _ _ _)
    · refine ((yields_filling hr).within _ _).bind fun read hread => .pure fun access => ?_
      exact fitting.computedVariable access _ _ _ (hread {} none) _ _

theorem yields_nameLeaf : nameLeaf.Yields Leaf.Fitting := by
  refine .behind fun s => ?_
  dsimp only
  split
  · refine .pure fun access => ?_
    exact fitting.still (still_name _ _)
  · exact .pure (unread_fitting _)

theorem yields_item (hr : r.Fitting) (start stop : Nat) : (item r start stop).Yields fun read => read.1.Fitting := by
  refine .behind fun s => .ite ?_ ?_
  · exact ((hr.expr false).within _ _).bind fun _ hvalue => .pure hvalue
  · exact ((yields_filling hr).within _ _).bind fun _ hread => .pure hread

theorem yields_entry (hr : r.Fitting) (start stop : Nat) :
    (entry r start stop).Yields fun read => ∀ e, read = .ok e → Gen.Fitting e.gen := by
  unfold entry
  refine .behind fun s => .behind fun arrow => ?_
  dsimp only
  split
  · refine (yields_item hr start stop).bind fun read hread => .pure ?_
    rintro e ⟨⟩
    exact fitting.plainEntry _ (fitting.item _ (hread _ _))
  · refine .ite (.pure fun e h => by cases h) ((yields_item hr _ stop).bind fun value hvalue => ?_)
    refine .ite (.pure ?_) ((yields_item hr start _).bind fun key hkey => .pure ?_)
    · rintro e ⟨⟩
      exact fitting.unkeyedEntry _ (fitting.item _ (hvalue _ _))
    · rintro e ⟨⟩
      exact fitting.keyedEntry _ (fitting.item _ (hkey _ _)) (fitting.item _ (hvalue _ _))

theorem yields_entries (hr : r.Fitting) (pieces : List (Nat × Nat)) :
    (entries r pieces).Yields fun read => Gen.Fitting (Entry.genAll read.1) := by
  have empty : Gen.Fitting (Entry.genAll []) := fitting.still (still_pure ())
  induction pieces with
  | nil => exact .pure empty
  | cons piece pieces ih =>
      unfold entries
      refine (yields_entry hr piece.1 piece.2).bind fun read hread => ?_
      split
      · exact .pure empty
      · refine ih.bind fun rest hrest => .pure ?_
        exact fitting.bind (hread _ rfl) fun _ => hrest

theorem yields_targets (hr : r.Fitting) (pieces : List (Nat × Nat)) :
    Yields (pieces.mapM fun (start, stop) => within start stop (r.expr false))
      fun targets => Gen.Fitting (Expr.genTargets targets) := by
  induction pieces with
  | nil => exact .pure (fitting.still (still_pure ()))
  | cons piece pieces ih =>
      rw [List.mapM_cons]
      refine ((hr.expr false).within _ _).bind fun target htarget => ih.bind fun rest hrest => .pure ?_
      exact fitting.bind (htarget _ _) fun _ => hrest

theorem yields_tokenLeaf {f : Token → Leaf} (h : ∀ t, (f t).Fitting) : (tokenLeaf f).Yields Leaf.Fitting := by
  refine .behind fun next => ?_
  split
  · exact .pure (h _)
  · exact .behind fun _ => .pure (unread_fitting _)

theorem yields_leaf (hr : r.Fitting) (kind : LeafKind) : (leaf r kind).Yields Leaf.Fitting := by
  cases kind with
  | number =>
      refine yields_tokenLeaf fun t access => ?_
      exact fitting.still (still_number t)
  | simpleString =>
      refine yields_tokenLeaf fun t access => ?_
      exact fitting.still still_loadConstant
  | template => exact yields_tokenLeaf (template_fitting hr)
  | «variable» => exact yields_variableLeaf hr
  | name => exact yields_nameLeaf
  | array =>
      refine .behind fun pieces => (yields_entries hr pieces).bind fun read hread => .pure fun access => ?_
      exact fitting.array _ hread _
  | list =>
      refine .behind fun pieces => (yields_targets hr pieces).bind fun targets htargets => .pure fun access => ?_
      exact fitting.list _ htargets
  | closure => exact yields_closure hr
  | construct word =>
      refine .behind fun next => ?_
      split
      · exact .behind fun _ => .pure (unread_fitting _)
      · refine (hr.expr false).bind fun argument hargument => .pure fun access => ?_
        exact fitting.construct _ _ (hargument _ _)

mutual

/-- A tree whose leaves are read. -/
theorem tree_fitting {f : Place → LeafKind → Leaf} (hf : ∀ place kind, (f place kind).Fitting) (access : Access) :
    (t : Node) → Gen.Fitting (Leaf.genTree access (t.mapLeaves f))
  | .leaf p kind => hf p kind access
  | .prefixed _ op x => fitting.prefixed _ op (tree_fitting hf access x)
  | .postfixed _ op x => fitting.postfixed _ op (tree_fitting hf access x)
  | .binary _ op x y => fitting.binary _ op (tree_fitting hf access x) (tree_fitting hf access y)
  | .assign _ op target value =>
    fitting.assign _ op (tree_fitting hf access value) (tree_fitting hf access.target target)
  | .ternary _ c x y =>
    fitting.ternary _ (tree_fitting hf access c) (tree_fitting hf access x) (tree_fitting hf access y)
  | .call _ g xs => fitting.call _ _ (trees_fitting hf access.argument xs) (tree_fitting hf access g)
  | .index _ x k => fitting.index _ _ (tree_fitting hf access x) (tree_fitting hf access.key k)
  | .append _ x => fitting.append _ _ (tree_fitting hf access x)

theorem trees_fitting {f : Place → LeafKind → Leaf} (hf : ∀ place kind, (f place kind).Fitting) (access : Access) :
    (ts : List Node) → Gen.Fitting (Leaf.genTrees access (Tree.mapAllLeaves f ts))
  | [] => fitting.still (still_pure ())
  | t :: ts => fitting.bind (tree_fitting hf access t) fun _ => trees_fitting hf access ts

end

theorem yields_expr (hr : r.Fitting) (atComma : Bool) : (expr r atComma).Yields Expr.Fitting := by
  unfold expr
  refine .behind fun s => .ite (.pure Expr.fitting_missing) (.behind fun _ => ?_)
  split
  · exact .pure (Expr.fitting_rejected _)
  · exact .pure Expr.fitting_missing
  · rename_i root _
    refine .pure fun access restriction => ?_
    exact fitting.behind (still_restrict restriction _) fun _ =>
      tree_fitting (fun place kind => yields_leaf hr kind _) access root

/-! ### Declarations of constants, variables and namespaces -/

theorem yieldsStmt_constant (hr : r.Fitting) : YieldsStmt (constant r) := by
  unfold constant
  refine .behind fun here => .behind fun _ => .behind fun next => ?_
  split
  · exact yieldsStmt_recovered _ _
  · refine .ite (yieldsStmt_recovered _ _) (.behind fun _ => .behind fun equals => .ite ?_ (yieldsStmt_recovered _ _))
    refine .behind fun valueLine => (hr.expr false).bind fun value hvalue => .pure ?_
    exact fitting.constant _ valueLine value (hvalue {} none)

abbrev YieldsDeclarator (p : Parse Declarator) : Prop := p.Yields fun d => ∀ type, Gen.Fitting (d.gen type)

theorem yields_localDeclarator (hr : r.Fitting) (name : String) : YieldsDeclarator (localDeclarator r name) := by
  refine .behind fun here => .behind fun next => .ite ?_ (.behind fun _ => .behind fun _ => .pure fun type => ?_)
  · refine (hr.expr true).bind fun value hvalue => .pure fun type => ?_
    exact fitting.assigned _ _ _ _ (hvalue {} none)
  · exact fitting.still (still_declare _ _ _)

theorem yields_staticDeclarator (hr : r.Fitting) (name : String) : YieldsDeclarator (staticDeclarator r name) := by
  refine .behind fun here => .behind fun _ => .behind fun _ => .behind fun equals => .ite ?_ (.pure fun type => ?_)
  · refine .behind fun valueLine => (hr.expr true).bind fun value hvalue => .pure fun type => ?_
    exact fitting.staticValue _ _ _ _ value (hvalue {} none)
  · exact fitting.still (still_static _ _ _ _)

theorem yields_declarators (hr : r.Fitting) (line : Nat) (isStatic : Bool) (n : Nat) :
    (declarators r line isStatic n).Yields fun read => ∀ type, Gen.Fitting (Declarator.genAll type read.1) := by
  have empty (type : TypeSpec) : Gen.Fitting (Declarator.genAll type []) := fitting.still (still_pure ())
  induction n with
  | zero => exact .pure empty
  | succ n ih =>
      unfold declarators
      refine .behind fun next => ?_
      split
      · exact .behind fun _ => .behind fun _ => .pure empty
      · rename_i name
        have single {d : Declarator} (hd : ∀ type, Gen.Fitting (d.gen type)) (type : TypeSpec) :
            Gen.Fitting (Declarator.genAll type [d]) := by
          exact fitting.bind (hd type) fun _ => empty type
        refine .ite ((yields_staticDeclarator hr name).bind fun d hd => ?_)
          ((yields_localDeclarator hr name).bind fun d hd => ?_)
        all_goals
          refine .behind fun behind => ?_
          split
          · exact .pure (single hd)
          · refine .ite (.pure (single hd)) (.ite (.behind fun _ => ih.bind fun read hread => .pure fun type => ?_)
              (.behind fun _ => .pure (single hd)))
            exact fitting.bind (hd type) fun _ => hread type

theorem yieldsStmt_variables (hr : r.Fitting) : YieldsStmt (variableDeclaration r) := by
  unfold variableDeclaration
  refine .behind fun here => .behind fun isStatic => .behind fun type => ?_
  split
  · exact .behind fun _ => yieldsStmt_recovered _ _
  · refine .behind fun s => (yields_declarators hr here isStatic _).bind fun read hread => .pure ?_
    exact fitting.before (hread _) fun _ => still_reportFault _

theorem yieldsStmt_namespace (hr : r.Fitting) : YieldsStmt (namespaceDeclaration r) := by
  unfold namespaceDeclaration
  refine .behind fun here => .behind fun _ => .behind fun next => ?_
  split
  · exact yieldsStmt_dropped _ _
  · refine .behind fun _ => .behind fun opened => .ite (.behind fun _ => yieldsStmt_dropped _ _) (.behind fun group => ?_)
    split
    · exact .behind fun _ => yieldsStmt_report _ _
    · refine (hr.scope.within _ _).bind fun items hitems => .behind fun _ => .pure ?_
      exact fitting.behind (still_noteNamespaces here) fun _ => Stmt.fitting_genAll hitems

theorem yieldsStmt_using : YieldsStmt usingStatement := by
  unfold usingStatement
  have ends (here : Nat) : YieldsStmt (do
      if ← check [.semicolon] then return .using_ here
      else recovered here (.usingUnterminated (textOf (← peek)))) := by
    refine .behind fun ended => .ite (.pure ?_) (.behind fun _ => yieldsStmt_recovered _ _)
    exact fitting.still (still_noteNamespaces here)
  exact .behind fun here => .behind fun _ => .behind fun _ => .behind fun renamed =>
    .ite (.behind fun _ => ends here) (ends here)

end Parse

end StackScript
