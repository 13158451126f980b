/-
Names in the code of a script.

Generation follows the script: where its mentions are proper, each construct makes a history of names from those of
its parts.
-/
import StackScript.Proofs.Naming.Generation

namespace StackScript

namespace Gen

variable {params : Gen (List Argument)} {body : Gen Unit} [Names params] [Names body]

/-- A function is called as its head says, and is of the kind that its head says. -/
theorem result_functionDef (head : FunctionHead) (args : List Argument) (body : Gen Unit) (s : GenState) :
    (result (functionDef head args body) s).name = head.name ∧
      (result (functionDef head args body) s).flags = head.flags := by
  unfold functionDef
  split
  · exact ⟨rfl, rfl⟩
  · exact ⟨rfl, rfl⟩

/-- A declared function is installed behind its body. -/
theorem names_function {head : FunctionHead} (hhead : (Mention.function head).IsProper) {fault : Option Report}
    (hfault : Proper (Mention.fault fault)) : Names (function head params fault body) := by
  refine Names.bind (names_arguments hfault) fun args => ⟨fun s => ?_⟩
  have made := result_functionDef head args body s
  have inside : Names (functionDef head args body) := inferInstance
  have duplicate : Names (report head.line (.duplicateFunction head.name)) := names_report _ trivial
  have behind (installed : Bool) : Names (if !installed then report head.line (.duplicateFunction head.name) else pure ()) :=
    inferInstance
  obtain ⟨ls, generated⟩ := inside.naming s
  have declared := Naming.declared (after (functionDef head args body) s) (made.1 ▸ hhead.1) (made.2 ▸ hhead.2)
  obtain ⟨ls', told⟩ := (behind (result (installFunction _) _)).naming (after (installFunction _) _)
  exact ⟨_, (generated.trans declared).trans told⟩

/-- An anonymous function draws its name in front of everything else, and is loaded behind its body. -/
theorem names_closure (line : Nat) (returns : TypeSpec) {fault : Option Report} (hfault : Proper (Mention.fault fault))
    (captures : Option CaptureList) : Names (closure line returns params fault captures body) := by
  have args : Names (arguments params fault) := names_arguments hfault
  refine ⟨fun s => ?_⟩
  let head : FunctionHead :=
    ⟨result nextClosureName s, returns, line, { isAnonymous := true, isClosure := captures.isSome }⟩
  have inside : Names (do
      let args ← arguments params fault
      captureReports captures
      functionDef head args body) := inferInstance
  obtain ⟨ls, generated⟩ := inside.naming (after nextClosureName s)
  have made := result_functionDef head (result (arguments params fault) (after nextClosureName s)) body
    (after (captureReports captures) (after (arguments params fault) (after nextClosureName s)))
  exact ⟨_, .anonymous made.1 (congrArg FunctionFlags.isAnonymous made.2) generated⟩

end Gen

open Gen

mutual

theorem Expr.names (access : Access) (restriction : Option Restriction) :
    (e : Expr) → Proper e.mentions → Names (e.gen access restriction)
  | .missing => by
    intro
    show Names (pure _)
    infer_instance
  | .rejected error => by
    intro
    exact names_report _ trivial
  | .tree root => by
    intro h
    show Names (_ >>= _)
    have tree := Leaf.names_tree access root h
    infer_instance

theorem Leaf.names_tree (access : Access) : (t : Tree Leaf) → Proper (Leaf.treeMentions t) → Names (Leaf.genTree access t)
  | .leaf p content => by
    intro h
    exact content.names access h
  | .prefixed p op x => by
    intro h
    show Names (prefixed _ _ _)
    have value := Leaf.names_tree access x h
    infer_instance
  | .postfixed p op x => by
    intro h
    show Names (postfixed _ _ _)
    have value := Leaf.names_tree access x h
    infer_instance
  | .binary p op x y => by
    intro h
    show Names (binary _ _ _ _)
    have left := Leaf.names_tree access x h.left
    have right := Leaf.names_tree access y h.right
    infer_instance
  | .assign p op target value => by
    intro h
    show Names (assign _ _ _ _)
    have left := Leaf.names_tree access.target target h.left
    have right := Leaf.names_tree access value h.right
    infer_instance
  | .ternary p c x y => by
    intro h
    show Names (ternary _ _ _ _)
    have test := Leaf.names_tree access c h.left
    have left := Leaf.names_tree access x h.right.left
    have right := Leaf.names_tree access y h.right.right
    infer_instance
  | .call p f xs => by
    intro h
    show Names (call _ _ _ _)
    have callee := Leaf.names_tree access f h.left
    have arguments := Leaf.names_trees access.argument xs h.right
    infer_instance
  | .index p x k => by
    intro h
    show Names (index _ _ _ _)
    have value := Leaf.names_tree access x h.left
    have key := Leaf.names_tree access.key k h.right
    infer_instance
  | .append p x => by
    intro h
    show Names (append _ _ _)
    have value := Leaf.names_tree access x h
    infer_instance

theorem Leaf.names_trees (access : Access) :
    (ts : List (Tree Leaf)) → Proper (Leaf.treesMentions ts) → Names (Leaf.genTrees access ts)
  | [] => by
    intro
    show Names (pure _)
    infer_instance
  | t :: ts => by
    intro h
    show Names (_ >>= _)
    have first := Leaf.names_tree access t h.left
    have rest := Leaf.names_trees access ts h.right
    infer_instance

theorem Leaf.names (access : Access) : (l : Leaf) → Proper l.mentions → Names (l.gen access)
  | .unread line => by
    intro
    exact names_report _ trivial
  | .number t => by
    intro
    show Names (number _)
    infer_instance
  | .simpleString text => by
    intro
    show Names (simpleString _)
    infer_instance
  | .template first rest => by
    intro h
    show Names (_ >>= _)
    have first := first.names h.left
    have rest := Piece.names_all rest h.right
    infer_instance
  | .variable line name extra => by
    intro
    show Names (loadVariable _ _ _ _)
    infer_instance
  | .computedVariable line braceLine name stray extra => by
    intro h
    show Names (computedVariable _ _ _ _ _ _ _)
    have name := name.names {} none h
    infer_instance
  | .blankVariable line braceLine => by
    intro
    show Names (blankVariable _ _)
    infer_instance
  | .name path t => by
    intro
    show Names (name _ _)
    infer_instance
  | .array entries incomplete => by
    intro h
    show Names (array _ _ _)
    have entries := Entry.names_all entries h
    infer_instance
  | .list targets => by
    intro h
    show Names (list _ _)
    have targets := Expr.names_targets targets h
    infer_instance
  | .closure line returns params fault captures body => by
    intro h
    have params := Parameter.names_all params h.left
    have body := body.names h.right.right
    exact names_closure line returns h.right.left captures
  | .construct word argument => by
    intro h
    show Names (construct _ _ _)
    have argument := argument.names .reading none h
    infer_instance

theorem Piece.names : (x : Piece) → Proper x.mentions → Names x.gen
  | .text text => by
    intro
    show Names (string _)
    infer_instance
  | .value errors root => by
    intro h
    have tree := Leaf.names_tree {} root h
    exact (names_lexReports errors).bind fun _ => tree
  | .rejected errors error => by
    intro
    exact (names_lexReports errors).bind fun _ => names_report _ trivial

theorem Piece.names_all : (xs : List Piece) → Proper (Piece.allMentions xs) → Names (Piece.genAll xs)
  | [] => by
    intro
    show Names (pure _)
    infer_instance
  | x :: xs => by
    intro h
    show Names (_ >>= _)
    have first := x.names h.left
    have rest := Piece.names_all xs h.right
    infer_instance

theorem Entry.names : (e : Entry) → Proper e.mentions → Names e.gen
  | .plain line value mark => by
    intro h
    show Names (plainEntry _ _)
    have value := value.names .reading mark.restriction h
    infer_instance
  | .keyed line key keyMark value mark => by
    intro h
    show Names (keyedEntry _ _ _)
    have key := key.names .reading keyMark.restriction h.left
    have value := value.names .reading mark.restriction h.right
    infer_instance
  | .unkeyed line value mark => by
    intro h
    show Names (unkeyedEntry _ _)
    have value := value.names .reading mark.restriction h
    infer_instance

theorem Entry.names_all : (es : List Entry) → Proper (Entry.allMentions es) → Names (Entry.genAll es)
  | [] => by
    intro
    show Names (pure _)
    infer_instance
  | e :: es => by
    intro h
    show Names (_ >>= _)
    have first := e.names h.left
    have rest := Entry.names_all es h.right
    infer_instance

theorem Expr.names_targets : (es : List Expr) → Proper (Expr.allMentions es) → Names (Expr.genTargets es)
  | [] => by
    intro
    show Names (pure _)
    infer_instance
  | e :: es => by
    intro h
    show Names (_ >>= _)
    have first := e.names {} (some .listTarget) h.left
    have rest := Expr.names_targets es h.right
    infer_instance

theorem Parameter.names : (x : Parameter) → Proper x.mentions → Names x.gen
  | .required name type byRef => by
    intro
    show Names (pure _)
    infer_instance
  | .optional name type byRef line value => by
    intro h
    show Names (_ >>= _)
    have value := value.names {} none h
    infer_instance

theorem Parameter.names_all : (xs : List Parameter) → Proper (Parameter.allMentions xs) → Names (Parameter.genAll xs)
  | [] => by
    intro
    show Names (pure _)
    infer_instance
  | x :: xs => by
    intro h
    show Names (_ >>= _)
    have first := x.names h.left
    have rest := Parameter.names_all xs h.right
    infer_instance

theorem Chain.names (id : Nat) : (c : Chain) → Proper c.mentions → Names (c.gen id)
  | .branch test strays body rest => by
    intro h
    show Names (branch _ _ _ _ _ _)
    have test := test.names {} none h.left
    have body := body.names h.right.left
    have rest := rest.names id h.right.right
    infer_instance
  | .otherwise body => by
    intro h
    exact body.names h
  | .malformed r => by
    intro h
    exact names_report r.line h.head
  | .done => by
    intro
    show Names (pure _)
    infer_instance

theorem Section.names : (s : Section) → Proper s.mentions → ∀ table, Names (s.gen table)
  | .case_ line guard strays body => by
    intro h table
    show Names (caseSection _ _ _ _ _ _)
    have guard := guard.names {} none h.left
    have body := Stmt.names_all body h.right
    infer_instance
  | .default_ line strays body => by
    intro h table
    show Names (defaultSection _ _ _ _)
    have body := Stmt.names_all body h
    infer_instance

theorem Section.names_all : (ss : List Section) → Proper (Section.allMentions ss) → ∀ table, Names (Section.genAll ss table)
  | [] => by
    intro _ table
    show Names (pure _)
    infer_instance
  | s :: ss => by
    intro h table
    show Names (_ >>= _)
    have first := s.names h.left
    have rest := Section.names_all ss h.right
    infer_instance

theorem ForeachHead.names (id line : Nat) (key : Option String) :
    (x : ForeachHead) → Proper x.mentions → Names (x.gen id line key)
  | .malformed problem => by
    intro h
    exact names_report line h.head
  | .unbound bindingLine binding => by
    intro h
    show Names (unbound _ _)
    have binding := binding.names {} (some .foreachTarget) h
    infer_instance
  | .key name binding rest => by
    intro h
    show Names (_ >>= _)
    have binding := binding.names {} (some .foreachTarget) h.left
    have rest := rest.names id line (some name) h.right
    infer_instance
  | .value byRef name binding body => by
    intro h
    show Names (_ >>= _)
    have binding := binding.names {} (some .foreachTarget) h.left
    have body := body.names h.right
    infer_instance

theorem CatchClause.names (table : Nat) : (c : CatchClause) → Proper c.mentions → Names (c.gen table)
  | .malformed r => by
    intro h
    exact names_report r.line h.head
  | .clause className binding body => by
    intro h
    show Names (_ >>= _)
    have body := body.names h
    infer_instance

theorem CatchClause.names_all (table : Nat) :
    (cs : List CatchClause) → Proper (CatchClause.allMentions cs) → Names (CatchClause.genAll table cs)
  | [] => by
    intro
    show Names (pure _)
    infer_instance
  | c :: cs => by
    intro h
    show Names (_ >>= _)
    have first := c.names table h.left
    have rest := CatchClause.names_all table cs h.right
    infer_instance

theorem Declarator.names (type : TypeSpec) : (d : Declarator) → Proper d.mentions → Names (d.gen type)
  | .plain line name => by
    intro
    show Names (declare _ _ _)
    infer_instance
  | .assigned line name assignment => by
    intro h
    show Names (assigned _ _ _ _ _)
    have assignment := assignment.names {} none h
    infer_instance
  | .static line name => by
    intro
    show Names (static _ _ _ _)
    infer_instance
  | .staticValue line name valueLine value => by
    intro h
    show Names (staticValue _ _ _ _ _ _)
    have value := value.names {} none h
    infer_instance

theorem Declarator.names_all (type : TypeSpec) :
    (ds : List Declarator) → Proper (Declarator.allMentions ds) → Names (Declarator.genAll type ds)
  | [] => by
    intro
    show Names (pure _)
    infer_instance
  | d :: ds => by
    intro h
    show Names (_ >>= _)
    have first := d.names type h.left
    have rest := Declarator.names_all type ds h.right
    infer_instance

theorem Member.names : (m : Member) → Proper m.mentions → ∀ c, Names (m.gen c)
  | .report r => by
    intro h c
    show Names (_ >>= _)
    have told := names_report r.line h.head
    infer_instance
  | .constant head line value => by
    intro h c
    have value := value.names {} none h
    refine (names_memberValue head ?_ line _).bind fun _ => inferInstance
    exact trivial
  | .attribute head type => by
    intro _ c
    show Names (pure _)
    infer_instance
  | .attributeValue head type line value => by
    intro h c
    have value := value.names {} none h
    refine (names_memberValue head ?_ line _).bind fun _ => inferInstance
    exact trivial
  | .signature head function params fault => by
    intro h c
    have params := Parameter.names_all params h.tail.left
    exact (names_arguments h.tail.right).bind fun _ => inferInstance
  | .method head function params fault body => by
    intro h c
    have params := Parameter.names_all params h.tail.left
    have body := body.names h.tail.right.right
    exact (names_arguments h.tail.right.left).bind fun _ => inferInstance

theorem Member.names_all : (ms : List Member) → Proper (Member.allMentions ms) → ∀ c, Names (Member.genAll ms c)
  | [] => by
    intro _ c
    show Names (pure _)
    infer_instance
  | m :: ms => by
    intro h c
    show Names (_ >>= _)
    have first := m.names h.left
    have rest := Member.names_all ms h.right
    infer_instance

theorem Stmt.names : (s : Stmt) → Proper s.mentions → Names s.gen
  | .empty => by
    intro
    show Names (pure _)
    infer_instance
  | .report r => by
    intro h
    exact names_report r.line h.head
  | .sequence items => by
    intro h
    exact Stmt.names_all items h
  | .onLine line body => by
    intro h
    show Names (_ >>= _)
    have body := body.names h
    infer_instance
  | .block items unclosed => by
    intro h
    show Names (braces _ _)
    have items := Stmt.names_all items h
    infer_instance
  | .raw text => by
    intro
    show Names (raw _)
    infer_instance
  | .expression value => by
    intro h
    show Names (expression _ _)
    have value := value.names {} none h
    infer_instance
  | .conditional chain => by
    intro h
    show Names (conditional _)
    have chain (id : Nat) := chain.names id h
    infer_instance
  | .switch subject strays sections fault => by
    intro h
    have subject := subject.names {} none h.left
    have sections := Section.names_all sections h.right.left
    exact names_switch strays h.right.right
  | .switchWithoutBody subject strays r => by
    intro h
    have subject := subject.names {} none h.left
    exact names_switchWithoutBody strays h.right.head
  | .whileLoop test strays body => by
    intro h
    show Names (whileLoop _ _ _)
    have test := test.names {} none h.left
    have body := body.names h.right
    infer_instance
  | .doLoop body test strays => by
    intro h
    show Names (doLoop _ _ _)
    have body := body.names h.left
    have test := test.names {} none h.right
    infer_instance
  | .doWithoutTest body r => by
    intro h
    have body := body.names h.left
    exact names_doWithoutTest h.right.head
  | .forLoop line init test afterTest body post afterPost => by
    intro h
    show Names (forLoop _ _ _ _ _ _ _ _ _)
    have init := init.names h.left
    have test := test.names {} none h.right.left
    have body := body.names h.right.right.left
    have post := post.names {} none h.right.right.right
    infer_instance
  | .foreach line source strays head => by
    intro h
    show Names (foreach _ _ _)
    have source := source.names {} none h.left
    have head (id : Nat) := head.names id line none h.right
    infer_instance
  | .tryCatch body clauses fault => by
    intro h
    have body := body.names h.left
    have clauses (table : Nat) := CatchClause.names_all table clauses h.right.left
    exact names_tryCatch h.right.right
  | .throw line value => by
    intro h
    show Names (throw _ _ _)
    have value := value.names {} (some .throwable) h
    infer_instance
  | .loopJump jump line level unterminated => by
    intro
    show Names (loopJump _ _ _ _)
    infer_instance
  | .return_ value => by
    intro h
    show Names (return_ _ _)
    have value := value.names {} none h
    infer_instance
  | .exit value => by
    intro h
    show Names (exit _ _)
    have value := value.names {} none h
    infer_instance
  | .constant name line value => by
    intro h
    show Names (constant _ _ _ _)
    have value := value.names {} none h
    infer_instance
  | .declaration type items fault => by
    intro h
    have items := Declarator.names_all type items h.left
    exact items.bind fun _ => names_reportFault h.right
  | .namespace_ line items => by
    intro h
    show Names (_ >>= _)
    have items := Stmt.names_all items h
    infer_instance
  | .using_ line => by
    intro
    show Names (noteNamespaces _)
    infer_instance
  | .function head params fault body => by
    intro h
    have params := Parameter.names_all params h.tail.left
    have body := body.names h.tail.right.right
    exact names_function h.head h.tail.right.left
  | .class_ head members fault => by
    intro h
    have members := Member.names_all members h.left
    exact names_class_ head h.right

theorem Stmt.names_all : (ss : List Stmt) → Proper (Stmt.allMentions ss) → Names (Stmt.genAll ss)
  | [] => by
    intro
    show Names (pure _)
    infer_instance
  | s :: ss => by
    intro h
    show Names (_ >>= _)
    have first := s.names h.left
    have rest := Stmt.names_all ss h.right
    infer_instance

end

theorem Script.names (script : Script) (h : Proper script.mentions) : Names script.gen := by
  cases script with
  | statements items =>
      have items := Stmt.names_all items h
      exact inferInstanceAs (Names (_ >>= _))
  | expression value stray =>
      have value := value.names {} none h
      have told : Names (reportFault (stray.map fun t => ⟨t.line, .misplacedToken t.text⟩)) := by
        refine names_faultMap ?_ stray
        exact fun _ => trivial
      unfold Script.gen
      infer_instance

end StackScript
