/-
A script of two runs side by side.

One recursion over the script, in the shape of the generators themselves, collects what the modules before
this one say about single constructs: whatever two compilations may differ in, they differ in no more
behind a script than before it.
-/
import StackScript.Compilation
import StackScript.Proofs.Likeness.Statement

namespace StackScript

open Gen Kinship

variable {K : Kinship}

mutual

theorem Expr.like_gen (access : Access) (restriction : Option Restriction) :
    (e : Expr) → (base : Nat) → K.Like false base (e.gen access restriction)
  | .missing => by
    intro base
    exact Like.pure ()
  | .rejected error => by
    intro base
    exact like_report _ _
  | .tree root => by
    intro base
    exact (like_restrict _ _).bind fun _ => Leaf.like_genTree access root base

theorem Leaf.like_genTree (access : Access) :
    (t : Tree Leaf) → (base : Nat) → K.Like false base (Leaf.genTree access t)
  | .leaf _ content => by
    intro base
    exact Leaf.like_gen access content base
  | .prefixed p op x => by
    intro base
    exact like_prefixed _ _ (Leaf.like_genTree access x base)
  | .postfixed p op x => by
    intro base
    exact like_postfixed _ _ (Leaf.like_genTree access x base)
  | .binary p op x y => by
    intro base
    exact like_binary _ _ (Leaf.like_genTree access x base) (Leaf.like_genTree access y base)
  | .assign p op target value => by
    intro base
    exact like_assign _ _ (Leaf.like_genTree access value base) (Leaf.like_genTree access.target target base)
  | .ternary p c x y => by
    intro base
    exact like_ternary _ (Leaf.like_genTree access c base) (Leaf.like_genTree access x base)
      (Leaf.like_genTree access y base)
  | .call p f xs => by
    intro base
    exact like_call _ _ (Leaf.like_genTrees access.argument xs base) (Leaf.like_genTree access f base)
  | .index p x k => by
    intro base
    exact like_index _ _ (Leaf.like_genTree access x base) (Leaf.like_genTree access.key k base)
  | .append p x => by
    intro base
    exact like_append _ _ (Leaf.like_genTree access x base)

theorem Leaf.like_genTrees (access : Access) :
    (ts : List (Tree Leaf)) → (base : Nat) → K.Like false base (Leaf.genTrees access ts)
  | [] => by
    intro base
    exact Like.pure ()
  | t :: ts => by
    intro base
    exact (Leaf.like_genTree access t base).bind fun _ => Leaf.like_genTrees access ts base

theorem Leaf.like_gen (access : Access) : (l : Leaf) → (base : Nat) → K.Like false base (l.gen access)
  | .unread line => by
    intro base
    exact like_report _ _
  | .number t => by
    intro base
    exact like_number t
  | .simpleString text => by
    intro base
    exact like_string _
  | .template first rest => by
    intro base
    exact (Piece.like_gen first base).bind fun _ => (Piece.like_genAll rest base).bind fun _ => like_joinPieces _
  | .variable line name extra => by
    intro base
    exact like_loadVariable access line name extra
  | .computedVariable line braceLine name stray extra => by
    intro base
    exact like_computedVariable access line braceLine _ (Expr.like_gen _ _ name base) stray extra
  | .blankVariable line braceLine => by
    intro base
    exact like_blankVariable line braceLine
  | .name path t => by
    intro base
    exact like_name path t
  | .array entries incomplete => by
    intro base
    exact like_array _ (Entry.like_genAll entries base) incomplete
  | .list targets => by
    intro base
    exact like_list _ (Expr.like_genTargets targets base)
  | .closure line returns params fault captures body => by
    intro base
    exact like_closure line returns (Parameter.like_genAll params base) fault captures (Stmt.like_gen body)
  | .construct word argument => by
    intro base
    exact like_construct word _ (Expr.like_gen _ _ argument base)

theorem Piece.like_gen : (p : Piece) → (base : Nat) → K.Like false base p.gen
  | .text text => by
    intro base
    exact like_string text
  | .value errors root => by
    intro base
    exact (like_reportAll _).bind fun _ => Leaf.like_genTree _ root base
  | .rejected errors error => by
    intro base
    exact (like_reportAll _).bind fun _ => like_report _ _

theorem Piece.like_genAll : (ps : List Piece) → (base : Nat) → K.Like false base (Piece.genAll ps)
  | [] => by
    intro base
    exact Like.pure ()
  | p :: ps => by
    intro base
    exact (Piece.like_gen p base).bind fun _ => Piece.like_genAll ps base

theorem Entry.like_gen : (e : Entry) → (base : Nat) → K.Like false base e.gen
  | .plain line value mark => by
    intro base
    exact like_plainEntry line (like_item mark (Expr.like_gen _ _ value base))
  | .keyed line key keyMark value mark => by
    intro base
    exact like_keyedEntry line (like_item keyMark (Expr.like_gen _ _ key base))
      (like_item mark (Expr.like_gen _ _ value base))
  | .unkeyed line value mark => by
    intro base
    exact like_unkeyedEntry line (like_item mark (Expr.like_gen _ _ value base))

theorem Entry.like_genAll : (es : List Entry) → (base : Nat) → K.Like false base (Entry.genAll es)
  | [] => by
    intro base
    exact Like.pure ()
  | e :: es => by
    intro base
    exact (Entry.like_gen e base).bind fun _ => Entry.like_genAll es base

theorem Expr.like_genTargets : (es : List Expr) → (base : Nat) → K.Like false base (Expr.genTargets es)
  | [] => by
    intro base
    exact Like.pure ()
  | e :: es => by
    intro base
    exact (Expr.like_gen _ _ e base).bind fun _ => Expr.like_genTargets es base

theorem Parameter.like_gen : (a : Parameter) → (base : Nat) → (p q : ConstantPool) →
    K.Twins false base p q a.gen a.gen Argument.Alike
  | .required name type byRef => by
    intro base p q
    exact Twins.pure fun _ _ _ _ => ⟨rfl, .none⟩
  | .optional name type byRef line value => by
    intro base p q
    refine (twins_thunk line _ (Expr.like_gen _ _ value)).bind fun _ _ a b _ _ hab => ?_
    exact Twins.pure fun _ _ hP hQ => ⟨rfl, .some (hab.mono fun _ _ => K.grow hP hQ)⟩

theorem Parameter.like_genAll : (ps : List Parameter) → (base : Nat) → K.LikeArguments base (Parameter.genAll ps)
  | [] => by
    intro base p q
    exact Twins.pure fun _ _ _ _ => .nil
  | a :: ps => by
    intro base p q
    refine (Parameter.like_gen a base p q).bind fun p' q' x y _ _ hxy => ?_
    refine (Parameter.like_genAll ps base p' q').bind fun _ _ xs ys hp hq hxys => ?_
    exact Twins.pure fun _ _ hP hQ => .cons (hxy.mono fun _ _ => K.grow (hp.trans hP) (hq.trans hQ))
      (hxys.imp fun _ _ h => h.mono fun _ _ => K.grow hP hQ)

theorem Chain.like_gen : (c : Chain) → (base id : Nat) → base ≤ id → K.Like true base (c.gen id)
  | .branch test strays body rest => by
    intro base id hid
    exact like_branch hid (Expr.like_gen _ _ test base).value strays (Stmt.like_gen body base) _
      (Chain.like_gen rest base id hid)
  | .otherwise body => by
    intro base id _
    exact Stmt.like_gen body base
  | .malformed r => by
    intro base id _
    exact like_report _ _
  | .done => by
    intro base id _
    exact Like.pure ()

theorem Section.like_gen : (s : Section) → (base : Nat) → K.LikeSections base fun table => s.gen table
  | .case_ line guard strays body => by
    intro base p q a b hab
    exact likeSections_case line _ (Expr.like_gen _ _ guard) strays (Stmt.like_genAll body base) p q a b hab
  | .default_ line strays body => by
    intro base p q a b hab
    exact likeSections_default line strays (Stmt.like_genAll body base) p q a b hab

theorem Section.like_genAll :
    (ss : List Section) → (base : Nat) → K.LikeSections base fun table => Section.genAll ss table
  | [] => by
    intro base p q a b hab
    exact Twins.pure hab
  | s :: ss => by
    intro base p q a b hab
    refine (Section.like_gen s base p q a b hab).bind fun p' q' a' b' _ _ hab' => ?_
    exact Section.like_genAll ss base p' q' a' b' fun _ _ hP hQ => hab'.mono fun _ _ => K.grow hP hQ

theorem ForeachHead.like_gen (line : Nat) : (h : ForeachHead) → (key : Option String) → (base id : Nat) →
    base ≤ id → K.Like true base (h.gen id line key)
  | .malformed problem => by
    intro key base id _
    exact like_report _ _
  | .unbound bindingLine binding => by
    intro key base id _
    exact like_unbound bindingLine (Expr.like_gen _ _ binding)
  | .key name binding rest => by
    intro key base id hid
    exact (like_discarding (Expr.like_gen _ _ binding)).bind fun _ =>
      ForeachHead.like_gen line rest (some name) base id hid
  | .value byRef name binding body => by
    intro key base id hid
    exact (like_discarding (Expr.like_gen _ _ binding)).bind fun _ =>
      like_foreachLoop hid _ (Stmt.like_gen body base)

theorem CatchClause.like_genAll :
    (cs : List CatchClause) → (base table : Nat) → K.Like true base (CatchClause.genAll table cs)
  | [] => by
    intro base table
    exact Like.pure ()
  | .malformed r :: cs => by
    intro base table
    exact (like_report _ _).bind fun _ => CatchClause.like_genAll cs base table
  | .clause className binding body :: cs => by
    intro base table
    exact (like_catch table className binding (Stmt.like_gen body)).bind fun _ =>
      CatchClause.like_genAll cs base table

theorem Declarator.like_gen (type : TypeSpec) : (d : Declarator) → (base : Nat) → K.Like true base (d.gen type)
  | .plain line name => by
    intro base
    exact like_declare line type name
  | .assigned line name assignment => by
    intro base
    exact like_assigned line type name _ (Expr.like_gen _ _ assignment base).value
  | .static line name => by
    intro base p q
    exact twins_static line type name fun _ _ _ _ => .empty
  | .staticValue line name valueLine value => by
    intro base
    exact like_staticValue line type name valueLine _ (Expr.like_gen _ _ value)

theorem Declarator.like_genAll (type : TypeSpec) :
    (ds : List Declarator) → (base : Nat) → K.Like true base (Declarator.genAll type ds)
  | [] => by
    intro base
    exact Like.pure ()
  | d :: ds => by
    intro base
    exact (Declarator.like_gen type d base).bind fun _ => Declarator.like_genAll type ds base

theorem Member.like_gen : (m : Member) → (base : Nat) → K.LikeMembers base fun c => m.gen c
  | .report r => by
    intro base p q c d hcd
    exact (like_report _ _).twins fun _ _ _ hp hq => Twins.pure fun _ _ hP hQ => hcd _ _ (hp.trans hP) (hq.trans hQ)
  | .constant head line value => by
    intro base p q c d hcd
    refine (twins_memberValue head _ line _ (Expr.like_gen _ _ value)).bind fun _ _ a b hp hq hab => ?_
    exact Twins.pure fun _ _ hP hQ => alike_addAttribute head none
      (.some (hab.mono fun _ _ => K.grow hP hQ)) (hcd _ _ (hp.trans hP) (hq.trans hQ))
  | .attribute head type => by
    intro base p q c d hcd
    exact Twins.pure fun _ _ hP hQ => alike_addAttribute head (some type) .none (hcd _ _ hP hQ)
  | .attributeValue head type line value => by
    intro base p q c d hcd
    refine (twins_memberValue head _ line _ (Expr.like_gen _ _ value)).bind fun _ _ a b hp hq hab => ?_
    exact Twins.pure fun _ _ hP hQ => alike_addAttribute head (some type)
      (.some (hab.mono fun _ _ => K.grow hP hQ)) (hcd _ _ (hp.trans hP) (hq.trans hQ))
  | .signature head function params fault => by
    intro base p q c d hcd
    refine (twins_arguments (Parameter.like_genAll params base) fault).bind fun _ _ as bs hp hq hab => ?_
    refine Twins.pure fun _ _ hP hQ => alike_addMethod head ?_ (hcd _ _ (hp.trans hP) (hq.trans hQ))
    exact declared_alike function (hab.imp fun _ _ h => h.mono fun _ _ => K.grow hP hQ)
  | .method head function params fault body => by
    intro base p q c d hcd
    refine (twins_arguments (Parameter.like_genAll params base) fault).bind fun _ _ as bs hp hq hab => ?_
    refine (twins_functionDef function (fun _ _ hP hQ => hab.imp fun _ _ h => h.mono fun _ _ => K.grow hP hQ)
      (Stmt.like_gen body)).bind fun _ _ f g hp' hq' hfg => ?_
    exact Twins.pure fun _ _ hP hQ => alike_addMethod head (hfg.mono fun _ _ => K.grow hP hQ)
      (hcd _ _ ((hp.trans hp').trans hP) ((hq.trans hq').trans hQ))

theorem Member.like_genAll : (ms : List Member) → (base : Nat) → K.LikeMembers base fun c => Member.genAll ms c
  | [] => by
    intro base p q c d hcd
    exact Twins.pure hcd
  | m :: ms => by
    intro base p q c d hcd
    refine (Member.like_gen m base p q c d hcd).bind fun p' q' c' d' _ _ hcd' => ?_
    exact Member.like_genAll ms base p' q' c' d' fun _ _ hP hQ => hcd'.mono fun _ _ => K.grow hP hQ

theorem Stmt.like_gen : (s : Stmt) → (base : Nat) → K.Like true base s.gen
  | .empty => by
    intro base
    exact Like.pure ()
  | .report r => by
    intro base
    exact like_report _ _
  | .sequence items => by
    intro base
    exact Stmt.like_genAll items base
  | .onLine line body => by
    intro base
    exact (like_setLine line).bind fun _ => like_markBoundary.bind fun _ => (Stmt.like_gen body base).bind fun _ =>
      like_markBoundary
  | .block items unclosed => by
    intro base
    exact like_braces (Stmt.like_genAll items base) unclosed
  | .raw text => by
    intro base
    exact like_raw text
  | .expression value => by
    intro base
    exact like_expression _ (Expr.like_gen _ _ value base).value
  | .conditional chain => by
    intro base
    exact like_inBlock _ rfl fun id hid => Chain.like_gen chain base id hid
  | .switch subject strays sections fault => by
    intro base
    exact like_switch (Expr.like_gen _ _ subject base).value strays (Section.like_genAll sections base) fault
  | .switchWithoutBody subject strays r => by
    intro base
    exact like_switchWithoutBody (Expr.like_gen _ _ subject base).value strays r
  | .whileLoop test strays body => by
    intro base
    exact like_whileLoop (Expr.like_gen _ _ test base).value strays (Stmt.like_gen body base)
  | .doLoop body test strays => by
    intro base
    exact like_doLoop (Stmt.like_gen body base) (Expr.like_gen _ _ test base).value strays
  | .doWithoutTest body r => by
    intro base
    exact like_doWithoutTest (Stmt.like_gen body base) r
  | .forLoop line init test afterTest body post afterPost => by
    intro base
    exact like_forLoop line (Stmt.like_gen init base) _ (Expr.like_gen _ _ test base).value afterTest
      (Stmt.like_gen body base) _ (Expr.like_gen _ _ post base).value afterPost
  | .foreach line source strays head => by
    intro base
    exact like_foreach (Expr.like_gen _ _ source base).value strays fun id hid =>
      ForeachHead.like_gen line head none base id hid
  | .tryCatch body clauses fault => by
    intro base
    exact like_tryCatch (Stmt.like_gen body base) (CatchClause.like_genAll clauses base) fault
  | .throw line value => by
    intro base
    exact like_throw line _ (Expr.like_gen _ _ value base).value
  | .loopJump jump line level unterminated => by
    intro base
    exact like_loopJump jump line level unterminated
  | .return_ value => by
    intro base
    exact like_return_ _ (Expr.like_gen _ _ value base).value
  | .exit value => by
    intro base
    exact like_exit _ (Expr.like_gen _ _ value base).value
  | .constant name line value => by
    intro base
    exact like_constant name line _ (Expr.like_gen _ _ value)
  | .declaration type items fault => by
    intro base
    exact (Declarator.like_genAll type items base).bind fun _ => like_reportFault fault
  | .namespace_ line items => by
    intro base
    exact (like_noteNamespaces line).bind fun _ => Stmt.like_genAll items base
  | .using_ line => by
    intro base
    exact like_noteNamespaces line
  | .function head params fault body => by
    intro base
    exact like_function head (Parameter.like_genAll params base) fault (Stmt.like_gen body)
  | .class_ head members fault => by
    intro base
    exact like_class_ head (Member.like_genAll members base) fault

theorem Stmt.like_genAll : (ss : List Stmt) → (base : Nat) → K.Like true base (Stmt.genAll ss)
  | [] => by
    intro base
    exact Like.pure ()
  | s :: ss => by
    intro base
    exact (Stmt.like_gen s base).bind fun _ => Stmt.like_genAll ss base

end

/-- A whole script. -/
theorem Script.like_gen (script : Script) : K.Like true 0 script.gen := by
  cases script with
  | statements items =>
      exact (Stmt.like_genAll items 0).bind fun _ => (like_settle (Nat.le_refl 0) _).bind fun _ =>
        like_put (by decide) _ _ _
  | expression value stray =>
      exact (Expr.like_gen _ _ value 0).value.bind fun _ => (like_reportFault _).bind fun _ =>
        like_put (by decide) _ _ _

end StackScript
