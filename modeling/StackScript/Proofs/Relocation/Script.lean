/-
Scripts at two places.

One recursion over the script, in the shape of the generators themselves: expressions generate the same code at both
places, instruction for instruction, and statements the same up to the numbers of switches.
-/
import StackScript.Proofs.Relocation.Statement

namespace StackScript

open Gen Relocation

mutual

theorem Expr.relocated (access : Access) (restriction : Option Restriction) :
    (e : Expr) → (L : Relocation) → L.Like false (e.gen access restriction)
  | .missing => by
    intro L
    exact like_pure ()
  | .rejected error => by
    intro L
    exact like_report _ _
  | .tree root => by
    intro L
    exact (like_restrict _ _).behind fun _ => Leaf.relocated_tree access root L

theorem Leaf.relocated_tree (access : Access) : (t : Tree Leaf) → (L : Relocation) → L.Like false (Leaf.genTree access t)
  | .leaf _ content => by
    intro L
    exact Leaf.relocated access content L
  | .prefixed p op x => by
    intro L
    exact like_prefixed _ _ (Leaf.relocated_tree access x L)
  | .postfixed p op x => by
    intro L
    exact like_postfixed _ _ (Leaf.relocated_tree access x L)
  | .binary p op x y => by
    intro L
    exact like_binary _ _ (Leaf.relocated_tree access x L) (Leaf.relocated_tree access y L)
  | .assign p op target value => by
    intro L
    exact like_assign _ _ (Leaf.relocated_tree access value L) (Leaf.relocated_tree access.target target L)
  | .ternary p c x y => by
    intro L
    exact like_ternary _ (Leaf.relocated_tree access c L) (Leaf.relocated_tree access x L) (Leaf.relocated_tree access y L)
  | .call p f xs => by
    intro L
    exact like_call _ _ (Leaf.relocated_trees access.argument xs L) (Leaf.relocated_tree access f L)
  | .index p x k => by
    intro L
    exact like_index _ _ (Leaf.relocated_tree access x L) (Leaf.relocated_tree access.key k L)
  | .append p x => by
    intro L
    exact like_append _ _ (Leaf.relocated_tree access x L)

theorem Leaf.relocated_trees (access : Access) :
    (ts : List (Tree Leaf)) → (L : Relocation) → L.Like false (Leaf.genTrees access ts)
  | [] => by
    intro L
    exact like_pure ()
  | t :: ts => by
    intro L
    exact (Leaf.relocated_tree access t L).behind fun _ => Leaf.relocated_trees access ts L

theorem Leaf.relocated (access : Access) : (l : Leaf) → (L : Relocation) → L.Like false (l.gen access)
  | .unread line => by
    intro L
    exact like_report _ _
  | .number t => by
    intro L
    exact like_number t
  | .simpleString text => by
    intro L
    exact like_string _
  | .template first rest => by
    intro L
    exact (Piece.relocated first L).behind fun _ => (Piece.relocated_all rest L).behind fun _ => like_joinPieces _
  | .variable line name extra => by
    intro L
    exact like_loadVariable access line name extra
  | .computedVariable line braceLine name stray extra => by
    intro L
    exact like_computedVariable access line braceLine _ (Expr.relocated _ _ name L) stray extra
  | .blankVariable line braceLine => by
    intro L
    exact like_blankVariable line braceLine
  | .name path t => by
    intro L
    exact like_name path t
  | .array entries incomplete => by
    intro L
    exact like_array _ (Entry.relocated_all entries L) incomplete
  | .list targets => by
    intro L
    exact like_list _ (Expr.relocated_targets targets L)
  | .closure line returns params fault captures body => by
    intro L
    exact like_closure line returns (Parameter.relocated_all params L) fault captures
      (Stmt.relocated body _ L.blind_unswitched)
  | .construct word argument => by
    intro L
    exact like_construct word _ (Expr.relocated _ _ argument L)

theorem Piece.relocated : (p : Piece) → (L : Relocation) → L.Like false p.gen
  | .text text => by
    intro L
    exact like_string text
  | .value errors root => by
    intro L
    exact (like_reportAll _).behind fun _ => Leaf.relocated_tree _ root L
  | .rejected errors error => by
    intro L
    exact (like_reportAll _).behind fun _ => like_report _ _

theorem Piece.relocated_all : (ps : List Piece) → (L : Relocation) → L.Like false (Piece.genAll ps)
  | [] => by
    intro L
    exact like_pure ()
  | p :: ps => by
    intro L
    exact (Piece.relocated p L).behind fun _ => Piece.relocated_all ps L

theorem Entry.relocated : (e : Entry) → (L : Relocation) → L.Like false e.gen
  | .plain line value mark => by
    intro L
    exact like_plainEntry line (like_item mark (Expr.relocated _ _ value L))
  | .keyed line key keyMark value mark => by
    intro L
    exact like_keyedEntry line (like_item keyMark (Expr.relocated _ _ key L)) (like_item mark (Expr.relocated _ _ value L))
  | .unkeyed line value mark => by
    intro L
    exact like_unkeyedEntry line (like_item mark (Expr.relocated _ _ value L))

theorem Entry.relocated_all : (es : List Entry) → (L : Relocation) → L.Like false (Entry.genAll es)
  | [] => by
    intro L
    exact like_pure ()
  | e :: es => by
    intro L
    exact (Entry.relocated e L).behind fun _ => Entry.relocated_all es L

theorem Expr.relocated_targets : (es : List Expr) → (L : Relocation) → L.Like false (Expr.genTargets es)
  | [] => by
    intro L
    exact like_pure ()
  | e :: es => by
    intro L
    exact (Expr.relocated _ _ e L).behind fun _ => Expr.relocated_targets es L

theorem Parameter.relocated : (a : Parameter) → (L : Relocation) →
    L.Twins false a.gen a.gen fun a b => a.type = b.type
  | .required name type byRef => by
    intro L
    exact .pure rfl
  | .optional name type byRef line value => by
    intro L
    exact (twins_thunk line _ (Expr.relocated _ _ value L)).bind fun _ _ _ => .pure rfl

theorem Parameter.relocated_all : (ps : List Parameter) → (L : Relocation) →
    L.Twins false (Parameter.genAll ps) (Parameter.genAll ps) SameTypes
  | [] => by
    intro L
    exact .pure rfl
  | a :: ps => by
    intro L
    exact (Parameter.relocated a L).bind fun _ _ hxy => (Parameter.relocated_all ps L).bind fun _ _ hxys =>
      .pure (List.cons_eq_cons.mpr ⟨hxy, hxys⟩)

theorem Chain.relocated : (c : Chain) → (L : Relocation) → L.Blind → (j : Nat) →
    L.Same true (c.gen (L.depth + j)) (c.gen (L.depth' + j))
  | .branch test strays body rest => by
    intro L hL j
    exact twins_branch j (Expr.relocated _ _ test L).value strays (Stmt.relocated body L hL) _ (Chain.relocated rest L hL j)
  | .otherwise body => by
    intro L hL _
    exact Stmt.relocated body L hL
  | .malformed r => by
    intro L _ _
    exact like_report _ _
  | .done => by
    intro L _ _
    exact like_pure ()

theorem Section.relocated : (s : Section) → (L : Relocation) → L.Blind → L.LikeSections fun table => s.gen table
  | .case_ line guard strays body => by
    intro L hL a b hab
    exact likeSections_case line _ (Expr.relocated _ _ guard L) strays (Stmt.relocated_all body L hL) a b hab
  | .default_ line strays body => by
    intro L hL a b hab
    exact likeSections_default line strays (Stmt.relocated_all body L hL) a b hab

theorem Section.relocated_all : (ss : List Section) → (L : Relocation) → L.Blind →
    L.LikeSections fun table => Section.genAll ss table
  | [] => by
    intro L _ a b hab
    exact .pure hab
  | s :: ss => by
    intro L hL a b hab
    exact (Section.relocated s L hL a b hab).bind fun a' b' hab' => Section.relocated_all ss L hL a' b' hab'

theorem ForeachHead.relocated (line : Nat) : (h : ForeachHead) → (key : Option String) → (L : Relocation) → L.Blind →
    (j : Nat) → L.Same true (h.gen (L.depth + j) line key) (h.gen (L.depth' + j) line key)
  | .malformed problem => by
    intro key L _ _
    exact like_report _ _
  | .unbound bindingLine binding => by
    intro key L _ _
    exact (like_unbound bindingLine (Expr.relocated _ _ binding L)).value
  | .key name binding rest => by
    intro key L hL j
    exact (like_discarding (Expr.relocated _ _ binding L)).value.behind fun _ =>
      ForeachHead.relocated line rest (some name) L hL j
  | .value byRef name binding body => by
    intro key L hL j
    exact (like_discarding (Expr.relocated _ _ binding L)).value.behind fun _ =>
      twins_foreachLoop j _ (Stmt.relocated body L hL)

theorem CatchClause.relocated_all :
    (cs : List CatchClause) → (L : Relocation) → (table : Nat) → L.Like true (CatchClause.genAll table cs)
  | [] => by
    intro L table
    exact like_pure ()
  | .malformed r :: cs => by
    intro L table
    exact (like_report _ _).behind fun _ => CatchClause.relocated_all cs L table
  | .clause className binding body :: cs => by
    intro L table
    exact (like_catch table className binding (Stmt.relocated body _ L.blind_unswitched)).behind fun _ =>
      CatchClause.relocated_all cs L table

theorem Declarator.relocated (type : TypeSpec) : (d : Declarator) → (L : Relocation) → L.Like true (d.gen type)
  | .plain line name => by
    intro L
    exact like_declare line type name
  | .assigned line name assignment => by
    intro L
    exact like_assigned line type name _ (Expr.relocated _ _ assignment L).value
  | .static line name => by
    intro L
    exact twins_static line type name _ _
  | .staticValue line name valueLine value => by
    intro L
    exact like_staticValue line type name valueLine _ (Expr.relocated _ _ value L)

theorem Declarator.relocated_all (type : TypeSpec) :
    (ds : List Declarator) → (L : Relocation) → L.Like true (Declarator.genAll type ds)
  | [] => by
    intro L
    exact like_pure ()
  | d :: ds => by
    intro L
    exact (Declarator.relocated type d L).behind fun _ => Declarator.relocated_all type ds L

theorem Member.relocated : (m : Member) → (L : Relocation) → L.LikeMembers fun c => m.gen c
  | .report r => by
    intro L c d hcd
    exact (like_report _ _).behind fun _ => .pure hcd
  | .constant head line value => by
    intro L c d hcd
    exact (twins_memberValue head _ line _ (Expr.relocated _ _ value L)).bind fun _ _ _ => .pure hcd
  | .attribute head type => by
    intro L c d hcd
    exact .pure hcd
  | .attributeValue head type line value => by
    intro L c d hcd
    exact (twins_memberValue head _ line _ (Expr.relocated _ _ value L)).bind fun _ _ _ => .pure hcd
  | .signature head function params fault => by
    intro L c d hcd
    exact (twins_arguments (Parameter.relocated_all params L) fault).bind fun _ _ _ => .pure hcd
  | .method head function params fault body => by
    intro L c d hcd
    exact (twins_arguments (Parameter.relocated_all params L) fault).bind fun _ _ hab =>
      (twins_functionDef function hab (Stmt.relocated body _ L.blind_unswitched)).bind fun _ _ _ => .pure hcd

theorem Member.relocated_all : (ms : List Member) → (L : Relocation) → L.LikeMembers fun c => Member.genAll ms c
  | [] => by
    intro L c d hcd
    exact .pure hcd
  | m :: ms => by
    intro L c d hcd
    exact (Member.relocated m L c d hcd).bind fun c' d' hcd' => Member.relocated_all ms L c' d' hcd'

theorem Stmt.relocated : (s : Stmt) → (L : Relocation) → L.Blind → L.Like true s.gen
  | .empty => by
    intro L _
    exact like_pure ()
  | .report r => by
    intro L _
    exact like_report _ _
  | .sequence items => by
    intro L hL
    exact Stmt.relocated_all items L hL
  | .onLine line body => by
    intro L hL
    exact (like_setLine line).behind fun _ => like_markBoundary.behind fun _ => (Stmt.relocated body L hL).behind fun _ =>
      like_markBoundary
  | .block items unclosed => by
    intro L hL
    exact like_braces (Stmt.relocated_all items L hL) unclosed
  | .raw text => by
    intro L _
    exact like_raw text
  | .expression value => by
    intro L _
    exact like_expression _ (Expr.relocated _ _ value L).value
  | .conditional chain => by
    intro L hL
    exact like_inBlock _ none fun j => Chain.relocated chain L hL j
  | .switch subject strays sections fault => by
    intro L hL
    exact like_switch hL (Expr.relocated _ _ subject L).value strays (Section.relocated_all sections L hL) fault
  | .switchWithoutBody subject strays r => by
    intro L _
    exact like_switchWithoutBody (Expr.relocated _ _ subject L).value strays r
  | .whileLoop test strays body => by
    intro L hL
    exact like_whileLoop (Expr.relocated _ _ test L).value strays (Stmt.relocated body L hL)
  | .doLoop body test strays => by
    intro L hL
    exact like_doLoop (Stmt.relocated body L hL) (Expr.relocated _ _ test L).value strays
  | .doWithoutTest body r => by
    intro L hL
    exact like_doWithoutTest (Stmt.relocated body L hL) r
  | .forLoop line init test afterTest body post afterPost => by
    intro L hL
    exact like_forLoop line (Stmt.relocated init L hL) _ (Expr.relocated _ _ test L).value afterTest
      (Stmt.relocated body L hL) _ (Expr.relocated _ _ post L).value afterPost
  | .foreach line source strays head => by
    intro L hL
    exact like_foreach (Expr.relocated _ _ source L).value strays fun j => ForeachHead.relocated line head none L hL j
  | .tryCatch body clauses fault => by
    intro L hL
    exact like_tryCatch (Stmt.relocated body L hL) (CatchClause.relocated_all clauses L) fault
  | .throw line value => by
    intro L _
    exact like_throw line _ (Expr.relocated _ _ value L).value
  | .loopJump jump line level unterminated => by
    intro L _
    exact like_loopJump jump line level unterminated
  | .return_ value => by
    intro L _
    exact like_return_ _ (Expr.relocated _ _ value L).value
  | .exit value => by
    intro L _
    exact like_exit _ (Expr.relocated _ _ value L).value
  | .constant name line value => by
    intro L _
    exact like_constant name line _ (Expr.relocated _ _ value L)
  | .declaration type items fault => by
    intro L _
    exact (Declarator.relocated_all type items L).behind fun _ => like_reportFault fault
  | .namespace_ line items => by
    intro L hL
    exact (like_noteNamespaces line).behind fun _ => Stmt.relocated_all items L hL
  | .using_ line => by
    intro L _
    exact like_noteNamespaces line
  | .function head params fault body => by
    intro L _
    exact like_function head (Parameter.relocated_all params L) fault (Stmt.relocated body _ L.blind_unswitched)
  | .class_ head members fault => by
    intro L _
    exact like_class_ head (Member.relocated_all members L) fault

theorem Stmt.relocated_all : (ss : List Stmt) → (L : Relocation) → L.Blind → L.Like true (Stmt.genAll ss)
  | [] => by
    intro L _
    exact like_pure ()
  | s :: ss => by
    intro L hL
    exact (Stmt.relocated s L hL).behind fun _ => Stmt.relocated_all ss L hL

end

end StackScript
