/-
Every script is a run.

One recursion over the script, in the shape of the generators themselves, collects what the modules before
this one say about single constructs.
-/
import StackScript.Proofs.Run.Control

namespace StackScript

open Gen

mutual

theorem Expr.valued_gen (access : Access) (restriction : Option Restriction) :
    (e : Expr) → Valued (e.gen access restriction)
  | .missing => Valued.pure ()
  | .rejected _ => valued_report _ _
  | .tree root => (valued_restrict _ _).bind fun _ => (Leaf.emits_genTree access root).valued

theorem Leaf.emits_genTree (access : Access) : (t : Tree Leaf) → Emits (Leaf.genTree access t)
  | .leaf _ content => Leaf.emits_gen access content
  | .prefixed _ _ x => emits_prefixed _ _ (Leaf.emits_genTree access x)
  | .postfixed _ _ x => emits_postfixed _ _ (Leaf.emits_genTree access x)
  | .binary _ _ x y => emits_binary _ _ (Leaf.emits_genTree access x) (Leaf.emits_genTree access y)
  | .assign _ _ target value =>
    emits_assign _ _ (Leaf.emits_genTree access value) (Leaf.emits_genTree access.target target)
  | .ternary _ c x y =>
    emits_ternary _ (Leaf.emits_genTree access c) (Leaf.emits_genTree access x)
      (Leaf.emits_genTree access y)
  | .call _ f xs => emits_call _ _ (Leaf.valued_genTrees access.argument xs) (Leaf.emits_genTree access f)
  | .index _ x k => emits_index _ _ (Leaf.emits_genTree access x) (Leaf.emits_genTree access.key k)
  | .append _ x => emits_append _ _ (Leaf.emits_genTree access x)

theorem Leaf.valued_genTrees (access : Access) : (ts : List (Tree Leaf)) → Valued (Leaf.genTrees access ts)
  | [] => Valued.pure ()
  | t :: ts => (Leaf.emits_genTree access t).valued.bind fun _ => Leaf.valued_genTrees access ts

theorem Leaf.emits_gen (access : Access) : (l : Leaf) → Emits (l.gen access)
  | .unread _ => emits_report _ rfl
  | .number t => emits_number t
  | .simpleString _ => emits_string _
  | .template first rest =>
    (Piece.emits_gen first).bind fun _ => (Piece.valued_genAll rest).bind fun _ => valued_joinPieces _
  | .variable _ _ _ => emits_loadVariable _ _ _ _
  | .computedVariable _ _ name _ _ => emits_computedVariable _ _ _ _ (Expr.valued_gen _ _ name) _ _
  | .blankVariable _ _ => emits_blankVariable _ _
  | .name _ _ => emits_name _ _
  | .array entries _ => emits_array _ (Entry.valued_genAll entries) _
  | .list targets => emits_list _ (Expr.valued_genTargets targets)
  | .closure _ _ params _ _ body =>
    emits_closure _ _ (Parameter.makes_genAll params) _ _ (Stmt.flows_gen body)
  | .construct _ argument => emits_construct _ _ (Expr.valued_gen _ _ argument)

theorem Piece.emits_gen : (p : Piece) → Emits p.gen
  | .text text => emits_string text
  | .value _ root => Emits.behind (valued_reportAll _) fun _ => Leaf.emits_genTree {} root
  | .rejected _ _ => Emits.behind (valued_reportAll _) fun _ => emits_report _ rfl

theorem Piece.valued_genAll : (ps : List Piece) → Valued (Piece.genAll ps)
  | [] => Valued.pure ()
  | p :: ps => (Piece.emits_gen p).valued.bind fun _ => Piece.valued_genAll ps

theorem Entry.valued_gen : (e : Entry) → Valued e.gen
  | .plain _ value _ => valued_plainEntry _ (valued_item _ (Expr.valued_gen _ _ value))
  | .keyed _ key _ value _ =>
    valued_keyedEntry _ (valued_item _ (Expr.valued_gen _ _ key))
      (valued_item _ (Expr.valued_gen _ _ value))
  | .unkeyed _ value _ => valued_unkeyedEntry _ (valued_item _ (Expr.valued_gen _ _ value))

theorem Entry.valued_genAll : (es : List Entry) → Valued (Entry.genAll es)
  | [] => Valued.pure ()
  | e :: es => (Entry.valued_gen e).bind fun _ => Entry.valued_genAll es

theorem Expr.valued_genTargets : (es : List Expr) → Valued (Expr.genTargets es)
  | [] => Valued.pure ()
  | e :: es => (Expr.valued_gen _ _ e).bind fun _ => Expr.valued_genTargets es

theorem Parameter.makes_gen : (p : Parameter) → Makes p.gen fun a => Argument.made [a]
  | .required _ _ _ => fun s => Run.refl s
  | .optional _ _ _ line value => makes_thunk line value.isPresent (Expr.valued_gen _ _ value)

theorem Parameter.makes_genAll : (ps : List Parameter) → Makes (Parameter.genAll ps) Argument.made
  | [] => fun s => Run.refl s
  | p :: ps => by
    intro s
    have made := (Parameter.makes_gen p s).trans (Parameter.makes_genAll ps _)
    simp only [Argument.made, ← List.map_append, ← List.filterMap_append] at made
    exact made

theorem Chain.flowsIn_gen (id : Nat) : (c : Chain) → FlowsIn conditionalShape id (c.gen id)
  | .branch test strays body rest =>
    flowsIn_branch (Expr.valued_gen _ _ test) strays (Stmt.flows_gen body) _ (Chain.flowsIn_gen id rest)
  | .otherwise body => (Stmt.flows_gen body).inBlock
  | .malformed _ => (valued_report _ _).inBlock
  | .done => (Valued.pure ()).inBlock

theorem Section.addsSections_gen : (sec : Section) → AddsSections fun table => sec.gen table
  | .case_ line guard strays body => by
    intro table
    exact addsSections_case _ _ (Expr.valued_gen _ _ guard) strays (Stmt.flows_genAll body) table
  | .default_ line strays body => by
    intro table
    exact addsSections_default _ strays (Stmt.flows_genAll body) table

theorem Section.addsSections_genAll : (ss : List Section) → AddsSections fun table => Section.genAll ss table
  | [] => by
    intro table s
    exact Run.aside table (Run.refl s)
  | sec :: ss => by
    intro table s
    exact (Section.addsSections_gen sec table s).join (Section.addsSections_genAll ss _ _)

theorem ForeachHead.isHead_gen (id line : Nat) (key : Option String) :
    (h : ForeachHead) → IsHead (h.gen id line key) id
  | .malformed _ => (valued_report _ _).isHead id
  | .unbound _ binding => (valued_unbound _ (Expr.valued_gen _ _ binding)).isHead id
  | .key name binding rest =>
    IsHead.behind (valued_discarding (Expr.valued_gen _ _ binding)) fun _ =>
      ForeachHead.isHead_gen id line (some name) rest
  | .value _ _ binding body =>
    IsHead.behind (valued_discarding (Expr.valued_gen _ _ binding)) fun _ =>
      isHead_foreachLoop id _ (Stmt.flows_gen body)

theorem CatchClause.run_gen (table : Nat) : (c : CatchClause) → (s : GenState) →
    table < s.program.exceptions.length → Run (.value []) s (after (c.gen table) s)
  | .malformed r => by
    intro s _
    exact valued_report _ _ s
  | .clause className binding body => by
    intro s hs
    exact run_catch hs className binding (Stmt.flows_gen body)

theorem CatchClause.run_genAll (table : Nat) : (cs : List CatchClause) → (s : GenState) →
    table < s.program.exceptions.length → Run (.value []) s (after (CatchClause.genAll table cs) s)
  | [] => by
    intro s _
    exact Run.refl s
  | c :: cs => by
    intro s hs
    have first := CatchClause.run_gen table c s hs
    exact first.trans (CatchClause.run_genAll table cs _ (Nat.lt_of_lt_of_le hs first.frame.exceptions))

theorem Declarator.valued_gen (type : TypeSpec) : (d : Declarator) → Valued (d.gen type)
  | .plain _ _ => valued_declare _ _ _
  | .assigned _ _ assignment => valued_assigned _ _ _ _ (Expr.valued_gen _ _ assignment)
  | .static line name => fun s => run_static (Run.refl s) line type name (.inr ⟨rfl, rfl⟩)
  | .staticValue _ _ _ value => valued_staticValue _ _ _ _ _ (Expr.valued_gen _ _ value)

theorem Declarator.valued_genAll (type : TypeSpec) : (ds : List Declarator) → Valued (Declarator.genAll type ds)
  | [] => Valued.pure ()
  | d :: ds => (Declarator.valued_gen type d).bind fun _ => Declarator.valued_genAll type ds

theorem Member.addsMembers_gen : (m : Member) → AddsMembers fun c => m.gen c
  | .report r => by
    intro c s
    exact ⟨[], valued_report _ _ s, Stock.Takes.refl _⟩
  | .constant head line value => by
    intro c s
    exact ⟨_, makes_memberValue head _ line value.isPresent (Expr.valued_gen _ _ value) s,
      c.takes_attribute ⟨head.name, none, head.visibility, head.flags, some _, head.line⟩⟩
  | .attribute head type => by
    intro c s
    exact ⟨[], Run.refl s,
      c.takes_attribute ⟨head.name, some type, head.visibility, head.flags, none, head.line⟩⟩
  | .attributeValue head type line value => by
    intro c s
    exact ⟨_, makes_memberValue head _ line value.isPresent (Expr.valued_gen _ _ value) s,
      c.takes_attribute ⟨head.name, some type, head.visibility, head.flags, some _, head.line⟩⟩
  | .signature head function params fault => by
    intro c s
    exact ⟨_, makes_arguments (Parameter.makes_genAll params) fault s,
      c.takes_signature ⟨declared function _, head.visibility, head.flags⟩ rfl rfl⟩
  | .method head function params fault body => by
    intro c s
    exact ⟨_, run_functionDef function _ (Stmt.flows_gen body)
      (makes_arguments (Parameter.makes_genAll params) fault s),
      c.takes_method ⟨_, head.visibility, head.flags⟩⟩

theorem Member.addsMembers_genAll : (ms : List Member) → AddsMembers fun c => Member.genAll ms c
  | [] => by
    intro c s
    exact ⟨[], Run.refl s, Stock.Takes.refl _⟩
  | m :: ms => by
    intro c s
    obtain ⟨made, h, hc⟩ := Member.addsMembers_gen m c s
    obtain ⟨made', h', hc'⟩ := Member.addsMembers_genAll ms (result (m.gen c) s) (after (m.gen c) s)
    exact ⟨made ++ made', h.trans h', hc.trans hc'⟩

theorem Stmt.flows_gen : (s : Stmt) → Flows s.gen
  | .empty => (Valued.pure ()).flows
  | .report _ => (valued_report _ _).flows
  | .sequence items => Stmt.flows_genAll items
  | .onLine line body =>
    (valued_setLine line).flows.bind fun _ => valued_markBoundary.flows.bind fun _ =>
      (Stmt.flows_gen body).bind fun _ => valued_markBoundary.flows
  | .block items unclosed => flows_braces (Stmt.flows_genAll items) unclosed
  | .raw text => (valued_raw text).flows
  | .expression value => (valued_expression _ (Expr.valued_gen _ _ value)).flows
  | .conditional chain => flows_conditional fun id => Chain.flowsIn_gen id chain
  | .switch subject strays sections fault =>
    flows_switch (Expr.valued_gen _ _ subject) strays (Section.addsSections_genAll sections) fault
  | .switchWithoutBody subject strays r => flows_switchWithoutBody (Expr.valued_gen _ _ subject) strays r
  | .whileLoop test strays body => flows_whileLoop (Expr.valued_gen _ _ test) strays (Stmt.flows_gen body)
  | .doLoop body test strays => flows_doLoop (Stmt.flows_gen body) (Expr.valued_gen _ _ test) strays
  | .doWithoutTest body r => flows_doWithoutTest (Stmt.flows_gen body) r
  | .forLoop line init test afterTest body post afterPost =>
    flows_forLoop line (Stmt.flows_gen init) _ (Expr.valued_gen _ _ test) afterTest
      (Stmt.flows_gen body) _ (Expr.valued_gen _ _ post) afterPost
  | .foreach line source strays head =>
    flows_foreach (Expr.valued_gen _ _ source) strays fun id => ForeachHead.isHead_gen id line none head
  | .tryCatch body clauses fault =>
    flows_tryCatch (Stmt.flows_gen body) (fun table => CatchClause.run_genAll table clauses) fault
  | .throw line value => flows_throw line _ (Expr.valued_gen _ _ value)
  | .loopJump jump line level unterminated => flows_loopJump jump line level unterminated
  | .return_ value => (valued_return_ _ (Expr.valued_gen _ _ value)).flows
  | .exit value => (valued_exit _ (Expr.valued_gen _ _ value)).flows
  | .constant name line value => (valued_constant name line _ (Expr.valued_gen _ _ value)).flows
  | .declaration type items fault =>
    ((Declarator.valued_genAll type items).bind fun _ => valued_reportFault fault).flows
  | .namespace_ line items => (valued_noteNamespaces line).flows.bind fun _ => Stmt.flows_genAll items
  | .using_ line => (valued_noteNamespaces line).flows
  | .function head params fault body =>
    (valued_function head (Parameter.makes_genAll params) fault (Stmt.flows_gen body)).flows
  | .class_ head members fault => (valued_class_ head (Member.addsMembers_genAll members) fault).flows

theorem Stmt.flows_genAll : (ss : List Stmt) → Flows (Stmt.genAll ss)
  | [] => (Valued.pure ()).flows
  | s :: ss => (Stmt.flows_gen s).bind fun _ => Stmt.flows_genAll ss

end

end StackScript
