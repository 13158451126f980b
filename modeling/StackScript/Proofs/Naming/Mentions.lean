/-
What a script declares and reports.

A function is declared with a name wherever it stands in a script: among the statements, in a class, or in the
body of another function.  `mentions` lists all these declarations, and with them the problems that reading left
behind.  A list of mentions is proper when the names in it start as names do and no problem in it is that of an
anonymous function, which only code generation can have.
-/
import StackScript.Script
import StackScript.Text.CharClass

namespace StackScript

/-- What a script mentions: the declaration of a function or a method, or the problem of something that could not
be read. -/
inductive Mention where
  | function (head : FunctionHead)
  | problem (problem : Problem)

namespace Mention

/-- The problem of a report that may be missing. -/
def fault (r : Option Report) : List Mention := r.toList.map fun r => .problem r.problem

/-- The problem of an error that may be missing. -/
def error (e : Option ErrorReport) : List Mention := e.toList.map fun e => .problem e.problem

end Mention

/-! ### The mentions of a script -/

mutual

/-- The mentions inside an expression. -/
def Expr.mentions : Expr → List Mention
  | .tree root => Leaf.treeMentions root
  | .missing | .rejected _ => []

def Leaf.treeMentions : Tree Leaf → List Mention
  | .leaf _ content => content.mentions
  | .prefixed _ _ x | .postfixed _ _ x | .append _ x => Leaf.treeMentions x
  | .binary _ _ x y | .assign _ _ x y | .index _ x y => Leaf.treeMentions x ++ Leaf.treeMentions y
  | .ternary _ c x y => Leaf.treeMentions c ++ (Leaf.treeMentions x ++ Leaf.treeMentions y)
  | .call _ f xs => Leaf.treeMentions f ++ Leaf.treesMentions xs

def Leaf.treesMentions : List (Tree Leaf) → List Mention
  | [] => []
  | t :: ts => Leaf.treeMentions t ++ Leaf.treesMentions ts

def Leaf.mentions : Leaf → List Mention
  | .template first rest => first.mentions ++ Piece.allMentions rest
  | .computedVariable _ _ name _ _ => name.mentions
  | .array entries _ => Entry.allMentions entries
  | .list targets => Expr.allMentions targets
  | .closure _ _ params fault _ body => Parameter.allMentions params ++ (Mention.fault fault ++ body.mentions)
  | .construct _ argument => argument.mentions
  | .unread _ | .number _ | .simpleString _ | .variable _ _ _ | .blankVariable _ _ | .name _ _ => []

def Piece.mentions : Piece → List Mention
  | .value _ root => Leaf.treeMentions root
  | .text _ | .rejected _ _ => []

def Piece.allMentions : List Piece → List Mention
  | [] => []
  | p :: ps => p.mentions ++ Piece.allMentions ps

def Entry.mentions : Entry → List Mention
  | .plain _ value _ | .unkeyed _ value _ => value.mentions
  | .keyed _ key _ value _ => key.mentions ++ value.mentions

def Entry.allMentions : List Entry → List Mention
  | [] => []
  | e :: es => e.mentions ++ Entry.allMentions es

def Expr.allMentions : List Expr → List Mention
  | [] => []
  | e :: es => e.mentions ++ Expr.allMentions es

def Parameter.mentions : Parameter → List Mention
  | .required _ _ _ => []
  | .optional _ _ _ _ value => value.mentions

def Parameter.allMentions : List Parameter → List Mention
  | [] => []
  | p :: ps => p.mentions ++ Parameter.allMentions ps

def Chain.mentions : Chain → List Mention
  | .branch test _ body rest => test.mentions ++ (body.mentions ++ rest.mentions)
  | .otherwise body => body.mentions
  | .malformed r => [.problem r.problem]
  | .done => []

def Section.mentions : Section → List Mention
  | .case_ _ guard _ body => guard.mentions ++ Stmt.allMentions body
  | .default_ _ _ body => Stmt.allMentions body

def Section.allMentions : List Section → List Mention
  | [] => []
  | s :: ss => s.mentions ++ Section.allMentions ss

def ForeachHead.mentions : ForeachHead → List Mention
  | .malformed problem => [.problem problem]
  | .unbound _ binding => binding.mentions
  | .key _ binding rest => binding.mentions ++ rest.mentions
  | .value _ _ binding body => binding.mentions ++ body.mentions

def CatchClause.mentions : CatchClause → List Mention
  | .malformed r => [.problem r.problem]
  | .clause _ _ body => body.mentions

def CatchClause.allMentions : List CatchClause → List Mention
  | [] => []
  | c :: cs => c.mentions ++ CatchClause.allMentions cs

def Declarator.mentions : Declarator → List Mention
  | .assigned _ _ assignment => assignment.mentions
  | .staticValue _ _ _ value => value.mentions
  | .plain _ _ | .static _ _ => []

def Declarator.allMentions : List Declarator → List Mention
  | [] => []
  | d :: ds => d.mentions ++ Declarator.allMentions ds

def Member.mentions : Member → List Mention
  | .report r => [.problem r.problem]
  | .constant _ _ value | .attributeValue _ _ _ value => value.mentions
  | .attribute _ _ => []
  | .signature _ function params fault => .function function :: (Parameter.allMentions params ++ Mention.fault fault)
  | .method _ function params fault body =>
    .function function :: (Parameter.allMentions params ++ (Mention.fault fault ++ body.mentions))

def Member.allMentions : List Member → List Mention
  | [] => []
  | m :: ms => m.mentions ++ Member.allMentions ms

/-- The mentions inside a statement. -/
def Stmt.mentions : Stmt → List Mention
  | .report r => [.problem r.problem]
  | .sequence items | .block items _ | .namespace_ _ items => Stmt.allMentions items
  | .onLine _ body => body.mentions
  | .expression value | .return_ value | .exit value | .throw _ value | .constant _ _ value => value.mentions
  | .conditional chain => chain.mentions
  | .switch subject _ sections fault => subject.mentions ++ (Section.allMentions sections ++ Mention.fault fault)
  | .switchWithoutBody subject _ r => subject.mentions ++ [.problem r.problem]
  | .whileLoop test _ body => test.mentions ++ body.mentions
  | .doLoop body test _ => body.mentions ++ test.mentions
  | .doWithoutTest body r => body.mentions ++ [.problem r.problem]
  | .forLoop _ init test _ body post _ => init.mentions ++ (test.mentions ++ (body.mentions ++ post.mentions))
  | .foreach _ source _ head => source.mentions ++ head.mentions
  | .tryCatch body clauses fault => body.mentions ++ (CatchClause.allMentions clauses ++ Mention.fault fault)
  | .declaration _ items fault => Declarator.allMentions items ++ Mention.fault fault
  | .function head params fault body =>
    .function head :: (Parameter.allMentions params ++ (Mention.fault fault ++ body.mentions))
  | .class_ _ members fault => Member.allMentions members ++ Mention.error fault
  | .empty | .raw _ | .loopJump _ _ _ _ | .using_ _ => []

def Stmt.allMentions : List Stmt → List Mention
  | [] => []
  | s :: ss => s.mentions ++ Stmt.allMentions ss

end

/-- The mentions anywhere in a script. -/
def Script.mentions : Script → List Mention
  | .statements items => Stmt.allMentions items
  | .expression value _ => value.mentions

/-! ### Proper mentions -/

/-- A text starts as a name does. -/
def IsName (text : String) : Prop := text.toList.head?.any CharClass.isNameStart = true

/-- The problem is not that of an anonymous function. -/
def Problem.IsForeign : Problem → Prop
  | .duplicateClosure _ => False
  | _ => True

theorem Problem.IsForeign.ne {problem : Problem} (h : problem.IsForeign) (name : String) :
    problem ≠ .duplicateClosure name := by
  rintro rfl
  exact h

namespace Mention

def IsProper : Mention → Prop
  | function head => IsName head.name ∧ head.flags.isAnonymous = false
  | problem p => p.IsForeign

end Mention

/-- The names and the problems among some mentions are as they should be. -/
def Proper (ps : List Mention) : Prop := ∀ p ∈ ps, p.IsProper

namespace Proper

variable {p : Mention} {ps qs : List Mention}

theorem nil : Proper [] := List.forall_mem_nil _

theorem append_iff : Proper (ps ++ qs) ↔ Proper ps ∧ Proper qs := List.forall_mem_append

theorem cons_iff : Proper (p :: ps) ↔ p.IsProper ∧ Proper ps := List.forall_mem_cons

theorem left (h : Proper (ps ++ qs)) : Proper ps := (append_iff.mp h).1

theorem right (h : Proper (ps ++ qs)) : Proper qs := (append_iff.mp h).2

theorem head (h : Proper (p :: ps)) : p.IsProper := (cons_iff.mp h).1

theorem tail (h : Proper (p :: ps)) : Proper ps := (cons_iff.mp h).2

theorem append (h : Proper ps) (h' : Proper qs) : Proper (ps ++ qs) := append_iff.mpr ⟨h, h'⟩

theorem cons (h : p.IsProper) (h' : Proper ps) : Proper (p :: ps) := cons_iff.mpr ⟨h, h'⟩

theorem single (h : p.IsProper) : Proper [p] := cons h nil

end Proper

end StackScript
