/-
Demands on the parts of a script.

`Checks` says what is demanded of single parts, and `Script.meets` that every part of a script meets it,
however deep it lies, inside strings and functions as well.  Two sets of demands are used: `Checks.careful` is
what an author has to keep to for the operators to find the operands they rewrite, and `Checks.read` is what
every script meets that was read from tokens.
-/
import StackScript.Script

namespace StackScript

theorem both_true {a b : Bool} (ha : a = true) (hb : b = true) : (a && b) = true := Bool.and_eq_true_iff.mpr ⟨ha, hb⟩

/-- What is demanded of the parts of a script. -/
structure Checks where
  tree : Tree Leaf → Bool := fun _ => true
  entry : Entry → Bool := fun _ => true
  chain : Chain → Bool := fun _ => true
  head : ForeachHead → Bool := fun _ => true
  stmt : Stmt → Bool := fun _ => true

mutual

/-- Every part of an expression meets the demands. -/
def Expr.meets (C : Checks) : Expr → Bool
  | .tree root => Leaf.treeMeets C root
  | _ => true

def Leaf.treeMeets (C : Checks) : Tree Leaf → Bool
  | .leaf p content => C.tree (.leaf p content) && content.meets C
  | .prefixed p op x => C.tree (.prefixed p op x) && Leaf.treeMeets C x
  | .postfixed p op x => C.tree (.postfixed p op x) && Leaf.treeMeets C x
  | .binary p op x y => C.tree (.binary p op x y) && Leaf.treeMeets C x && Leaf.treeMeets C y
  | .assign p op x y => C.tree (.assign p op x y) && Leaf.treeMeets C x && Leaf.treeMeets C y
  | .ternary p c x y =>
    C.tree (.ternary p c x y) && Leaf.treeMeets C c && Leaf.treeMeets C x && Leaf.treeMeets C y
  | .call p f xs => C.tree (.call p f xs) && Leaf.treeMeets C f && Leaf.treesMeet C xs
  | .index p x k => C.tree (.index p x k) && Leaf.treeMeets C x && Leaf.treeMeets C k
  | .append p x => C.tree (.append p x) && Leaf.treeMeets C x

def Leaf.treesMeet (C : Checks) : List (Tree Leaf) → Bool
  | [] => true
  | t :: ts => Leaf.treeMeets C t && Leaf.treesMeet C ts

def Leaf.meets (C : Checks) : Leaf → Bool
  | .template first rest => first.meets C && Piece.allMeet C rest
  | .computedVariable _ _ name _ _ => name.meets C
  | .array entries _ => Entry.allMeet C entries
  | .list targets => Expr.allMeet C targets
  | .closure _ _ params _ _ body => Parameter.allMeet C params && body.meets C
  | .construct _ argument => argument.meets C
  | _ => true

def Piece.meets (C : Checks) : Piece → Bool
  | .value _ root => Leaf.treeMeets C root
  | _ => true

def Piece.allMeet (C : Checks) : List Piece → Bool
  | [] => true
  | p :: ps => p.meets C && Piece.allMeet C ps

def Entry.meets (C : Checks) : Entry → Bool
  | .plain line value mark => C.entry (.plain line value mark) && value.meets C
  | .keyed line key keyMark value mark =>
    C.entry (.keyed line key keyMark value mark) && key.meets C && value.meets C
  | .unkeyed line value mark => C.entry (.unkeyed line value mark) && value.meets C

def Entry.allMeet (C : Checks) : List Entry → Bool
  | [] => true
  | e :: es => e.meets C && Entry.allMeet C es

def Expr.allMeet (C : Checks) : List Expr → Bool
  | [] => true
  | e :: es => e.meets C && Expr.allMeet C es

def Parameter.meets (C : Checks) : Parameter → Bool
  | .required _ _ _ => true
  | .optional _ _ _ _ value => value.meets C

def Parameter.allMeet (C : Checks) : List Parameter → Bool
  | [] => true
  | p :: ps => p.meets C && Parameter.allMeet C ps

def Chain.meets (C : Checks) : Chain → Bool
  | .branch test strays body rest =>
    C.chain (.branch test strays body rest) && test.meets C && body.meets C && rest.meets C
  | .otherwise body => body.meets C
  | _ => true

def Section.meets (C : Checks) : Section → Bool
  | .case_ _ guard _ body => guard.meets C && Stmt.allMeet C body
  | .default_ _ _ body => Stmt.allMeet C body

def Section.allMeet (C : Checks) : List Section → Bool
  | [] => true
  | s :: ss => s.meets C && Section.allMeet C ss

def ForeachHead.meets (C : Checks) : ForeachHead → Bool
  | .malformed problem => C.head (.malformed problem)
  | .unbound _ binding => binding.meets C
  | .key _ binding rest => binding.meets C && rest.meets C
  | .value _ _ binding body => binding.meets C && body.meets C

def CatchClause.meets (C : Checks) : CatchClause → Bool
  | .malformed _ => true
  | .clause _ _ body => body.meets C

def CatchClause.allMeet (C : Checks) : List CatchClause → Bool
  | [] => true
  | c :: cs => c.meets C && CatchClause.allMeet C cs

def Declarator.meets (C : Checks) : Declarator → Bool
  | .assigned _ _ assignment => assignment.meets C
  | .staticValue _ _ _ value => value.meets C
  | _ => true

def Declarator.allMeet (C : Checks) : List Declarator → Bool
  | [] => true
  | d :: ds => d.meets C && Declarator.allMeet C ds

def Member.meets (C : Checks) : Member → Bool
  | .constant _ _ value | .attributeValue _ _ _ value => value.meets C
  | .signature _ _ params _ => Parameter.allMeet C params
  | .method _ _ params _ body => Parameter.allMeet C params && body.meets C
  | _ => true

def Member.allMeet (C : Checks) : List Member → Bool
  | [] => true
  | m :: ms => m.meets C && Member.allMeet C ms

/-- Every part of a statement meets the demands. -/
def Stmt.meets (C : Checks) : Stmt → Bool
  | .sequence items | .block items _ | .namespace_ _ items => Stmt.allMeet C items
  | .onLine _ body => body.meets C
  | .expression value | .throw _ value | .return_ value | .exit value | .constant _ _ value => value.meets C
  | .conditional chain => chain.meets C
  | .switch subject strays sections fault =>
    C.stmt (.switch subject strays sections fault) && subject.meets C && Section.allMeet C sections
  | .switchWithoutBody subject strays r => C.stmt (.switchWithoutBody subject strays r) && subject.meets C
  | .whileLoop test strays body => C.stmt (.whileLoop test strays body) && test.meets C && body.meets C
  | .doLoop body test strays => C.stmt (.doLoop body test strays) && body.meets C && test.meets C
  | .doWithoutTest body _ => body.meets C
  | .forLoop _ init test _ body post _ => init.meets C && test.meets C && body.meets C && post.meets C
  | .foreach line source strays head =>
    C.stmt (.foreach line source strays head) && source.meets C && head.meets C
  | .tryCatch body clauses _ => body.meets C && CatchClause.allMeet C clauses
  | .declaration _ items _ => Declarator.allMeet C items
  | .function _ params _ body => Parameter.allMeet C params && body.meets C
  | .class_ _ members _ => Member.allMeet C members
  | .empty | .report _ | .raw _ | .loopJump _ _ _ _ | .using_ _ => true

def Stmt.allMeet (C : Checks) : List Stmt → Bool
  | [] => true
  | s :: ss => s.meets C && Stmt.allMeet C ss

end

/-- Every part of a script meets the demands. -/
def Script.meets (C : Checks) : Script → Bool
  | .statements items => Stmt.allMeet C items
  | .expression value _ => value.meets C

/-! ### One part more -/

section

variable {C : Checks}

theorem Parameter.allMeet_cons {p : Parameter} {ps : List Parameter} (hp : p.meets C = true)
    (hps : Parameter.allMeet C ps = true) : Parameter.allMeet C (p :: ps) = true :=
  both_true hp hps

theorem Section.allMeet_cons {s : Section} {ss : List Section} (hs : s.meets C = true)
    (hss : Section.allMeet C ss = true) : Section.allMeet C (s :: ss) = true :=
  both_true hs hss

theorem CatchClause.allMeet_cons {c : CatchClause} {cs : List CatchClause} (hc : c.meets C = true)
    (hcs : CatchClause.allMeet C cs = true) : CatchClause.allMeet C (c :: cs) = true :=
  both_true hc hcs

theorem Declarator.allMeet_cons {d : Declarator} {ds : List Declarator} (hd : d.meets C = true)
    (hds : Declarator.allMeet C ds = true) : Declarator.allMeet C (d :: ds) = true :=
  both_true hd hds

theorem Member.allMeet_append (C : Checks) (ms ms' : List Member) :
    Member.allMeet C (ms ++ ms') = (Member.allMeet C ms && Member.allMeet C ms') := by
  induction ms with
  | nil => exact (Bool.true_and _).symm
  | cons m ms ih => exact (congrArg (m.meets C && ·) ih).trans (Bool.and_assoc ..).symm

theorem Stmt.allMeet_cons {s : Stmt} {ss : List Stmt} (hs : s.meets C = true) (hss : Stmt.allMeet C ss = true) :
    Stmt.allMeet C (s :: ss) = true :=
  both_true hs hss

theorem Stmt.meets_onLine (line : Nat) (body : Stmt) : (Stmt.onLine line body).meets C = body.meets C := rfl

end

/-! ### What an author has to keep to -/

namespace Expr

/-- Nothing stands there. -/
def isMissing : Expr → Bool
  | missing => true
  | _ => false

end Expr

namespace Leaf

/-- A variable, whether or not its name is known. -/
def isVariable : Leaf → Bool
  | .variable _ _ _ | .computedVariable _ _ _ _ _ | .blankVariable _ _ => true
  | _ => false

/-- A bare name or a variable. -/
def isNaming : Leaf → Bool
  | .name _ _ => true
  | l => l.isVariable

end Leaf

namespace Tree

/-- A variable, a subscript or a member access. -/
def isTarget : Tree Leaf → Bool
  | leaf _ content => content.isVariable
  | index _ _ _ | append _ _ | binary _ .arrow _ _ | binary _ .doubleColon _ _ => true
  | _ => false

/-- The target of an assignment with an equals sign is a variable, a subscript or a member access, and the
right side of a double colon is a name or a variable. -/
def isCareful : Tree Leaf → Bool
  | assign _ .assign target _ => target.isTarget
  | binary _ .doubleColon _ (leaf _ content) => content.isNaming
  | binary _ .doubleColon _ _ => false
  | _ => true

end Tree

/-- What is taken by reference is there. -/
def ItemMark.isCareful (mark : ItemMark) (value : Expr) : Bool := !(mark.byRef && value.isMissing)

def Entry.isCareful : Entry → Bool
  | .plain _ value mark | .unkeyed _ value mark => mark.isCareful value
  | .keyed _ key keyMark value mark => keyMark.isCareful key && mark.isCareful value

/-- The condition of a branch is there. -/
def Chain.isCareful : Chain → Bool
  | .branch test _ _ _ => !test.isMissing
  | _ => true

/-- What an author has to keep to for the operators to find the operands they rewrite. -/
def Checks.careful : Checks where
  tree := Tree.isCareful
  entry := Entry.isCareful
  chain := Chain.isCareful

/-! ### What reading ensures -/

namespace Operator

/-- The operators that stand between two operands and do not store. -/
def isBetween : Operator → Bool
  | call | subscript | incr | decr | ternary => false
  | op => op.infixPower?.isSome && !op.isAssignment

/-- The operators that stand behind their operand. -/
def isBehind : Operator → Bool
  | incr | decr => true
  | _ => false

end Operator

namespace Tree

/-- An operator stands where it belongs. -/
def isOrderly {α : Type} : Tree α → Bool
  | prefixed _ op _ => op.prefixPower?.isSome
  | postfixed _ op _ => op.isBehind
  | binary _ op _ _ => op.isBetween
  | assign _ op _ _ => op.isAssignment
  | _ => true

end Tree

/-- Where nothing stands, what stands in its place is reported. -/
def ItemMark.explains (mark : ItemMark) (value : Expr) : Bool := !value.isMissing || mark.byRef || mark.stray.isSome

def Entry.isExplained : Entry → Bool
  | .plain _ value mark | .unkeyed _ value mark => mark.explains value
  | .keyed _ key keyMark value mark => keyMark.explains key && mark.explains value

def ForeachHead.isExplained : ForeachHead → Bool
  | .malformed problem => problem.severity == .error
  | _ => true

/-- An empty condition leaves tokens over. -/
def Stmt.isExplained : Stmt → Bool
  | .switchWithoutBody _ _ r => r.isError
  | .switch value strays _ _ | .whileLoop value strays _ | .doLoop _ value strays | .foreach _ value strays _ =>
    !value.isMissing || !strays.isEmpty
  | _ => true

/-- What every script meets that was read from tokens. -/
def Checks.read : Checks where
  tree := Tree.isOrderly
  entry := Entry.isExplained
  head := ForeachHead.isExplained
  stmt := Stmt.isExplained

end StackScript
