/-
Expression trees.

A tree is built over a token buffer and refers to it by places.  What stands at a leaf is a parameter:
the builder only marks which kind of leaf covers which tokens, and later the leaf's own tokens are read
into its meaning without touching the rest of the tree.
-/
import StackScript.Keyword
import StackScript.Operator

namespace StackScript

/-- The tokens `[start, stop)` of a buffer, and the line a node reports. -/
structure Place where
  start : Nat
  stop : Nat
  line : Nat
deriving DecidableEq, Inhabited

/-- What is left of a place when its tokens are out of reach. -/
def Place.lineOnly (p : Place) : Place := ⟨0, 0, p.line⟩

/-- An expression tree with leaves of type `α`. -/
inductive Tree (α : Type) where
  | leaf (place : Place) (content : α)
  /-- An operator in front of its operand. -/
  | prefixed (place : Place) (op : Operator) (operand : Tree α)
  /-- An operator behind its operand. -/
  | postfixed (place : Place) (op : Operator) (operand : Tree α)
  | binary (place : Place) (op : Operator) (left right : Tree α)
  | assign (place : Place) (op : Operator) (target value : Tree α)
  | ternary (place : Place) (condition yes no : Tree α)
  | call (place : Place) (callee : Tree α) (args : List (Tree α))
  | index (place : Place) (base key : Tree α)
  /-- A subscript without an index. -/
  | append (place : Place) (base : Tree α)

/-- What covers the tokens of a leaf. -/
inductive LeafKind where
  | number
  | simpleString
  | template
  | variable
  /-- A bare name, a path of names, or one of the words that stand for a class. -/
  | name
  | array
  | list
  | closure
  | construct (word : Keyword)
deriving DecidableEq

/-- A tree whose leaves are not read yet. -/
abbrev Node := Tree LeafKind

namespace Tree

def place {α : Type} : Tree α → Place
  | leaf p _ => p
  | prefixed p _ _ => p
  | postfixed p _ _ => p
  | binary p _ _ _ => p
  | assign p _ _ _ => p
  | ternary p _ _ _ => p
  | call p _ _ => p
  | index p _ _ => p
  | append p _ => p

/-- The operator of a node that is not a leaf. -/
def op? {α : Type} : Tree α → Option Operator
  | leaf _ _ => none
  | prefixed _ op _ => some op
  | postfixed _ op _ => some op
  | binary _ op _ _ => some op
  | assign _ op _ _ => some op
  | ternary _ _ _ _ => some .ternary
  | call _ _ _ => some .call
  | index _ _ _ => some .subscript
  | append _ _ => some .subscript

mutual

/-- The tree with every leaf read.  It refers to no buffer any more, so of a place only the line is left. -/
def mapLeaves {α β : Type} (f : Place → α → β) : Tree α → Tree β
  | leaf p a => leaf p.lineOnly (f p a)
  | prefixed p op x => prefixed p.lineOnly op (x.mapLeaves f)
  | postfixed p op x => postfixed p.lineOnly op (x.mapLeaves f)
  | binary p op x y => binary p.lineOnly op (x.mapLeaves f) (y.mapLeaves f)
  | assign p op x y => assign p.lineOnly op (x.mapLeaves f) (y.mapLeaves f)
  | ternary p c x y => ternary p.lineOnly (c.mapLeaves f) (x.mapLeaves f) (y.mapLeaves f)
  | call p g xs => call p.lineOnly (g.mapLeaves f) (mapAllLeaves f xs)
  | index p x y => index p.lineOnly (x.mapLeaves f) (y.mapLeaves f)
  | append p x => append p.lineOnly (x.mapLeaves f)

/-- The arguments of a call with every leaf read. -/
def mapAllLeaves {α β : Type} (f : Place → α → β) : List (Tree α) → List (Tree β)
  | [] => []
  | t :: ts => t.mapLeaves f :: mapAllLeaves f ts

end

/-- Reading the leaves changes no line. -/
@[simp] theorem line_place_mapLeaves {α β : Type} (f : Place → α → β) (t : Tree α) :
    (t.mapLeaves f).place.line = t.place.line := by cases t <;> simp [mapLeaves, place, Place.lineOnly]

/-- Reading the leaves changes no operator. -/
@[simp] theorem op?_mapLeaves {α β : Type} (f : Place → α → β) (t : Tree α) :
    (t.mapLeaves f).op? = t.op? := by cases t <;> simp [mapLeaves, op?]

end Tree

end StackScript
