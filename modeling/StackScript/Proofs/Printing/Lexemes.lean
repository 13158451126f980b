/-
Trees written as tokens.

A tree is written with every operand, argument and index that is not a leaf between parentheses.  The leaves stay
parameters: each comes with the lexemes it covers.  What is written is nested, so that a search for a bracket or a
comma passes over it.
-/
import StackScript.Proofs.Checks
import StackScript.Proofs.Lexing.Rendering

namespace StackScript

/-- Whether a kind opens or closes a group. -/
def TokenKind.isBracket : TokenKind → Bool
  | openBrace | closeBrace | openParen | closeParen | openBracket | closeBracket => true
  | _ => false

/-- What a token is, wherever it stands: its kind and its text. -/
abbrev Lexeme := TokenKind × String

namespace Lexeme

def openParen : Lexeme := (.openParen, "(")
def closeParen : Lexeme := (.closeParen, ")")
def openBracket : Lexeme := (.openBracket, "[")
def closeBracket : Lexeme := (.closeBracket, "]")
def comma : Lexeme := (.comma, ",")
def colon : Lexeme := (.colon, ":")

end Lexeme

/-! ### Operators -/

namespace Operator

/-- The kind of the token an operator is written as.  A sign with two meanings stands for the one between operands. -/
def tokenKind : Operator → TokenKind
  | new => .wordOperator new
  | clone => .wordOperator clone
  | is => .wordOperator is
  | bitAnd | ref => .ampersand
  | assign => .equals
  | comma => .comma
  | neg => .operator sub
  | plus => .operator add
  | op => .operator op

def lexeme (op : Operator) : Lexeme := (op.tokenKind, op.spelling)

/-- An operator behind an operand is found in its token. -/
theorem op?_tokenKind {op : Operator} (h : op.infixPower?.isSome = true) : op.tokenKind.op? = some op := by
  cases op <;> first | rfl | exact Bool.noConfusion h

/-- The spelling of an operator is read as the kind it is written with. -/
theorem kind_spelling {op : Operator} (hbracket : op ≠ .subscript ∧ op ≠ .call) (hcast : ∀ type, op ≠ .cast type) :
    Lexer.wordKind op.spelling = op.tokenKind ∨ Lexer.signKind op.spelling = op.tokenKind := by
  cases op with
  | subscript | call => simp at hbracket
  | cast type => exact absurd rfl (hcast type)
  | new | clone | is => exact .inl (by decide)
  | _ => exact .inr (by decide)

theorem isBracket_lexeme (op : Operator) : op.lexeme.1.isBracket = false := by
  cases op <;> rfl

end Operator

/-! ### Leaves -/

/-- A leaf with the lexemes it covers. -/
structure LeafText where
  kind : LeafKind
  lexemes : List Lexeme

/-- The leaves that are told by their first token: numbers, strings, names and variables with a name. -/
inductive LeafText.Simple : LeafText → Prop
  | integer (text : String) : Simple ⟨.number, [(.integer, text)]⟩
  | real (text : String) : Simple ⟨.number, [(.real, text)]⟩
  | simpleString (text : String) : Simple ⟨.simpleString, [(.simpleString, text)]⟩
  | template (text : String) : Simple ⟨.template, [(.template, text)]⟩
  | var {kind : TokenKind} (hkind : (.name ∈ kind.classes) ∨ (.keyword ∈ kind.classes)) (text : String) :
      Simple ⟨.variable, [(.dollar, "$"), (kind, text)]⟩
  | name (text : String) : Simple ⟨.name, [(.name, text)]⟩

/-- The text of a leaf that covers tokens of a buffer. -/
def LeafText.at (tokens : Array Token) (p : Place) (kind : LeafKind) : LeafText :=
  ⟨kind, (tokens.extract p.start p.stop).toList.map Token.lexeme⟩

/-! ### Trees -/

namespace Tree

def isLeaf {α : Type} : Tree α → Bool
  | leaf _ _ => true
  | _ => false

/-- The lexemes of a tree that is an operand: between parentheses unless it is a leaf. -/
def enclose (t : Tree LeafText) (xs : List Lexeme) : List Lexeme :=
  if t.isLeaf then xs else .openParen :: (xs ++ [.closeParen])

mutual

/-- What a tree is written as. -/
def lexemes : Tree LeafText → List Lexeme
  | leaf _ a => a.lexemes
  | prefixed _ op x => op.lexeme :: x.enclose x.lexemes
  | postfixed _ op x => x.enclose x.lexemes ++ [op.lexeme]
  | binary _ op x y => x.enclose x.lexemes ++ op.lexeme :: y.enclose y.lexemes
  | assign _ op x y => x.enclose x.lexemes ++ op.lexeme :: y.enclose y.lexemes
  | ternary _ c x y =>
    c.enclose c.lexemes ++ Operator.ternary.lexeme :: (x.enclose x.lexemes ++ .colon :: y.enclose y.lexemes)
  | call _ g xs => g.enclose g.lexemes ++ .openParen :: ([Lexeme.comma].intercalate (allLexemes xs) ++ [.closeParen])
  | index _ x y => x.enclose x.lexemes ++ .openBracket :: (y.enclose y.lexemes ++ [.closeBracket])
  | append _ x => x.enclose x.lexemes ++ [.openBracket, .closeBracket]

/-- What the arguments of a call are written as. -/
def allLexemes : List (Tree LeafText) → List (List Lexeme)
  | [] => []
  | x :: xs => x.enclose x.lexemes :: allLexemes xs

end

/-- What a tree is written as where it is an operand. -/
def operand (t : Tree LeafText) : List Lexeme := t.enclose t.lexemes

section

variable (p : Place) (op : Operator) (c x y : Tree LeafText)

theorem lexemes_prefixed : (prefixed p op x).lexemes = op.lexeme :: x.operand := rfl

theorem lexemes_postfixed : (postfixed p op x).lexemes = x.operand ++ [op.lexeme] := rfl

theorem lexemes_binary : (binary p op x y).lexemes = x.operand ++ op.lexeme :: y.operand := rfl

theorem lexemes_assign : (assign p op x y).lexemes = x.operand ++ op.lexeme :: y.operand := rfl

theorem lexemes_ternary : (ternary p c x y).lexemes =
    c.operand ++ Operator.ternary.lexeme :: (x.operand ++ .colon :: y.operand) := rfl

theorem allLexemes_eq_map (xs : List (Tree LeafText)) : allLexemes xs = xs.map operand := by
  induction xs with
  | nil => rfl
  | cons x xs ih => exact congrArg (x.operand :: ·) ih

theorem lexemes_call (xs : List (Tree LeafText)) : (call p x xs).lexemes =
    x.operand ++ Lexeme.openParen :: ([Lexeme.comma].intercalate (xs.map operand) ++ [Lexeme.closeParen]) := by
  rw [← allLexemes_eq_map]
  rfl

theorem lexemes_index : (index p x y).lexemes = x.operand ++ Lexeme.openBracket :: (y.operand ++ [Lexeme.closeBracket]) := rfl

theorem lexemes_append : (append p x).lexemes = x.operand ++ [Lexeme.openBracket, Lexeme.closeBracket] := rfl

end

mutual

/-- A tree with simple leaves whose operators stand where they belong. -/
inductive Writable : Tree LeafText → Prop
  | leaf {p : Place} {a : LeafText} (h : a.Simple) : Writable (.leaf p a)
  | prefixed {p : Place} {op : Operator} {x : Tree LeafText} (hop : op.prefixPower?.isSome = true) (hx : Writable x) :
      Writable (.prefixed p op x)
  | postfixed {p : Place} {op : Operator} {x : Tree LeafText} (hop : op.isBehind = true) (hx : Writable x) :
      Writable (.postfixed p op x)
  | binary {p : Place} {op : Operator} {x y : Tree LeafText} (hop : op.isBetween = true) (hx : Writable x)
      (hy : Writable y) : Writable (.binary p op x y)
  | assign {p : Place} {op : Operator} {x y : Tree LeafText} (hop : op.isAssignment = true) (hx : Writable x)
      (hy : Writable y) : Writable (.assign p op x y)
  | ternary {p : Place} {c x y : Tree LeafText} (hc : Writable c) (hx : Writable x) (hy : Writable y) :
      Writable (.ternary p c x y)
  | call {p : Place} {g : Tree LeafText} {xs : List (Tree LeafText)} (hg : Writable g) (hxs : AllWritable xs) :
      Writable (.call p g xs)
  | index {p : Place} {x y : Tree LeafText} (hx : Writable x) (hy : Writable y) : Writable (.index p x y)
  | append {p : Place} {x : Tree LeafText} (hx : Writable x) : Writable (.append p x)

inductive AllWritable : List (Tree LeafText) → Prop
  | nil : AllWritable []
  | cons {x : Tree LeafText} {xs : List (Tree LeafText)} (hx : Writable x) (hxs : AllWritable xs) : AllWritable (x :: xs)

end

mutual

/-- A tree without its places. -/
def unplaced {α : Type} : Tree α → Tree α
  | leaf _ a => leaf default a
  | prefixed _ op x => prefixed default op x.unplaced
  | postfixed _ op x => postfixed default op x.unplaced
  | binary _ op x y => binary default op x.unplaced y.unplaced
  | assign _ op x y => assign default op x.unplaced y.unplaced
  | ternary _ c x y => ternary default c.unplaced x.unplaced y.unplaced
  | call _ g xs => call default g.unplaced (allUnplaced xs)
  | index _ x y => index default x.unplaced y.unplaced
  | append _ x => append default x.unplaced

def allUnplaced {α : Type} : List (Tree α) → List (Tree α)
  | [] => []
  | x :: xs => x.unplaced :: allUnplaced xs

end

end Tree

/-! ### Nesting -/

/-- The lexemes of whole groups and of tokens outside groups. -/
inductive Nested : List Lexeme → Prop
  | nil : Nested []
  | plain {x : Lexeme} (h : x.1.isBracket = false) : Nested [x]
  | parens {xs : List Lexeme} (h : Nested xs) : Nested (.openParen :: (xs ++ [.closeParen]))
  | brackets {xs : List Lexeme} (h : Nested xs) : Nested (.openBracket :: (xs ++ [.closeBracket]))
  | append {xs ys : List Lexeme} (hxs : Nested xs) (hys : Nested ys) : Nested (xs ++ ys)

namespace Nested

theorem cons {x : Lexeme} {xs : List Lexeme} (hx : x.1.isBracket = false) (h : Nested xs) : Nested (x :: xs) :=
  .append (.plain hx) h

theorem enclose {t : Tree LeafText} {xs : List Lexeme} (h : Nested xs) : Nested (t.enclose xs) := by
  unfold Tree.enclose
  split
  · exact h
  · exact .parens h

theorem leaf {a : LeafText} (h : a.Simple) : Nested a.lexemes := by
  cases h with
  | @var kind hkind text =>
      refine cons rfl (plain ?_)
      cases kind <;> simp [TokenKind.classes] at hkind <;> rfl
  | _ => exact .plain rfl

end Nested

mutual

theorem Tree.Writable.nested : {t : Tree LeafText} → t.Writable → Nested t.lexemes
  | _, .leaf h => .leaf h
  | _, .prefixed _ hx => .cons (Operator.isBracket_lexeme _) (.enclose hx.nested)
  | _, .postfixed _ hx => .append (.enclose hx.nested) (.plain (Operator.isBracket_lexeme _))
  | _, .binary _ hx hy => .append (.enclose hx.nested) (.cons (Operator.isBracket_lexeme _) (.enclose hy.nested))
  | _, .assign _ hx hy => .append (.enclose hx.nested) (.cons (Operator.isBracket_lexeme _) (.enclose hy.nested))
  | _, .ternary hc hx hy =>
    .append (.enclose hc.nested) (.cons (Operator.isBracket_lexeme _) (.append (.enclose hx.nested) (.cons rfl (.enclose hy.nested))))
  | _, .call hg hxs => .append (.enclose hg.nested) (.parens hxs.nested)
  | _, .index hx hy => .append (.enclose hx.nested) (.brackets (.enclose hy.nested))
  | _, .append hx => .append (.enclose hx.nested) (.brackets .nil)

theorem Tree.AllWritable.nested : {ts : List (Tree LeafText)} → AllWritable ts →
    Nested ([Lexeme.comma].intercalate (Tree.allLexemes ts))
  | _, .nil => .nil
  | _, .cons hx .nil => by
    simpa [Tree.allLexemes] using hx.nested.enclose
  | _, .cons hx (.cons hy hys) => by
    have later := (Tree.AllWritable.cons hy hys).nested
    simp only [Tree.allLexemes] at later ⊢
    rw [List.intercalate_cons_cons, List.append_assoc]
    exact .append hx.nested.enclose (.cons rfl later)

end

end StackScript
