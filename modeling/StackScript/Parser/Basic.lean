/-
Reading pieces of a script from a token stream.

Readers move the cursor of the stream; a reader that looks into a narrower window leaves the stream as
it was.  Statements and expressions contain each other, so the readers of single constructs take the
readers of what is nested inside them as an argument.
-/
import StackScript.Script
import StackScript.TokenStream

namespace StackScript

/-- A reader of a part of a script. -/
abbrev Parse := StateM TokenStream

/-- The readers of what is nested inside a construct. -/
structure Readers where
  stmt : Parse Stmt
  /-- The expression at the cursor, up to a semicolon; with `true`, up to a comma outside brackets.  The
  cursor is left on what ends it. -/
  expr : Bool → Parse Expr
  /-- All declarations in the window, and nothing else. -/
  scope : Parse (List Stmt)

namespace Parse

def peek : Parse (Option Token) := do return (← get).peek

def peekNth (n : Nat) : Parse (Option Token) := do return (← get).peekNth n

/-- The line at the cursor. -/
def line : Parse Nat := do return (← get).line

def pos : Parse Nat := do return (← get).pos

def atEnd : Parse Bool := do return (← get).atEnd

def check (cs : List TokenClass) : Parse Bool := do return (← get).check cs

def checkKeyword (word : Keyword) : Parse Bool := do return (← get).checkKeyword word

def advance : Parse Unit := modify TokenStream.advance

def setPos (pos : Nat) : Parse Unit := modify (·.setPos pos)

def bump : Parse (Option Token) := modifyGet TokenStream.bump

def eat (cs : List TokenClass) : Parse Bool := modifyGet (·.eat cs)

def eatKeyword (word : Keyword) : Parse Bool := modifyGet (·.eatKeyword word)

def skipUntil (cs : List TokenClass) : Parse Unit := modify (·.skipUntil cs)

def skipToEnd : Parse Unit := modify TokenStream.skipToEnd

/-- Reads in the window `[start, stop)` and leaves the stream as it was. -/
def within {α : Type} (start stop : Nat) (p : Parse α) : Parse α := do
  return (p.run ((← get).window start stop)).1

/-! ### Finding the way after a problem -/

/-- The text of a token, or a word for the end. -/
def textOf (t : Option Token) : String := t.elim "EOF" Token.text

/-- Steps over semicolons. -/
def skipSemicolons : Parse Unit := modify (·.skipWhile (·.is .semicolon))

/-- Steps up to the semicolon that ends the statement. -/
def recover : Parse Unit := skipUntil [.semicolon]

/-- Steps up to the next semicolon or opening brace. -/
def synchronize : Parse Unit := skipUntil [.semicolon, .openBrace]

/-- Steps over a declaration that could not be read: up to its semicolon, or past its body. -/
def skipDeclaration : Parse Unit := do
  synchronize
  if ← check [.openBrace] then
    let s ← get
    setPos (s.delimit (s.pos + 1) [.openBrace] [.closeBrace] + 1)

/-! ### Groups -/

/-- The group that opens at the cursor: its opening and its closing token, when it is closed inside the
window. -/
def group? (openKind closeKind : TokenClass) : Parse (Option (Nat × Nat)) := do
  let s ← get
  let close := s.delimit (s.pos + 1) [openKind] [closeKind]
  return if close < s.stop then some (s.pos, close) else none

def parenGroup? : Parse (Option (Nat × Nat)) := group? .openParen .closeParen

def braceGroup? : Parse (Option (Nat × Nat)) := group? .openBrace .closeBrace

/-- The parenthesized group at the cursor, when it is closed and not empty. -/
def filledParenGroup? : Parse (Option (Nat × Nat)) := do
  return (← parenGroup?).filter fun (opening, closing) => opening + 1 < closing

/-- The first index in `[start, stop)` whose token satisfies `p`. -/
def findIndex (start stop : Nat) (p : Token → Bool) : Parse (Option Nat) := do
  return Scan.findAtDepth (← get).tokens (fun _ => 0) (fun t _ => p t) (stop - start) start 0

/-- The tokens from the cursor to the end of the window. -/
def rest : Parse (List Token) := do
  let s ← get
  return (s.tokens.extract s.pos s.stop).toList

/-- The variable at the cursor: a dollar sign and a name. -/
def variableName? : Parse (Option String) := do
  match ← peek, ← peekNth 1 with
  | some dollar, some name =>
    return if dollar.is .dollar && name.isAny [.name, .keyword] then some name.text else none
  | _, _ => return none

/-- Steps over the brackets that make a type an array. -/
def arraySuffix : Parse Bool := do
  if (← check [.openBracket]) && (← peekNth 1).any (·.is .closeBracket) then
    advance
    advance
    return true
  else return false

/-- The built-in type at the cursor, with its brackets. -/
def builtinType? : Parse (Option TypeSpec) := do
  match ((← peek).bind Token.keyword?).bind DataType.ofKeyword? with
  | some type =>
    advance
    return some ⟨.builtin type, ← arraySuffix⟩
  | none => return none

/-- A condition: all of `[start, stop)` as one expression, and the tokens left over behind it. -/
def condition (r : Readers) (start stop : Nat) : Parse (Expr × List Token) :=
  within start stop do
    let value ← r.expr false
    return (value, ← rest)

/-- An expression that should fill the window, and the line of the semicolon that cuts it short. -/
def filling (r : Readers) : Parse (Expr × Option Nat) := do
  let value ← r.expr false
  if ← atEnd then return (value, none) else return (value, some (← line))

end Parse

end StackScript
