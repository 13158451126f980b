/-
Statements, declarations and whole sources.

A statement is told by its first tokens: raw text, a brace block, a declaration, a keyword statement, or
else an expression.  `readers` ties the readers of all constructs together: each level of nesting works
with less fuel.  A nested part has fewer tokens or, inside a string, a shorter source, so the length of
the source bounds how deep the nesting goes.
-/
import StackScript.Config
import StackScript.Document
import StackScript.Parser.Class
import StackScript.Parser.Control
import StackScript.Parser.Leaf

namespace StackScript

/-- A kind of declaration. -/
inductive DeclarationKind where
  | class_ (flags : ClassFlags)
  | interface
  | function
  | namespace_
  | using_
deriving DecidableEq

namespace Parse

/-! ### Declarations -/

/-- How far ahead `function` stands: at once, or behind a type. -/
def functionOffset? : Parse (Option Nat) := do
  let s ← get
  let offset :=
    if s.peek.any Token.isType then
      if (s.peekNth 1).any (·.is .openBracket) && (s.peekNth 2).any (·.is .closeBracket) then 3 else 1
    else 0
  return if (s.peekNth offset).any (·.isKeyword .function) then some offset else none

/-- The function declaration at the cursor.  Without a name it is an expression. -/
def functionKind? : Parse (Option DeclarationKind) := do
  match ← functionOffset? with
  | none => return none
  | some offset =>
    return if (← peekNth (offset + 1)).any (·.isAny [.name, .ampersand]) then some .function else none

/-- The declaration at the cursor. -/
def declarationKind? : Parse (Option DeclarationKind) := do
  let next ← peekNth 1
  let nextIs (cs : List TokenClass) : Bool := next.any (·.isAny cs)
  let beforeClass := next.any (·.isKeyword .class_)
  match (← peek).bind Token.keyword? with
  | some .class_ => return some (.class_ {})
  | some .interface => return some .interface
  | some .virtual => return if beforeClass then some (.class_ { isVirtual := true }) else none
  | some .final_ => return if beforeClass then some (.class_ { isFinal := true }) else none
  | some .namespace_ =>
    return if nextIs [.name, .namespaceMark, .openBrace] then some .namespace_ else none
  | some .using_ => return if nextIs [.name, .namespaceMark] then some .using_ else none
  | _ => functionKind?

/-- The declaration of a kind at the cursor. -/
def declaration (r : Readers) : DeclarationKind → Parse Stmt
  | .class_ flags => do
    if flags.isVirtual || flags.isFinal then advance
    classDeclaration r flags
  | .interface => interfaceDeclaration r
  | .function => functionDeclaration r
  | .namespace_ => namespaceDeclaration r
  | .using_ => usingStatement

/-- A token that starts no declaration where only declarations may stand. -/
def undeclared (t : Token) : Parse Stmt := do
  skipDeclaration
  let _ ← eat [.semicolon]
  return .report ⟨t.line, if t.keyword?.isSome then .misplacedKeyword t.text else .misplacedToken t.text⟩

/-- The declarations in the window, and nothing else.  Each round takes a token. -/
def scopeItems (r : Readers) : Nat → Parse (List Stmt)
  | 0 => return []
  | n + 1 => do
    match ← peek with
    | none => return []
    | some t =>
      let item ← match ← declarationKind? with
        | some kind => declaration r kind
        | none => undeclared t
      skipSemicolons
      return .onLine t.line item :: (← scopeItems r n)

def scope (r : Readers) : Parse (List Stmt) := do scopeItems r ((← get).remaining)

/-! ### Statements -/

def expressionStatement (r : Readers) : Parse Stmt := Stmt.expression <$> r.expr false

/-- A statement that starts with a reserved word. -/
def keywordStatement (r : Readers) (t : Token) (word : Keyword) : Parse Stmt :=
  match word with
  | .if_ => ifStatement r
  | .while_ => whileStatement r
  | .do_ => doStatement r
  | .for_ => forStatement r
  | .foreach => foreachStatement r
  | .switch => switchStatement r
  | .try_ => tryStatement r
  | .throw => throwStatement r
  | .break_ => loopJump .break_
  | .continue_ => loopJump .continue_
  | .return_ => returnStatement r
  | .exit => exitStatement r
  | .const_ => constant r
  | .static_ => do
    if ((← peekNth 1).bind Token.op?) = some .doubleColon then expressionStatement r else variableDeclaration r
  | .function | .array | .list | .self | .parent => expressionStatement r
  | _ => do
    if word.isType then
      if (← functionOffset?).isSome then expressionStatement r else variableDeclaration r
    else if word.isConstruct then expressionStatement r
    else recovered t.line (.misplacedKeyword t.text)

/-- A statement that starts with token `t`. -/
def statementOf (r : Readers) (t : Token) : Parse Stmt := do
  if t.is .raw then
    advance
    return .raw t.text
  else if t.is .openBrace then block r
  else
    match ← declarationKind? with
    | some kind => declaration r kind
    | none =>
      match t.keyword? with
      | some word => keywordStatement r t word
      | none => expressionStatement r

/-- The statement at the cursor and the semicolons behind it.  A token that nothing takes is reported and
stepped over. -/
def statement (r : Readers) : Parse Stmt := do
  match ← peek with
  | none => return .empty
  | some t =>
    let start ← pos
    let body ← statementOf r t
    skipSemicolons
    if (← pos) = start && !(← atEnd) then
      advance
      return .onLine t.line (.sequence [body, .report ⟨t.line, .misplacedToken t.text⟩])
    else return .onLine t.line body

/-! ### Whole sources -/

/-- The readers that can look `n` levels deep. -/
def readers : Nat → Readers
  | 0 => { stmt := pure .empty, expr := fun _ => pure .missing, scope := pure [] }
  | n + 1 =>
    { stmt := fun s => statement (readers n) s
      expr := fun atComma s => expr (readers n) atComma s
      scope := fun s => scope (readers n) s }

/-- The statements in the window.  Each round takes a token. -/
def statements (r : Readers) : Nat → Parse (List Stmt)
  | 0 => return []
  | n + 1 => do
    if ← atEnd then return []
    else
      let item ← r.stmt
      return item :: (← statements r n)

/-- A source in a mode. -/
def source (r : Readers) : Mode → Parse Script
  | .script => do return .statements (← statements r ((← get).remaining))
  | .declarations => do return .statements (← r.scope)
  | .expression => do
    let value ← r.expr false
    skipSemicolons
    return .expression value (← peek)

end Parse

namespace Script

/-- How many levels deep a source of this many bytes can nest. -/
def depthBound (bytes : Nat) : Nat := 2 * bytes + 4

/-- Reads the tokens of a source of so many bytes. -/
def read (mode : Mode) (bytes : Nat) (tokens : List Token) : Script :=
  ((Parse.source (Parse.readers (depthBound bytes)) mode).run (TokenStream.ofList tokens)).1

end Script

end StackScript
