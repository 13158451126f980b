/-
Conditionals, loops, jumps and exceptions.

A construct whose header cannot be read is reported, and reading goes on at the next semicolon or brace,
or behind the body.
-/
import StackScript.Parser.Declaration

namespace StackScript

namespace Parse

/-! ### Conditionals -/

/-- What follows `if` or `elseif`. -/
def chain (r : Readers) : Nat → Parse Chain
  | 0 => return .done
  | n + 1 => do
    let here ← line
    if !(← check [.openParen]) then
      synchronize
      return .malformed ⟨here, .ifWithoutParen⟩
    match ← parenGroup? with
    | none =>
      synchronize
      return .malformed ⟨here, .ifUnclosedParen⟩
    | some (opening, closing) =>
      let (test, strays) ← condition r (opening + 1) closing
      setPos (closing + 1)
      let body ← block r
      if ← checkKeyword .elseif then
        advance
        return .branch test strays body (← chain r n)
      else if ← checkKeyword .else_ then
        advance
        if ← eatKeyword .if_ then return .branch test strays body (← chain r n)
        else return .branch test strays body (.otherwise (← block r))
      else return .branch test strays body .done

def ifStatement (r : Readers) : Parse Stmt := do
  advance
  return .conditional (← chain r ((← get).remaining + 1))

/-! ### Switches -/

/-- The tokens before the colon of a label.  The colon itself, or a semicolon in its place, is stepped
over. -/
def labelRest : Parse (List Token) := do
  let s ← get
  modify (·.skipUntil [.semicolon, .colon])
  let strays := (s.tokens.extract s.pos (← pos)).toList
  advance
  return strays

/-- The statements of a label, and whether the brace behind them, which is stepped over, closes the
switch. -/
def sectionItems (r : Readers) : Nat → Parse (List Stmt × Bool)
  | 0 => return ([], false)
  | n + 1 => do
    match ← peek with
    | none => return ([], false)
    | some t =>
      if t.is .closeBrace then
        advance
        return ([], true)
      else if t.isKeyword .case_ || t.isKeyword .default_ then return ([], false)
      else
        let item ← block r
        let (items, closed) ← sectionItems r n
        return (item :: items, closed)

/-- The guard of a `case`: the line and the expression up to a colon or semicolon outside parentheses;
`none` when it is empty. -/
def caseGuard? (r : Readers) : Parse (Option (Nat × Expr)) := do
  let s ← get
  let stop := (Scan.findAtDepth s.tokens (Scan.depthChange [.openParen] [.closeParen])
    (fun t depth => t.isAny [.semicolon, .colon] && depth < 1) s.remaining s.pos 0).getD s.stop
  if stop ≤ s.pos then return none
  else
    let here ← line
    let value ← within s.pos stop (r.expr false)
    setPos stop
    return some (here, value)

/-- The labels of a switch, and the problem that ends their reading early.  `brace` is the line of the
opening brace and `out` the position behind the closing one. -/
def sections (r : Readers) (brace out : Nat) : Nat → Parse (List Section × Option Report)
  | 0 => return ([], none)
  | n + 1 => do
    match ← peek with
    | none => return ([], some ⟨brace, .unclosedSwitch⟩)
    | some t =>
      if t.is .closeBrace then
        advance
        return ([], none)
      else if t.isKeyword .default_ then
        advance
        let strays ← labelRest
        let (body, closed) ← sectionItems r ((← get).remaining + 1)
        let (rest, fault) ← if closed then pure ([], none) else sections r brace out n
        return (.default_ t.line strays body :: rest, fault)
      else if t.isKeyword .case_ then
        advance
        let here ← line
        match ← caseGuard? r with
        | none =>
          setPos out
          return ([], some ⟨here, .emptyCase⟩)
        | some (guardLine, guard) =>
          let strays ← labelRest
          let (body, closed) ← sectionItems r ((← get).remaining + 1)
          let (rest, fault) ← if closed then pure ([], none) else sections r brace out n
          return (.case_ guardLine guard strays body :: rest, fault)
      else
        setPos out
        return ([], some ⟨t.line, .unexpectedInSwitch t.text⟩)

def switchStatement (r : Readers) : Parse Stmt := do
  let here ← line
  advance
  if !(← check [.openParen]) then
    synchronize
    return .report ⟨here, .switchWithoutParen⟩
  match ← filledParenGroup? with
  | none =>
    synchronize
    return .report ⟨here, .switchWithoutSubject⟩
  | some (opening, closing) =>
    let (subject, strays) ← condition r (opening + 1) closing
    setPos (closing + 1)
    match (← peek).filter (·.is .openBrace) with
    | none =>
      let text := textOf (← peek)
      synchronize
      return .switchWithoutBody subject strays ⟨here, .unexpectedInSwitch text⟩
    | some brace =>
      let s ← get
      let out := min (s.delimit (s.pos + 1) [.openBrace] [.closeBrace] + 1) s.stop
      advance
      let (items, fault) ← sections r brace.line out ((← get).remaining + 1)
      return .switch subject strays items fault

/-! ### Loops -/

def whileStatement (r : Readers) : Parse Stmt := do
  let here ← line
  advance
  if !(← check [.openParen]) then
    synchronize
    return .report ⟨here, .whileWithoutParen⟩
  match ← filledParenGroup? with
  | none =>
    synchronize
    return .report ⟨here, .whileWithoutTest⟩
  | some (opening, closing) =>
    let (test, strays) ← condition r (opening + 1) closing
    setPos (closing + 1)
    return .whileLoop test strays (← block r)

def doStatement (r : Readers) : Parse Stmt := do
  let here ← line
  advance
  let body ← block r
  if !(← eatKeyword .while_) then
    synchronize
    return .doWithoutTest body ⟨here, .doWithoutWhile⟩
  if !(← check [.openParen]) then
    synchronize
    return .doWithoutTest body ⟨here, .whileWithoutParen⟩
  match ← filledParenGroup? with
  | none =>
    synchronize
    return .doWithoutTest body ⟨here, .whileWithoutTest⟩
  | some (opening, closing) =>
    let (test, strays) ← condition r (opening + 1) closing
    setPos (closing + 1)
    return .doLoop body test strays

/-- The first part of a `for`, and the position behind its semicolon, if it has one. -/
def forInit (r : Readers) : Parse (Stmt × Option Nat) := do
  let init ← if (← peek).any Token.isType then variableDeclaration r else Stmt.expression <$> r.expr false
  if ← eat [.semicolon] then return (init, some (← pos)) else return (init, none)

/-- The test of a `for`, whether the semicolon behind it is missing, and the position behind it. -/
def forTest (r : Readers) : Parse (Expr × Bool × Nat) := do
  let test ← r.expr false
  let ended ← eat [.semicolon]
  return (test, !ended, ← pos)

/-- The last part of a `for`, and whether tokens are left over behind it. -/
def forPost (r : Readers) : Parse (Expr × Bool) := do
  skipSemicolons
  let post ← r.expr false
  return (post, !(← atEnd))

def forStatement (r : Readers) : Parse Stmt := do
  let here ← line
  advance
  if !(← check [.openParen]) then
    synchronize
    return .report ⟨here, .forWithoutParen⟩
  match ← filledParenGroup? with
  | none =>
    setPos ((← parenGroup?).elim (← get).stop fun (_, closing) => closing + 1)
    skipDeclaration
    return .report ⟨here, .forInvalid⟩
  | some (opening, closing) =>
    let (init, testStart) ← within (opening + 1) closing (forInit r)
    match testStart with
    | none =>
      setPos (closing + 1)
      skipDeclaration
      return .sequence [init, .report ⟨here, .forAfterInit⟩]
    | some testStart =>
      let (test, afterTest, postStart) ← within testStart closing (forTest r)
      let (post, afterPost) ← within postStart closing (forPost r)
      setPos (closing + 1)
      return .forLoop here init test afterTest (← block r) post afterPost

/-- Drops the rest of a `foreach` whose head ends at `closing`. -/
def abandonForeach (closing : Nat) (head : ForeachHead) : Parse ForeachHead := do
  setPos (closing + 1)
  skipDeclaration
  return head

/-- The line of the token at an index. -/
def lineAt (i : Nat) : Parse Nat := do
  let s ← get
  return (s.get? i).elim s.line Token.line

/-- The value of a `foreach` head, from `start` on, and the body behind it. -/
def foreachValue (r : Readers) (start closing : Nat) : Parse ForeachHead := do
  let byRef := ((← get).get? start).any (·.is .ampersand)
  let start := if byRef then start + 1 else start
  if closing ≤ start then abandonForeach closing (.malformed .foreachWithoutValue)
  else
    let value ← within start closing (r.expr false)
    match value.soleVariableName? with
    | none => abandonForeach closing (.unbound (← lineAt start) value)
    | some name =>
      setPos (closing + 1)
      return .value byRef name value (← block r)

/-- What follows `as` in a `foreach` head, from `start` on, and the body behind it. -/
def foreachHead (r : Readers) (start closing : Nat) : Parse ForeachHead := do
  if closing ≤ start then abandonForeach closing (.malformed .foreachWithoutBinding)
  else
    match ← findIndex start closing (·.is .doubleArrow) with
    | none => foreachValue r start closing
    | some arrow =>
      if arrow = start then abandonForeach closing (.malformed .foreachWithoutKey)
      else
        let key ← within start arrow (r.expr false)
        match key.soleVariableName? with
        | none => abandonForeach closing (.unbound (← lineAt start) key)
        | some name => return .key name key (← foreachValue r (arrow + 1) closing)

def foreachStatement (r : Readers) : Parse Stmt := do
  let here ← line
  advance
  if !(← check [.openParen]) then
    synchronize
    return .report ⟨here, .foreachWithoutParen⟩
  match ← filledParenGroup? with
  | none =>
    synchronize
    return .report ⟨here, .foreachWithoutHead⟩
  | some (opening, closing) =>
    match (← findIndex (opening + 1) closing (·.isKeyword .as_)).filter (opening + 1 < ·) with
    | none =>
      setPos (closing + 1)
      skipDeclaration
      return .report ⟨here, .foreachWithoutSource⟩
    | some as =>
      let (source, strays) ← condition r (opening + 1) as
      return .foreach here source strays (← foreachHead r (as + 1) closing)

/-! ### Jumps -/

/-- The level of a jump: a decimal numeral below 2 ^ 32; any other number counts as none. -/
def jumpLevel (t : Token) : Nat :=
  let value := digitsValue 10 t.text.toList
  if t.text.toList.all Char.isDigit && value < twoPow 32 then value else 0

/-- A jump out of or within a loop.  Whatever stands between it and its semicolon is skipped. -/
def loopJump (jump : LoopJump) : Parse Stmt := do
  let here ← line
  advance
  let level ← match (← peek).filter (·.isAny [.integer, .real]) with
    | some t => do
      advance
      pure (jumpLevel t)
    | none => pure 0
  let unterminated := !(← check [.semicolon]) && !(← atEnd)
  recover
  return .loopJump jump here level unterminated

def returnStatement (r : Readers) : Parse Stmt := do
  advance
  return .return_ (← r.expr false)

def exitStatement (r : Readers) : Parse Stmt := do
  advance
  return .exit (← r.expr false)

/-! ### Exceptions -/

/-- A `catch` clause that is dropped with its body. -/
def malformedCatch (line : Nat) (problem : Problem) : Parse CatchClause := do
  skipDeclaration
  return .malformed ⟨line, problem⟩

/-- A `catch` clause, from behind its word. -/
def catchClause (r : Readers) : Parse CatchClause := do
  let here ← line
  let paren ← peek
  if !paren.any (·.is .openParen) then malformedCatch here (.catchWithoutClass (textOf paren))
  else
    let className ← peekNth 1
    if !className.any (·.is .name) then malformedCatch here (.catchWithoutClass (textOf className))
    else
      advance
      advance
      match ← variableName? with
      | none => malformedCatch here (.catchWithoutVariable (textOf (← peek)))
      | some binding =>
        advance
        advance
        if ← eat [.closeParen] then return .clause (textOf className) binding (← block r)
        else malformedCatch here (.catchUnclosedParen (textOf (← peek)))

/-- The `catch` clauses at the cursor. -/
def catchClauses (r : Readers) : Nat → Parse (List CatchClause)
  | 0 => return []
  | n + 1 => do
    if ← eatKeyword .catch_ then
      let clause ← catchClause r
      return clause :: (← catchClauses r n)
    else return []

def tryStatement (r : Readers) : Parse Stmt := do
  let here ← line
  advance
  let body ← block r
  if ← checkKeyword .catch_ then
    return .tryCatch body (← catchClauses r ((← get).remaining)) none
  else
    let text := textOf (← peek)
    return .tryCatch body [] (some ⟨here, .tryWithoutCatch text⟩)

def throwStatement (r : Readers) : Parse Stmt := do
  let here ← line
  advance
  return .throw here (← r.expr false)

end Parse

end StackScript
