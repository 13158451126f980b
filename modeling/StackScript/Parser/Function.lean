/-
Functions: argument lists, captured variables and bodies.

Reading an argument list stops at the first malformed argument; the arguments before it are kept.
-/
import StackScript.Parser.Block

namespace StackScript

namespace Parse

/-! ### Arguments -/

/-- The declared type of an argument that starts with token `t`, if it has one. -/
def argumentType (t : Token) : Parse (Except Report (Option TypeSpec)) := do
  if t.is .keyword then
    match ← builtinType? with
    | some type => return .ok (some type)
    | none => return .error ⟨t.line, .unknownType t.text⟩
  else if t.is .name then
    advance
    return .ok (some ⟨.named t.text, ← arraySuffix⟩)
  else return .ok none

/-- The default value behind an equals sign: its line and its expression, which may not be empty. -/
def argumentDefault (r : Readers) (line : Nat) : Parse (Except Report (Nat × Expr)) := do
  let s ← get
  let stop := s.exprEnd s.pos true
  if stop ≤ s.pos then return .error ⟨line, .missingArgumentDefault⟩
  else
    let valueLine ← Parse.line
    let value ← within s.pos stop (r.expr false)
    setPos stop
    return .ok (valueLine, value)

/-- The argument that starts with token `t`. -/
def argument (r : Readers) (t : Token) : Parse (Except Report Parameter) := do
  match ← argumentType t with
  | .error report => return .error report
  | .ok type =>
    let byRef ← eat [.ampersand]
    if ← atEnd then return .error ⟨t.line, .missingArgumentName⟩
    match ← variableName? with
    | none => return .error ⟨t.line, .invalidArgumentName⟩
    | some name =>
      advance
      advance
      if ← eat [.equals] then
        match ← argumentDefault r t.line with
        | .error report => return .error report
        | .ok (line, value) => return .ok (.optional name type byRef line value)
      else return .ok (.required name type byRef)

/-- The arguments in the window, up to the first malformed one. -/
def arguments (r : Readers) : Nat → Parse (List Parameter × Option Report)
  | 0 => return ([], none)
  | n + 1 => do
    match ← peek with
    | none => return ([], none)
    | some t =>
      match ← argument r t with
      | .error report => return ([], some report)
      | .ok param =>
        match ← peek with
        | none => return ([param], none)
        | some next =>
          if next.is .comma then
            advance
            let (params, fault) ← arguments r n
            return (param :: params, fault)
          else return ([param], some ⟨next.line, .unexpectedToken next.text⟩)

/-- The arguments between two parentheses. -/
def argumentsBetween (r : Readers) (opening closing : Nat) : Parse (List Parameter × Option Report) :=
  within (opening + 1) closing do arguments r ((← get).remaining)

/-- The argument list at the cursor; `none` when it is not closed. -/
def signature? (r : Readers) : Parse (Option (List Parameter × Option Report)) := do
  match ← parenGroup? with
  | none => return none
  | some (opening, closing) =>
    let params ← argumentsBetween r opening closing
    setPos (closing + 1)
    return some params

/-! ### Captured variables -/

/-- The captured variables up to the closing parenthesis, and the line of what is not one. -/
def captureItems : Nat → Parse (List Capture × Option Nat)
  | 0 => return ([], none)
  | n + 1 => do
    match ← peek with
    | none => return ([], none)
    | some t =>
      if t.is .closeParen then
        advance
        return ([], none)
      else
        let byRef ← eat [.ampersand]
        match ← variableName? with
        | none =>
          let here ← line
          skipUntil [.closeParen]
          advance
          return ([], some here)
        | some name =>
          advance
          advance
          modify (·.skipWhile (·.is .comma))
          let (captures, fault) ← captureItems n
          return (⟨name, byRef, false⟩ :: captures, fault)

/-- The captured variables; the instance is captured without being named. -/
def withInstance (captures : List Capture) : List Capture :=
  if captures.any (·.name == "this") then captures else captures ++ [⟨"this", false, true⟩]

/-- The list of captured variables, with the cursor on its word. -/
def captureList : Parse CaptureList := do
  let here ← line
  advance
  let opened ← check [.openParen]
  advance
  let (captures, fault) ← captureItems ((← get).remaining)
  return ⟨if opened then none else some here, withInstance captures, fault⟩

/-! ### Anonymous and named functions -/

/-- The type in front of a function, `mixed` when there is none. -/
def returnType : Parse TypeSpec := do return (← builtinType?).getD TypeSpec.mixed

/-- An anonymous function that fills the window.  A name on it is ignored. -/
def closure (r : Readers) : Parse Leaf := do
  let here ← line
  let returns ← returnType
  let _ ← eatKeyword .function
  let _ ← eat [.name]
  match ← signature? r with
  | none => return .unread here
  | some (params, fault) =>
    let captures ← if ← checkKeyword .using_ then some <$> captureList else pure none
    return .closure here returns params fault captures (← block r)

/-- A function declaration. -/
def functionDeclaration (r : Readers) : Parse Stmt := do
  let here ← line
  let returns ← returnType
  advance
  let byRef ← eat [.ampersand]
  match (← peek).filter (·.is .name) with
  | none =>
    let text := (← peek).elim "" Token.text
    skipDeclaration
    return .report ⟨here, .invalidFunctionName text⟩
  | some name =>
    advance
    if ← check [.openParen] then
      let parenLine ← line
      match ← signature? r with
      | none =>
        skipToEnd
        return .report ⟨parenLine, .unclosedParameters name.text⟩
      | some (params, fault) =>
        let head := ⟨name.text, returns, here, { returnsRef := byRef }⟩
        return .function head params fault (← block r)
    else
      skipDeclaration
      return .report ⟨here, .functionWithoutParen name.text⟩

end Parse

end StackScript
