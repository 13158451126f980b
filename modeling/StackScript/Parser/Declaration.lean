/-
Constants, typed variables, namespaces and `using`.
-/
import StackScript.Parser.Function

namespace StackScript

namespace Parse

/-- Whether a constant may not have this name, in whatever case it is written. -/
def isReservedConstant (name : String) : Bool := ["null", "true", "false"].contains name.toLower

/-- Reports a statement that could not be read and steps up to its semicolon. -/
def recovered (line : Nat) (problem : Problem) : Parse Stmt := do
  recover
  return .report ⟨line, problem⟩

/-- Reports a declaration that could not be read and steps over it. -/
def dropped (line : Nat) (problem : Problem) : Parse Stmt := do
  skipDeclaration
  return .report ⟨line, problem⟩

/-- The definition of a constant. -/
def constant (r : Readers) : Parse Stmt := do
  let here ← line
  advance
  match (← peek).filter (·.isAny [.template, .simpleString, .name, .keyword]) with
  | none => recovered here .invalidConstantName
  | some name =>
    if isReservedConstant name.text then recovered here (.reservedConstant name.text)
    else
      advance
      if ← eat [.equals] then
        let valueLine ← line
        return .constant name.text valueLine (← r.expr false)
      else recovered here .constantWithoutEquals

/-! ### Variables -/

/-- A variable without `static`.  An assignment is read from the variable on. -/
def localDeclarator (r : Readers) (name : String) : Parse Declarator := do
  let here ← line
  if (← peekNth 2).any (·.is .equals) then return .assigned here name (← r.expr true)
  else
    advance
    advance
    return .plain here name

/-- A variable that keeps its value. -/
def staticDeclarator (r : Readers) (name : String) : Parse Declarator := do
  let here ← line
  advance
  advance
  if ← eat [.equals] then
    let valueLine ← line
    return .staticValue here name valueLine (← r.expr true)
  else return .static here name

/-- The variables of a declaration that starts on `line`, and the problem that ends their reading. -/
def declarators (r : Readers) (line : Nat) (isStatic : Bool) :
    Nat → Parse (List Declarator × Option Report)
  | 0 => return ([], none)
  | n + 1 => do
    match ← variableName? with
    | none =>
      let text := textOf (← peek)
      recover
      return ([], some ⟨line, .expectedVariable text⟩)
    | some name =>
      let item ← if isStatic then staticDeclarator r name else localDeclarator r name
      match ← peek with
      | none => return ([item], none)
      | some t =>
        if t.is .semicolon then return ([item], none)
        else if t.is .comma then
          advance
          let (items, fault) ← declarators r line isStatic n
          return (item :: items, fault)
        else
          recover
          return ([item], some ⟨t.line, .unexpectedToken t.text⟩)

/-- A declaration of typed variables.  The cursor is left on its semicolon. -/
def variableDeclaration (r : Readers) : Parse Stmt := do
  let here ← line
  let isStatic ← eatKeyword .static_
  match ← builtinType? with
  | none => recovered here (.unknownType (textOf (← peek)))
  | some type =>
    let (items, fault) ← declarators r here isStatic ((← get).remaining + 1)
    return .declaration type items fault

/-! ### Namespaces -/

/-- A namespace.  Its path is skipped and its body holds declarations only. -/
def namespaceDeclaration (r : Readers) : Parse Stmt := do
  let here ← line
  advance
  match (← peek).filter fun t =>
      !t.isAny [.namespaceMark, .name, .keyword, .semicolon, .openBrace] with
  | some t => dropped here (.unexpectedInNamespace t.text)
  | none =>
    modify (·.skipWhile (·.isAny [.namespaceMark, .name, .keyword]))
    if !(← check [.openBrace]) then
      let text := textOf (← peek)
      dropped here (.namespaceWithoutBrace text)
    else
      match ← braceGroup? with
      | none =>
        skipToEnd
        return .report ⟨here, .unclosedNamespace⟩
      | some (opening, closing) =>
        let items ← within (opening + 1) closing r.scope
        setPos (closing + 1)
        return .namespace_ here items

/-- A `using` statement, which is read and skipped. -/
def usingStatement : Parse Stmt := do
  let here ← line
  advance
  let skipPath : Parse Unit := modify (·.skipWhile (·.isAny [.namespaceMark, .name, .comma]))
  skipPath
  if ← eatKeyword .as_ then skipPath
  if ← check [.semicolon] then return .using_ here
  else recovered here (.usingUnterminated (textOf (← peek)))

end Parse

end StackScript
