/-
Classes and interfaces.

Any malformed member ends the reading of the whole declaration; what was read before it is kept together
with the error, and reading goes on behind the closing brace.
-/
import StackScript.Parser.Declaration

namespace StackScript

namespace Parse

/-- Names separated by commas; `none` when one is missing. -/
def nameList? : Nat → Parse (Option (List String))
  | 0 => return none
  | n + 1 => do
    match (← peek).filter (·.is .name) with
    | none => return none
    | some t =>
      advance
      if ← eat [.comma] then
        match ← nameList? n with
        | none => return none
        | some names => return some (t.text :: names)
      else return some [t.text]

/-! ### Members -/

/-- The members read, and the error that ends the reading, if there is one. -/
abbrev MembersRead := List Member × Option ErrorReport

/-- The members read before one that ends the reading, and its problem. -/
def abandon (read : List Member) (line : Nat) (problem : Problem)
    (isError : problem.severity = .error := by rfl) : MembersRead :=
  (read, some ⟨line, problem, isError⟩)

/-- The reserved word a member starts with, or the line and text of what stands there instead. -/
def memberKeyword : Parse (Except (Nat × String) Keyword) := do
  match ← peek with
  | some t =>
    match t.keyword? with
    | some word => return .ok word
    | none => return .error (t.line, t.text)
  | none => return .error (← line, textOf none)

/-- The constants of one declaration, with the cursor on the first name. -/
def classConstants (r : Readers) (className : String) (visibility : Visibility) :
    Nat → Parse MembersRead
  | 0 => return ([], none)
  | n + 1 => do
    let here ← line
    match (← peek).filter (·.is .name) with
    | none =>
      let text := textOf (← peek)
      recover
      return abandon [] here (.invalidClassConstant text className)
    | some name =>
      if isReservedConstant name.text then
        recover
        return abandon [] here (.reservedClassConstant name.text)
      advance
      if !(← eat [.equals]) then
        recover
        return abandon [] here (.classConstantWithoutEquals name.text)
      let valueLine ← line
      let value ← r.expr true
      let item := Member.constant ⟨name.text, here, visibility, { isConstant := true }⟩ valueLine value
      if !(← eat [.comma]) then return ([item], none)
      if ← check [.name] then
        let (items, fault) ← classConstants r className visibility n
        return (item :: items, fault)
      else
        let text := textOf (← peek)
        recover
        return ([item, .report ⟨here, .expectedConstant text className⟩], none)

/-- The attributes of one declaration, with the cursor on the first dollar sign. -/
def classAttributes (r : Readers) (className : String) (type : TypeSpec) (visibility : Visibility)
    (flags : MemberFlags) : Nat → Parse MembersRead
  | 0 => return ([], none)
  | n + 1 => do
    let here ← line
    advance
    match (← peek).filter (·.isAny [.name, .keyword]) with
    | none =>
      let text := textOf (← peek)
      recover
      return abandon [] here (.invalidAttributeName text className)
    | some name =>
      advance
      if !(← atEnd) && !(← check [.equals, .semicolon, .comma]) then
        recover
        return abandon [] here (.attributeUnterminated name.text)
      let head : MemberHead := ⟨name.text, here, visibility, flags⟩
      let item ← if ← eat [.equals] then do
          let valueLine ← line
          pure (Member.attributeValue head type valueLine (← r.expr true))
        else pure (Member.attribute head type)
      if !(← eat [.comma]) then return ([item], none)
      if ← check [.dollar] then
        let (items, fault) ← classAttributes r className type visibility flags n
        return (item :: items, fault)
      else
        let text := textOf (← peek)
        recover
        return ([item, .report ⟨here, .expectedAttribute text className⟩], none)

/-- What is wrong with a virtual method before its arguments are looked at. -/
def virtualProblems (head : ClassHead) (method : MemberHead) : List Member :=
  if method.flags.isVirtual then
    (if method.visibility = .private_ then
      [.report ⟨method.line, .privateVirtual head.name method.name⟩] else []) ++
    (if head.flags.isVirtual then []
      else [.report ⟨method.line, .virtualInPlainClass head.name method.name⟩])
  else []

/-- A method, from behind its type.  Virtual methods and those of an interface have no body. -/
def classMethod (r : Readers) (head : ClassHead) (returns : TypeSpec) (visibility : Visibility)
    (flags : MemberFlags) : Parse MembersRead := do
  let here ← line
  let byRef ← eat [.ampersand]
  match (← peek).filter (·.is .name) with
  | none =>
    let text := textOf (← peek)
    recover
    return abandon [] here (.invalidMethodName text head.name)
  | some name =>
    advance
    let member : MemberHead := ⟨name.text, here, visibility, flags⟩
    let function : FunctionHead :=
      ⟨name.text, returns, here, { isMethod := true, returnsRef := byRef }⟩
    let problems := virtualProblems head member
    if !(← check [.openParen]) then
      recover
      return abandon problems here (.methodWithoutParen head.name name.text)
    match ← signature? r with
    | none =>
      skipToEnd
      return abandon problems here (.methodUnclosedParen head.name name.text)
    | some (params, fault) =>
      let bare := problems ++ [.signature member function params fault]
      if flags.isVirtual || head.flags.isInterface then
        if (← atEnd) || (← check [.semicolon]) then return (bare, none)
        else return abandon bare here (.methodWithBody head.name name.text)
      else if ← check [.openBrace] then
        return (problems ++ [.method member function params fault (← block r)], none)
      else return abandon bare here (.methodWithoutBody head.name name.text)

/-- A member from its type on: attributes or a method. -/
def typedMember (r : Readers) (head : ClassHead) (visibility : Visibility) (flags : MemberFlags) :
    Parse MembersRead := do
  match ← builtinType? with
  | none =>
    let t ← peek
    return abandon [] (t.elim head.line Token.line) (.expectedMemberType (textOf t) head.name)
  | some type =>
    if ← check [.dollar] then
      classAttributes r head.name type visibility flags ((← get).remaining)
    else classMethod r head type visibility flags

/-- A member behind `virtual` or `final`: an optional visibility, an optional `static`, and a method. -/
def markedMember (r : Readers) (head : ClassHead) (visibility : Visibility) (flags : MemberFlags)
    (word : String) : Parse MembersRead := do
  let visibility ← match ((← peek).bind Token.keyword?).bind Visibility.ofKeyword? with
    | some v => do
      advance
      pure v
    | none => pure visibility
  let isStatic ← eatKeyword .static_
  let t ← peek
  let isMethod := t.any fun t => t.is .keyword
  if isMethod && (t.any Token.isType || (← peekNth 2).any (·.is .openParen)) then
    typedMember r head visibility { flags with isStatic := isStatic }
  else return abandon [] (t.elim head.line Token.line) (.expectedMethod (textOf t) word head.name)

/-- A member behind its visibility, which starts with the reserved word `word`. -/
def visibleMember (r : Readers) (head : ClassHead) (visibility : Visibility) (word : Keyword) :
    Parse MembersRead := do
  match word with
  | .const_ =>
    advance
    classConstants r head.name visibility ((← get).remaining + 1)
  | .static_ =>
    advance
    match ← memberKeyword with
    | .error (line, text) => return abandon [] line (.unexpectedStaticMember text head.name)
    | .ok next =>
      match Visibility.ofKeyword? next with
      | some v =>
        advance
        typedMember r head v { isStatic := true }
      | none => typedMember r head visibility { isStatic := true }
  | .virtual =>
    advance
    markedMember r head visibility { isVirtual := true } "virtual"
  | .final_ =>
    advance
    markedMember r head visibility { isFinal := true } "final"
  | _ => typedMember r head visibility {}

/-- A member of a class. -/
def classMember (r : Readers) (head : ClassHead) : Parse MembersRead := do
  match ← memberKeyword with
  | .error (line, text) => return abandon [] line (.unexpectedMember text head.name)
  | .ok word =>
    match Visibility.ofKeyword? word with
    | none => visibleMember r head .public_ word
    | some visibility =>
      advance
      match ← memberKeyword with
      | .error (line, text) => return abandon [] line (.unexpectedMember text head.name)
      | .ok next => visibleMember r head visibility next

/-- The warning about a visibility an interface does not have. -/
def visibilityWarning (visibility : Option Visibility) : Parse (List Member) := do
  match visibility with
  | some .protected_ | some .private_ => return [.report ⟨← line, .interfaceNotPublic⟩]
  | _ => return []

/-- A member of an interface behind its visibility, which starts with the reserved word `word`. -/
def interfaceSignature (r : Readers) (head : ClassHead) (isStatic : Bool) : Parse MembersRead := do
  match ← builtinType? with
  | none =>
    let t ← peek
    return abandon [] (t.elim head.line Token.line) (.expectedSignatureType (textOf t) head.name)
  | some type =>
    if ← check [.dollar] then
      let here ← line
      recover
      return ([.report ⟨here, .attributeInInterface head.name⟩], none)
    else classMethod r head type .public_ { isStatic := isStatic }

/-- A member of an interface behind its visibility. -/
def publicMember (r : Readers) (head : ClassHead) (word : Keyword) : Parse MembersRead := do
  match word with
  | .const_ =>
    advance
    classConstants r head.name .public_ ((← get).remaining + 1)
  | .static_ =>
    advance
    match ← memberKeyword with
    | .error (line, _) => return abandon [] line (.expectedSignature head.name)
    | .ok next =>
      match Visibility.ofKeyword? next with
      | none => interfaceSignature r head true
      | some visibility =>
        let warning ← visibilityWarning (some visibility)
        advance
        let (items, fault) ← interfaceSignature r head true
        return (warning ++ items, fault)
  | _ => interfaceSignature r head false

/-- A member of an interface. -/
def interfaceMember (r : Readers) (head : ClassHead) : Parse MembersRead := do
  match ← memberKeyword with
  | .error (line, text) => return abandon [] line (.unexpectedInterfaceMember text head.name)
  | .ok word =>
    match Visibility.ofKeyword? word with
    | none => publicMember r head word
    | some visibility =>
      let warning ← visibilityWarning (some visibility)
      advance
      match ← memberKeyword with
      | .error (line, _) => return abandon warning line (.expectedSignature head.name)
      | .ok next =>
        let (items, fault) ← publicMember r head next
        return (warning ++ items, fault)

/-- The members in the window, up to an error that ends their reading. -/
def members (r : Readers) (head : ClassHead) : Nat → Parse MembersRead
  | 0 => return ([], none)
  | n + 1 => do
    skipSemicolons
    if ← atEnd then return ([], none)
    else
      let (items, fault) ← if head.flags.isInterface then interfaceMember r head
        else classMember r head
      match fault with
      | some _ => return (items, fault)
      | none =>
        let (rest, fault) ← members r head n
        return (items ++ rest, fault)

/-! ### Declarations -/

/-- The names behind a word, none when the word is not there, or `none` when a name is missing. -/
def namesBehind? (word : Keyword) : Parse (Option (List String)) := do
  if ← eatKeyword word then nameList? ((← get).remaining) else return some []

/-- The body of a class with this head. -/
def classBody (r : Readers) (head : ClassHead) (withoutBrace unclosed : Problem) : Parse Stmt := do
  if !(← check [.openBrace]) then dropped head.line withoutBrace
  else
    match ← braceGroup? with
    | none =>
      skipToEnd
      return .report ⟨head.line, unclosed⟩
    | some (opening, closing) =>
      let (items, fault) ← within (opening + 1) closing do
        members r head ((← get).remaining + 1)
      setPos (closing + 1)
      return .class_ head items fault

/-- A class, with the cursor on its word. -/
def classDeclaration (r : Readers) (flags : ClassFlags) : Parse Stmt := do
  let here ← line
  advance
  match (← peek).filter (·.is .name) with
  | none => dropped here .invalidClassName
  | some name =>
    advance
    match ← namesBehind? .extends_ with
    | none => dropped here (.missingBaseClass name.text)
    | some bases =>
      match ← namesBehind? .implements with
      | none => dropped here (.missingInterface name.text)
      | some interfaces =>
        classBody r ⟨name.text, here, flags, bases, interfaces⟩ (.classWithoutBrace name.text)
          (.unclosedClass name.text)

/-- An interface, with the cursor on its word. -/
def interfaceDeclaration (r : Readers) : Parse Stmt := do
  let here ← line
  advance
  match (← peek).filter (·.is .name) with
  | none => dropped here .invalidInterfaceName
  | some name =>
    advance
    match ← namesBehind? .extends_ with
    | none => dropped here (.missingBaseInterface name.text)
    | some bases =>
      classBody r ⟨name.text, here, { isInterface := true }, bases, []⟩
        (.interfaceWithoutBrace name.text) (.unclosedInterface name.text)

end Parse

end StackScript
