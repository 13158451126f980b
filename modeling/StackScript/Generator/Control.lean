/-
Statements.

The code of each construct, with `Lx` for the instruction behind it:

    if (a) A elseif (b) B else C      a; JMPZ L1; A; JMP Lx; L1: b; JMPZ L2; B; JMP Lx; L2: C
    while (a) A                       L0: a; JMPZ Lx; A; JMP L0
    do A while (a);                   L0: A; a; JMPNZ L0
    for (i; a; p) A                   i; L0: a; JMPZ Lx; A; p; JMP L0
    foreach (s as $v) A               s; FOREACH_INIT Lx; L0: FOREACH_STEP Lx; A; JMP L0
    switch (s) { case a: A }          s; SWITCH; A
    try A catch (C $e) B              LOAD_EXCEPTION L1; A; L1: POP_EXCEPTION

A `break` jumps to `Lx`.  A `continue` jumps to `L0`, or where the target is known only behind the body,
to the test of `do` and the last part of `for`; that of a switch leaves it.  The generators here take
those of the parts as arguments.
-/
import StackScript.Generator.Function

namespace StackScript

namespace Gen

/-- Reports the tokens left over behind a condition. -/
def reportStrays (header : Header) (strays : List Token) : Gen Unit :=
  reportAll (strays.map fun t => ⟨t.line, .strayToken header t.text⟩)

/-- Emits a jump to an instruction. -/
def jumpTo (op : Opcode) (target : Nat) : Gen Unit := put op 0 target .none

/-- Drops the value of an expression, if it has one. -/
def dropIf (isPresent : Bool) : Gen Unit := if isPresent then drop else pure ()

/-! ### Simple statements -/

def raw (text : String) : Gen Unit := do
  loadConstant (·.addString text)
  put .consume 0 0 .none

def expression (isPresent : Bool) (value : Gen Unit) : Gen Unit := do
  value
  dropIf isPresent

def return_ (isPresent : Bool) (value : Gen Unit) : Gen Unit := do
  value
  put .done (flag isPresent) 0 .none

def exit (isPresent : Bool) (value : Gen Unit) : Gen Unit := do
  value
  put .halt (flag isPresent) 0 .none

/-- Statements in braces; the line of a block that is not closed. -/
def braces (items : Gen Unit) (unclosed : Option Nat) : Gen Unit := do
  owned [.braces] (← here) .none fun _ => do
    items
    reportFault (unclosed.map fun line => ⟨line, .unclosedBlock⟩)

/-! ### Conditionals -/

/-- One branch of an `if` on a block, and what follows it. -/
def branch (id : Nat) (test : Gen Unit) (strays : List Token) (body : Gen Unit) (isLast : Bool)
    (rest : Gen Unit) : Gen Unit := do
  test
  reportStrays .plain strays
  await id .jmpz .none
  body
  if !isLast then await id .jmp .none
  settle id (some .jmpz)
  rest

def conditional (chain : Nat → Gen Unit) : Gen Unit := inBlock [.conditional] none chain

/-- The label and body of a switch section: where the body starts. -/
def sectionBody (strays : List Token) (body : Gen Unit) : Gen Nat := do
  reportAll (strays.map fun t => ⟨t.line, .unexpectedToken t.text⟩)
  let start ← here
  body
  return start

def caseSection (line : Nat) (isPresent : Bool) (guard : Gen Unit) (strays : List Token)
    (body : Gen Unit) (table : SwitchTable) : Gen SwitchTable := do
  let guard ← thunk line isPresent guard
  let start ← sectionBody strays body
  return { table with cases := table.cases ++ [⟨guard, start⟩] }

/-- Of several default sections the first one counts. -/
def defaultSection (line : Nat) (strays : List Token) (body : Gen Unit) (table : SwitchTable) :
    Gen SwitchTable := do
  if table.default?.isSome then report line .repeatedDefault
  let start ← sectionBody strays body
  return { table with default? := table.default?.or (some start) }

def switch (subject : Gen Unit) (strays : List Token) (sections : SwitchTable → Gen SwitchTable)
    (fault : Option Report) : Gen Unit :=
  inBlock [.loop, .switch] none fun _ => do
    subject
    reportStrays .switch strays
    let id ← reserveSwitch
    put .switch 0 0 (.switch id)
    let table ← sections {}
    reportFault fault
    fillSwitch id { table with out := ← here }

def switchWithoutBody (subject : Gen Unit) (strays : List Token) (r : Report) : Gen Unit :=
  inBlock [.loop, .switch] none fun _ => do
    subject
    reportStrays .switch strays
    report r.line r.problem

/-! ### Loops -/

def whileLoop (test : Gen Unit) (strays : List Token) (body : Gen Unit) : Gen Unit := do
  let first ← here
  inBlock [.loop] none fun id => do
    test
    reportStrays .plain strays
    await id .jmpz .none
    body
    jumpTo .jmp first

def doLoop (body test : Gen Unit) (strays : List Token) : Gen Unit := do
  let first ← here
  inBlock [.loop] (some []) fun id => do
    body
    settleContinue id
    test
    reportStrays .plain strays
    jumpTo .jmpnz first

def doWithoutTest (body : Gen Unit) (r : Report) : Gen Unit :=
  inBlock [.loop] (some []) fun _ => do
    body
    report r.line r.problem

/-- Emits the jump out of a loop, if it has a test. -/
def exitIf (hasTest : Bool) (id : Nat) : Gen Unit := if hasTest then await id .jmpz .none else pure ()

def reportIf (isWrong : Bool) (line : Nat) (problem : Problem) : Gen Unit :=
  if isWrong then report line problem else pure ()

/-- A `for` without a test runs until it is left. -/
def forLoop (line : Nat) (init : Gen Unit) (hasTest : Bool) (test : Gen Unit) (afterTest : Bool)
    (body : Gen Unit) (hasPost : Bool) (post : Gen Unit) (afterPost : Bool) : Gen Unit := do
  init
  let first ← here
  inBlock [.loop] (some []) fun id => do
    test
    exitIf hasTest id
    reportIf afterTest line .forAfterTest
    body
    settleContinue id
    post
    dropIf hasPost
    reportIf afterPost line .forAfterPost
    jumpTo .jmp first

/-- What does not name a variable to bind; it is reported once. -/
def unbound (line : Nat) (binding : Gen Unit) : Gen Unit := do
  let errors ← errorCount
  discarding binding
  if (← errorCount) = errors then report line .foreachNotVariable

/-- The loop over a source that is on the stack. -/
def foreachLoop (id : Nat) (table : ForeachTable) (body : Gen Unit) : Gen Unit := do
  let table ← addForeach table
  await id .foreachInit (.foreach table)
  restartHere id
  let first ← here
  await id .foreachStep (.foreach table)
  body
  jumpTo .jmp first

def foreach (source : Gen Unit) (strays : List Token) (head : Nat → Gen Unit) : Gen Unit :=
  inBlock [.loop] none fun id => do
    source
    reportStrays .foreach strays
    head id

/-- The jump of a `break` or `continue` on its target. -/
def jumpOn (jump : LoopJump) (id : Nat) (target : Block) : Gen Unit :=
  if jump = .break_ || target.hasAny [.switch] then await id .jmp .none
  else if target.deferred.isSome then awaitContinue id
  else jumpTo .jmp target.first

/-- A `break` or `continue` of so many enclosing loops. -/
def loopJump (jump : LoopJump) (line level : Nat) (unterminated : Bool) : Gen Unit := do
  let blocks := (← get).blocks
  match blocks.enclosing? [.loop] level with
  | none => report line (.jumpOutsideLoop jump)
  | some id =>
    match blocks.get? id with
    | none => pure ()
    | some target =>
      recordJump id
      jumpOn jump id target
      if unterminated then report line (.jumpWithoutSemicolon jump)

/-! ### Exceptions -/

/-- The body of a catch clause.  Nothing in it can jump into the code around it. -/
def catchBody (body : Gen Unit) : Gen Code :=
  owned [.exception, .guarded] 0 .none fun id =>
    inContainer do
      body
      settle id none
      put .done 0 0 .none

/-- A protected body; returns the table of its catch clauses. -/
def tryBody (body : Gen Unit) : Gen Nat := do
  owned [.exception] (← here) .none fun id => do
    let table ← reserveException
    await id .loadException (.exception table)
    body
    settle id none
    put .popException 0 0 (.exception table)
    return table

def tryCatch (body : Gen Unit) (clauses : Nat → Gen Unit) (fault : Option Report) : Gen Unit := do
  let table ← tryBody body
  clauses table
  reportFault fault

/-- A thrown exception leaves the innermost protected body or function. -/
def throw (line : Nat) (isPresent : Bool) (value : Gen Unit) : Gen Unit := do
  value
  if isPresent then await ((← get).blocks.nearest [.exception, .function]) .throw .none
  else report line .notThrowable

/-! ### Declarations -/

def constant (name : String) (line : Nat) (isPresent : Bool) (value : Gen Unit) : Gen Unit := do
  defineConstant name (← thunk line isPresent value)

def declare (line : Nat) (type : TypeSpec) (name : String) : Gen Unit := do
  setLine line
  put .declare 0 type.code (.name name)

/-- A variable with a first value, which may not be empty. -/
def assigned (line : Nat) (type : TypeSpec) (name : String) (isPresent : Bool) (assignment : Gen Unit) :
    Gen Unit := do
  declare line type name
  assignment
  if isPresent then drop else report line (.missingInitialValue name)

def static (line : Nat) (type : TypeSpec) (name : String) (init : Code) : Gen Unit := do
  if !(← addStatic ⟨name, type, init⟩) then report line (.staticOutsideFunction name)

/-- A static variable with a first value, which may not be empty. -/
def staticValue (line : Nat) (type : TypeSpec) (name : String) (valueLine : Nat) (isPresent : Bool)
    (value : Gen Unit) : Gen Unit := do
  let init ← thunk valueLine isPresent value
  if !isPresent then report line (.missingStaticValue name)
  static line type name init

end Gen

end StackScript
