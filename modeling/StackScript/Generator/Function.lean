/-
Functions, classes, and expressions that are code of their own.

The body of a function fills a container of its own inside a guarded block, so nothing in it can jump
into the code around it.
-/
import StackScript.Generator.Table
import StackScript.Script

namespace StackScript

namespace Gen

/-- The number that tells whether something is there. -/
def flag (b : Bool) : Nat := if b then 1 else 0

def reportFault : Option Report → Gen Unit
  | some r => report r.line r.problem
  | none => pure ()

/-- An expression as code of its own: it returns the value, if there is one. -/
def thunk (line : Nat) (isPresent : Bool) (value : Gen Unit) : Gen Code :=
  inContainer do
    value
    setLine line
    put .done (flag isPresent) 1 .none

/-! ### Functions -/

/-- The body of a function and its static variables.  An exception nobody catches leaves it. -/
def functionBody (name : String) (className : Option String) (body : Gen Unit) :
    Gen (Code × List StaticVar) :=
  owned [.guarded, .function] 0 (.function name className) fun id =>
    collectingStatics <| inContainer do
      body
      settle id (some .throw)
      put .done 0 0 .none

/-- A function without its body. -/
def declared (head : FunctionHead) (args : List Argument) : FunctionDef :=
  { name := head.name, returns := head.returns, line := head.line, flags := head.flags, args := args,
    signature := FunctionDef.signatureOf args }

/-- The arguments of a function up to its first malformed one, which is reported. -/
def arguments (params : Gen (List Argument)) (fault : Option Report) : Gen (List Argument) := do
  let args ← params
  reportFault fault
  return args

/-- A function with its body; only a method knows its class. -/
def functionDef (head : FunctionHead) (args : List Argument) (body : Gen Unit) : Gen FunctionDef := do
  let className ← if head.flags.isMethod then currentClass else pure none
  let (code, statics) ← functionBody head.name className body
  return { declared head args with code := code, statics := statics }

/-- A function declaration. -/
def function (head : FunctionHead) (params : Gen (List Argument)) (fault : Option Report)
    (body : Gen Unit) : Gen Unit := do
  let args ← arguments params fault
  let f ← functionDef head args body
  if !(← installFunction f) then report head.line (.duplicateFunction head.name)

/-- What is wrong with a list of captured variables. -/
def captureReports : Option CaptureList → Gen Unit
  | some list => do
    reportFault (list.withoutParen.map fun line => ⟨line, .capturesWithoutParen⟩)
    reportFault (list.malformed.map fun line => ⟨line, .invalidCapture⟩)
  | none => pure ()

/-- Loads an anonymous function: by itself when it takes variables along, and else by the name it is
installed under. -/
def loadFunction (f : FunctionDef) : Gen Unit := do
  if f.flags.isClosure then put .loadClosure 0 0 (.closure (← addClosure f))
  else if ← installFunction f then loadConstant (·.addOwnString f.name)
  else report f.line (.duplicateClosure f.name)

/-- An anonymous function. -/
def closure (line : Nat) (returns : TypeSpec) (params : Gen (List Argument)) (fault : Option Report)
    (captures : Option CaptureList) (body : Gen Unit) : Gen Unit := do
  let name ← nextClosureName
  let args ← arguments params fault
  captureReports captures
  let head := ⟨name, returns, line, { isAnonymous := true, isClosure := captures.isSome }⟩
  let f ← functionDef head args body
  loadFunction { f with captures := captures.elim [] CaptureList.captures }

/-! ### Classes -/

/-- An attribute, with the code of its value if it has one. -/
def addAttribute (head : MemberHead) (type : Option TypeSpec) (init : Option Code) (c : ClassDef) :
    ClassDef :=
  { c with attributes := c.attributes ++ [⟨head.name, type, head.visibility, head.flags, init, head.line⟩] }

def addMethod (head : MemberHead) (f : FunctionDef) (c : ClassDef) : ClassDef :=
  { c with methods := c.methods ++ [⟨f, head.visibility, head.flags⟩] }

/-- The value of a member, which may not be empty. -/
def memberValue (head : MemberHead) (problem : Problem) (line : Nat) (isPresent : Bool)
    (value : Gen Unit) : Gen Code := do
  let code ← thunk line isPresent value
  if !isPresent then report head.line problem
  return code

/-- Hands what a class is built on to the machine. -/
def link (head : ClassHead) : Gen Unit := do
  if !head.bases.isEmpty || !head.interfaces.isEmpty then
    let id ← addLink ⟨head.name, head.bases, head.interfaces, head.line⟩
    setLine head.line
    put (if head.flags.isInterface then .interfaceInit else .classInit) (flag !head.bases.isEmpty)
      (flag !head.interfaces.isEmpty) (.classLink id)

/-- Installs a class and hands what it is built on to the machine. -/
def completeClass (head : ClassHead) (c : ClassDef) : Gen Unit := do
  if ← installClass c then link head
  else
    report head.line
      (if head.flags.isInterface then .duplicateInterface head.name else .duplicateClass head.name)

/-- A class or interface, from the generator of its members.  One whose reading an error ends is
dropped. -/
def class_ (head : ClassHead) (members : ClassDef → Gen ClassDef) (fault : Option ErrorReport) :
    Gen Unit := do
  let blank : ClassDef := { name := head.name, flags := head.flags, line := head.line }
  let c ← if head.flags.isInterface then members blank
    else owned [.class_] (← here) (.class_ head.name) fun _ => members blank
  match fault with
  | some error => report error.line error.problem
  | none => completeClass head c

end Gen

end StackScript
