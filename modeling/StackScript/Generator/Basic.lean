/-
The state of code generation and the steps that change it.

Every construct is generated by composing these steps.  A step either adds something at the end (an
instruction, a report, a constant, an entry of a table) or moves between containers and blocks; the only
earlier instructions it touches are the jumps that still wait for their targets and the last
instructions, which an operator may take back into itself.
-/
import StackScript.BlockStack
import StackScript.Config
import StackScript.Problem
import StackScript.Program

namespace StackScript

/-- A container, and where the statements in it start and end. -/
structure Filled where
  code : Code
  boundaries : List Nat

/-- The state of code generation. -/
structure GenState where
  config : Config
  /-- The problems met so far. -/
  reports : List Report := []
  program : Program
  /-- The container being filled. -/
  buffer : CodeBuffer := CodeBuffer.empty
  blocks : BlockStack := BlockStack.root
  /-- The blocks left so far, each as it was when it was left.  No step looks at them: they are the
  record that statements about every block of a run are about. -/
  left : List Block := []
  /-- For each `break` and `continue` so far, the blocks inside its target that it jumps out of.  A record
  like `left`. -/
  jumps : List (List Block) := []
  /-- Where the statements of the container being filled start and end.  A record like `left`. -/
  boundaries : List Nat := []
  /-- The containers that were filled apart from the one being filled.  A record like `left`. -/
  filled : List Filled := []
  /-- The static variables of the functions being generated, the innermost function first. -/
  statics : List (List StaticVar) := []
  /-- The number the next anonymous function gets. -/
  closures : Nat := 0
  /-- Whether the author has been told that namespaces are skipped. -/
  namespaceNoted : Bool := false

/-- The state before the first step. -/
def GenState.initial (config : Config) : GenState :=
  { config := config, program := Program.empty (ConstantPool.empty config.cacheThreshold) }

/-- A step of code generation. -/
abbrev Gen := StateM GenState

namespace Gen

/-! ### Problems -/

def report (line : Nat) (problem : Problem) : Gen Unit :=
  modify fun s => { s with reports := s.reports ++ [⟨line, problem⟩] }

def reportAll (rs : List Report) : Gen Unit := modify fun s => { s with reports := s.reports ++ rs }

/-- How many errors have been reported. -/
def errorCount : Gen Nat := do return (← get).reports.countP Report.isError

/-- Tells once that namespaces are skipped. -/
def noteNamespaces (line : Nat) : Gen Unit := do
  if !(← get).namespaceNoted then
    modify fun s => { s with namespaceNoted := true }
    report line .namespacesDisabled

/-! ### Instructions -/

/-- Sets the line of the instructions to come. -/
def setLine (line : Nat) : Gen Unit := modify fun s => { s with buffer := { s.buffer with line := line } }

/-- The index of the next instruction. -/
def here : Gen Nat := do return (← get).buffer.size

/-- Emits an instruction and returns its index. -/
def emit (op : Opcode) (p1 : Int) (p2 : Nat) (p3 : Operand) : Gen Nat :=
  modifyGet fun s =>
    let (index, buffer) := s.buffer.emit op p1 p2 p3
    (index, { s with buffer := buffer })

/-- Emits an instruction whose index does not matter. -/
def put (op : Opcode) (p1 : Int) (p2 : Nat) (p3 : Operand) : Gen Unit := do
  let _ ← emit op p1 p2 p3

/-- Loads the constant in a slot. -/
def loadSlot (slot : Nat) : Gen Unit := put .loadc 0 slot .none

/-- Drops the value on top of the stack. -/
def drop : Gen Unit := put .pop 1 0 .none

/-- Points the jump at an index to the next instruction. -/
def landHere (index : Nat) : Gen Unit := modify fun s => { s with buffer := s.buffer.patchHere index }

/-- The last instruction. -/
def last? : Gen (Option Instruction) := do return (← get).buffer.code.back?

/-- The instruction before the last one. -/
def beforeLast? : Gen (Option Instruction) := do return (← get).buffer.code.beforeLast?

/-- Takes the last instruction back. -/
def takeBack : Gen Unit := modify fun s => { s with buffer := s.buffer.pop.2 }

/-- Changes the last instruction. -/
def modifyLast (f : Instruction → Instruction) : Gen Unit :=
  modify fun s => { s with buffer := s.buffer.modifyLast f }

/-- Runs a generator for its reports and constants: the instructions it adds are dropped. -/
def discarding (body : Gen Unit) : Gen Unit := do
  let before ← here
  body
  modify fun s => { s with buffer := { s.buffer with code := s.buffer.code.take before } }

/-- Records that a statement starts or ends at the next instruction. -/
def markBoundary : Gen Unit := modify fun s => { s with boundaries := s.boundaries ++ [s.buffer.size] }

/-- Starts a container and returns the one so far. -/
def openContainer : Gen Filled :=
  modifyGet fun s =>
    let (old, buffer) := s.buffer.swap #[]
    (⟨old, s.boundaries⟩, { s with buffer := buffer, boundaries := [] })

/-- Goes on with the container around a filled one, whose code it returns. -/
def closeContainer (outer : Filled) : Gen Code :=
  modifyGet fun s =>
    let (code, buffer) := s.buffer.swap outer.code
    (code, { s with
      buffer := buffer, boundaries := outer.boundaries, filled := s.filled ++ [⟨code, s.boundaries⟩] })

/-- Fills a container of its own. -/
def inContainer (body : Gen Unit) : Gen Code := do
  let outer ← openContainer
  body
  closeContainer outer

/-! ### Constants -/

/-- Adds a constant and returns its slot. -/
def intern (add : ConstantPool → Nat × ConstantPool) : Gen Nat :=
  modifyGet fun s =>
    let (slot, constants) := add s.program.constants
    (slot, { s with program := { s.program with constants := constants } })

/-- Adds a constant and loads it. -/
def loadConstant (add : ConstantPool → Nat × ConstantPool) : Gen Unit := do loadSlot (← intern add)

/-! ### Blocks and jumps -/

/-- Enters a block and returns it. -/
def enter (tags : List BlockTag) (first : Nat) (owner : BlockOwner) (deferred : Option (List Nat)) :
    Gen Nat :=
  modifyGet fun s =>
    let block : Block := { tags := tags, first := first, owner := owner, deferred := deferred }
    let (id, blocks) := s.blocks.enter block
    (id, { s with blocks := blocks })

def leave : Gen Unit :=
  modify fun s => { s with blocks := s.blocks.leave, left := s.left ++ s.blocks.leaving?.toList }

/-- Moves the place where `continue` goes to the next instruction. -/
def restartHere (id : Nat) : Gen Unit :=
  modify fun s => { s with blocks := s.blocks.modify id fun b => { b with first := s.buffer.size } }

/-- Emits a jump that waits on a block. -/
def await (id : Nat) (op : Opcode) (p3 : Operand) : Gen Unit := do
  let index ← emit op 0 0 p3
  modify fun s => { s with blocks := s.blocks.await id op index }

/-- Emits the jump of a `continue` that waits on a block. -/
def awaitContinue (id : Nat) : Gen Unit := do
  let index ← emit .jmp 0 0 .none
  modify fun s => { s with blocks := s.blocks.awaitContinue id index }

/-- Records a `break` or `continue` on a block. -/
def recordJump (id : Nat) : Gen Unit :=
  modify fun s => { s with jumps := s.jumps ++ [s.blocks.inside id] }

/-- Points the jumps of a kind that wait on a block, or all of them, to the next instruction. -/
def settle (id : Nat) (op : Option Opcode) : Gen Unit :=
  modify fun s =>
    let (_, blocks, code) := s.blocks.settle id op s.buffer.size s.buffer.code
    { s with blocks := blocks, buffer := { s.buffer with code := code } }

/-- Points the jumps of `continue` that wait on a block to the next instruction. -/
def settleContinue (id : Nat) : Gen Unit :=
  modify fun s =>
    let (_, blocks, code) := s.blocks.settleContinue id s.buffer.size s.buffer.code
    { s with blocks := blocks, buffer := { s.buffer with code := code } }

/-- Generates a construct inside a block of its own that starts here.  The jumps that wait on the block
when the construct ends go to the next instruction. -/
def inBlock (tags : List BlockTag) (deferred : Option (List Nat)) (body : Nat → Gen Unit) : Gen Unit := do
  let id ← enter tags (← here) .none deferred
  body id
  settle id none
  settleContinue id
  leave

/-- Generates something that belongs to a function, class or catch clause. -/
def owned {α : Type} (tags : List BlockTag) (first : Nat) (owner : BlockOwner) (body : Nat → Gen α) :
    Gen α := do
  let id ← enter tags first owner none
  let result ← body id
  leave
  return result

/-! ### Where the code stands -/

/-- The class around the code. -/
def currentClass : Gen (Option String) := do
  match (← get).blocks.nearestOwner? [.class_] with
  | some (.class_ name) => return some name
  | _ => return none

/-- The function around the code, and the class it is a method of. -/
def currentFunction : Gen (Option (String × Option String)) := do
  match (← get).blocks.nearestOwner? [.function] with
  | some (.function name className) => return some (name, className)
  | _ => return none

end Gen

end StackScript
