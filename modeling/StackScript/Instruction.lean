/-
Instructions, and the code of one container.

Code only grows at its end.  Apart from that the last instructions may be looked at, changed or taken
back, and the second number of an earlier one, its jump target, may be filled in later.
-/
import StackScript.Opcode

namespace StackScript

/-- What an instruction refers to. -/
inductive Operand where
  | none
  /-- A variable, attribute or member. -/
  | name (text : String)
  | switch (id : Nat)
  | foreach (id : Nat)
  | exception (id : Nat)
  | classLink (id : Nat)
  | closure (id : Nat)
deriving DecidableEq

namespace Operand

def text : Operand → String
  | none => ""
  | name text => "$" ++ text
  | switch id => "switch#" ++ toString id
  | foreach id => "foreach#" ++ toString id
  | exception id => "exception#" ++ toString id
  | classLink id => "class#" ++ toString id
  | closure id => "closure#" ++ toString id

end Operand

/-- One instruction and the source line it came from. -/
structure Instruction where
  op : Opcode
  p1 : Int
  p2 : Nat
  p3 : Operand
  line : Nat
deriving DecidableEq

/-- The instructions of one container. -/
abbrev Code := Array Instruction

namespace Code

/-- The instruction before the last one. -/
def beforeLast? (code : Code) : Option Instruction := if 2 ≤ code.size then code[code.size - 2]? else none

/-- Fills in the target of the jump at an index. -/
def patch (code : Code) (i target : Nat) : Code := code.modify i fun instr => { instr with p2 := target }

@[simp] theorem size_patch (code : Code) (i target : Nat) : (code.patch i target).size = code.size := by
  simp [patch]

/-- Only the instruction at the index changes, and of it only the target. -/
theorem getElem?_patch (code : Code) (i target j : Nat) :
    (code.patch i target)[j]? =
      if i = j then code[j]?.map fun instr => { instr with p2 := target } else code[j]? := by
  simp only [patch, Array.getElem?_modify]

end Code

/-- The container being filled and the line its next instruction gets. -/
structure CodeBuffer where
  code : Code
  line : Nat

namespace CodeBuffer

def empty : CodeBuffer := ⟨#[], 1⟩

/-- The index the next instruction gets. -/
def size (b : CodeBuffer) : Nat := b.code.size

/-- Appends an instruction and returns its index. -/
def emit (b : CodeBuffer) (op : Opcode) (p1 : Int) (p2 : Nat) (p3 : Operand) : Nat × CodeBuffer :=
  (b.size, { b with code := b.code.push ⟨op, p1, p2, p3, b.line⟩ })

/-- The last instruction, taken back. -/
def pop (b : CodeBuffer) : Option Instruction × CodeBuffer :=
  (b.code.back?, { b with code := b.code.pop })

/-- Changes the last instruction, if there is one. -/
def modifyLast (b : CodeBuffer) (f : Instruction → Instruction) : CodeBuffer :=
  { b with code := b.code.modify (b.size - 1) f }

/-- Fills in the target of the jump at an index. -/
def patch (b : CodeBuffer) (i target : Nat) : CodeBuffer := { b with code := b.code.patch i target }

/-- Points the jump at an index to the next instruction. -/
def patchHere (b : CodeBuffer) (i : Nat) : CodeBuffer := b.patch i b.size

/-- Continues with other code and returns the code so far. -/
def swap (b : CodeBuffer) (code : Code) : Code × CodeBuffer := (b.code, { b with code := code })

@[simp] theorem size_emit (b : CodeBuffer) (op : Opcode) (p1 : Int) (p2 : Nat) (p3 : Operand) :
    (b.emit op p1 p2 p3).2.size = b.size + 1 := by simp [emit, size]

@[simp] theorem size_patch (b : CodeBuffer) (i target : Nat) : (b.patch i target).size = b.size := by
  simp [patch, size]

end CodeBuffer

end StackScript
