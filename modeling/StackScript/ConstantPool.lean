/-
The constants of a program.

The first three slots hold `null`, `true` and `false`.  Numbers share one slot for each value, and so do
strings shorter than a threshold; longer strings get a slot of their own every time, which keeps large
texts from being compared again and again.
-/
import StackScript.Number.Binary64

namespace StackScript

/-- A constant. -/
inductive Constant where
  | null
  | bool (value : Bool)
  | int (value : Int64)
  | real (value : Binary64)
  | string (value : String)
deriving DecidableEq

namespace Constant

/-- Whether two constants may share a slot. -/
def same : Constant → Constant → Bool
  | int x, int y => x == y
  | real x, real y => x.same y
  | string x, string y => x == y
  | _, _ => false

end Constant

/-- A slot, and whether later constants with the same value may share it. -/
structure Slot where
  value : Constant
  isShared : Bool
deriving DecidableEq

/-- The slots of a program, and the number of bytes from which on a string is not shared. -/
structure ConstantPool where
  slots : Array Slot
  threshold : Nat

namespace ConstantPool

def nullSlot : Nat := 0
def trueSlot : Nat := 1
def falseSlot : Nat := 2

/-- The usual sharing threshold, in bytes. -/
def defaultThreshold : Nat := 1024

/-- A pool with the reserved slots only. -/
def empty (threshold : Nat) : ConstantPool :=
  ⟨#[⟨.null, false⟩, ⟨.bool true, false⟩, ⟨.bool false, false⟩], threshold⟩

def size (p : ConstantPool) : Nat := p.slots.size

def get? (p : ConstantPool) (i : Nat) : Option Constant := p.slots[i]?.map Slot.value

def constants (p : ConstantPool) : List Constant := p.slots.toList.map Slot.value

/-- Adds a slot. -/
def push (p : ConstantPool) (c : Constant) (isShared : Bool) : Nat × ConstantPool :=
  (p.size, { p with slots := p.slots.push ⟨c, isShared⟩ })

/-- The slot a constant can share. -/
def find? (p : ConstantPool) (c : Constant) : Option Nat :=
  p.slots.findIdx? fun s => s.isShared && s.value.same c

/-- The slot of a constant, shared if possible. -/
def intern (p : ConstantPool) (c : Constant) : Nat × ConstantPool :=
  match p.find? c with
  | some i => (i, p)
  | none => p.push c true

def addInt (p : ConstantPool) (v : Int64) : Nat × ConstantPool := p.intern (.int v)

def addReal (p : ConstantPool) (v : Binary64) : Nat × ConstantPool := p.intern (.real v)

def addBool (p : ConstantPool) (v : Bool) : Nat × ConstantPool :=
  (if v then trueSlot else falseSlot, p)

/-- A string shares its slot when it is shorter than the threshold. -/
def addString (p : ConstantPool) (s : String) : Nat × ConstantPool :=
  if s.utf8ByteSize < p.threshold then p.intern (.string s) else p.push (.string s) false

/-- A string in a slot of its own. -/
def addOwnString (p : ConstantPool) (s : String) : Nat × ConstantPool := p.push (.string s) false

end ConstantPool

end StackScript
