/-
Compiled classes and interfaces.

Inheritance is not resolved here: what a class extends and implements is kept in a link of its own, which
an instruction hands to the machine.
-/
import StackScript.FunctionDef

namespace StackScript

inductive Visibility where
  | public_ | protected_ | private_
deriving DecidableEq

namespace Visibility

def label : Visibility → String
  | public_ => "public"
  | protected_ => "protected"
  | private_ => "private"

/-- The visibility a reserved word asks for. -/
def ofKeyword? : Keyword → Option Visibility
  | .public_ => some public_
  | .protected_ => some protected_
  | .private_ => some private_
  | _ => none

end Visibility

/-- What kind of class it is. -/
structure ClassFlags where
  isFinal : Bool := false
  isInterface : Bool := false
  isVirtual : Bool := false
deriving DecidableEq

namespace ClassFlags

/-- The code of a class's properties. -/
def code (f : ClassFlags) : Nat :=
  (if f.isFinal then 1 else 0) + (if f.isInterface then 2 else 0) + (if f.isVirtual then 4 else 0)

/-- The properties with this code; other bits are dropped. -/
def ofCode (n : Nat) : ClassFlags := ⟨n.testBit 0, n.testBit 1, n.testBit 2⟩

end ClassFlags

/-- What kind of member it is. -/
structure MemberFlags where
  isStatic : Bool := false
  isConstant : Bool := false
  isVirtual : Bool := false
  isFinal : Bool := false
deriving DecidableEq

/-- The code of a member's properties. -/
def MemberFlags.code (f : MemberFlags) : Nat :=
  (if f.isStatic then 1 else 0) + (if f.isConstant then 2 else 0) + (if f.isVirtual then 4 else 0) +
    (if f.isFinal then 8 else 0)

/-- An attribute, or a constant of a class, which has no type. -/
structure Attribute where
  name : String
  type : Option TypeSpec
  visibility : Visibility
  flags : MemberFlags
  init : Option Code
  line : Nat
deriving DecidableEq

/-- A method; one without a body has no code. -/
structure Method where
  function : FunctionDef
  visibility : Visibility
  flags : MemberFlags
deriving DecidableEq

def Method.hasBody (m : Method) : Bool := !m.function.code.isEmpty

/-- A compiled class or interface. -/
structure ClassDef where
  name : String
  flags : ClassFlags
  line : Nat
  attributes : List Attribute := []
  methods : List Method := []
deriving DecidableEq

namespace ClassDef

def attribute? (c : ClassDef) (name : String) : Option Attribute :=
  c.attributes.find? (·.name == name)

/-- The first method of this name. -/
def method? (c : ClassDef) (name : String) : Option Method :=
  c.methods.find? (·.function.name == name)

def constants (c : ClassDef) : List Attribute := c.attributes.filter (·.flags.isConstant)

end ClassDef

/-- What a class or interface is built on, for the machine to resolve. -/
structure ClassLink where
  name : String
  bases : List String
  interfaces : List String
  line : Nat
deriving DecidableEq

end StackScript
