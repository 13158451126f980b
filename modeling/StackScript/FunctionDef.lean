/-
Compiled functions, methods and closures.
-/
import StackScript.DataType
import StackScript.Instruction

namespace StackScript

/-- A declared argument; its default value is code of its own. -/
structure Argument where
  name : String
  type : Option TypeSpec
  byRef : Bool
  default? : Option Code
deriving DecidableEq

/-- A variable an anonymous function takes along.  An implicit one is left out where there is none. -/
structure Capture where
  name : String
  byRef : Bool
  isImplicit : Bool
deriving DecidableEq

/-- The code of a capture's properties. -/
def Capture.code (c : Capture) : Nat :=
  (if c.byRef then 1 else 0) + (if c.isImplicit then 2 else 0)

/-- A variable that keeps its value between calls; its first value is code of its own. -/
structure StaticVar where
  name : String
  type : TypeSpec
  init : Code
deriving DecidableEq

/-- What kind of function it is. -/
structure FunctionFlags where
  /-- Takes variables along. -/
  isClosure : Bool := false
  isMethod : Bool := false
  returnsRef : Bool := false
  isAnonymous : Bool := false
deriving DecidableEq

/-- The code of a function's properties. -/
def FunctionFlags.code (f : FunctionFlags) : Nat :=
  (if f.isClosure then 1 else 0) + (if f.isMethod then 2 else 0) + (if f.returnsRef then 4 else 0) +
    (if f.isAnonymous then 8 else 0)

/-- A compiled function. -/
structure FunctionDef where
  name : String
  returns : TypeSpec
  line : Nat
  flags : FunctionFlags := {}
  args : List Argument := []
  code : Code := #[]
  statics : List StaticVar := []
  captures : List Capture := []
  /-- Missing when an argument has no declared type or there are none; such a function cannot be
  overloaded. -/
  signature : Option Signature := none
deriving DecidableEq

namespace FunctionDef

/-- The signature of an argument list: the types, when there is at least one and none is missing. -/
def signatureOf (args : List Argument) : Option Signature :=
  if args.isEmpty then none else (args.mapM Argument.type).map Signature.mk

def signatureKey (f : FunctionDef) : Option String := f.signature.map Signature.key

def hasStatic (f : FunctionDef) (name : String) : Bool := f.statics.any (·.name == name)

end FunctionDef

end StackScript
