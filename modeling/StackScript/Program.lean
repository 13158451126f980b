/-
The compiled program: the main container and every table its instructions refer to.

Functions of one name are overloads, told apart by their signatures; classes have unique names.  Both
tables keep the order in which their entries were installed.
-/
import StackScript.ClassDef
import StackScript.ConstantPool

namespace StackScript

/-- One `case`: the code of its guard, and where its body starts. -/
structure CaseEntry where
  guard : Code
  start : Nat
deriving DecidableEq

/-- The bodies of a switch and the first instruction behind them. -/
structure SwitchTable where
  cases : List CaseEntry := []
  default? : Option Nat := none
  out : Nat := 0
deriving DecidableEq

/-- The variables a `foreach` binds. -/
structure ForeachTable where
  key : Option String
  value : String
  byRef : Bool
deriving DecidableEq

/-- One `catch`: the class it catches, the variable it binds and the code of its body. -/
structure CatchEntry where
  className : String
  binding : String
  code : Code
deriving DecidableEq

/-- A named constant; its code is expanded where the name is used. -/
structure NamedConstant where
  name : String
  code : Code
deriving DecidableEq

/-- A compiled program. -/
structure Program where
  main : Code := #[]
  constants : ConstantPool
  functions : List FunctionDef := []
  classes : List ClassDef := []
  namedConstants : List NamedConstant := []
  switches : List SwitchTable := []
  foreachs : List ForeachTable := []
  exceptions : List (List CatchEntry) := []
  classLinks : List ClassLink := []
  closures : List FunctionDef := []

namespace Program

/-- A program without code. -/
def empty (constants : ConstantPool) : Program := { constants := constants }

/-! ### Functions -/

/-- The overloads of a name, in the order in which they were installed. -/
def overloads (p : Program) (name : String) : List FunctionDef := p.functions.filter (·.name == name)

/-- The first overload of a name. -/
def function? (p : Program) (name : String) : Option FunctionDef := p.functions.find? (·.name == name)

/-- Whether two functions cannot stand side by side: they have one name, and their signatures have one
digest or are both missing. -/
def clash (f g : FunctionDef) : Bool :=
  f.name == g.name && f.signature.map Signature.digest == g.signature.map Signature.digest

/-- Installs a function, unless one with the same name and signature is there already. -/
def installFunction? (p : Program) (f : FunctionDef) : Option Program :=
  if p.functions.any (clash f) then none else some { p with functions := p.functions ++ [f] }

/-! ### Classes -/

def class? (p : Program) (name : String) : Option ClassDef := p.classes.find? (·.name == name)

/-- Installs a class, unless one of this name is there already. -/
def installClass? (p : Program) (c : ClassDef) : Option Program :=
  if (p.class? c.name).isSome then none else some { p with classes := p.classes ++ [c] }

/-! ### Other tables -/

def namedConstant? (p : Program) (name : String) : Option NamedConstant :=
  p.namedConstants.find? (·.name == name)

/-- The constants with one defined: a later definition replaces an earlier one of the same name, in its
place. -/
def defineConstant (cs : List NamedConstant) (name : String) (code : Code) : List NamedConstant :=
  if cs.any (·.name == name) then cs.map fun c => if c.name == name then { c with code := code } else c
  else cs ++ [⟨name, code⟩]

end Program

end StackScript
