/-
Operators.

The operands are generated first and leave their values on the stack, then the operator's own
instruction takes them.  A few operators change what their last operand has generated:

    $a = 1        LOADC 1; LOAD $a               becomes  LOADC 1; STORE $a
    $a[0] = 1     LOADC 1; LOAD $a; LOADC 0; LOAD_IDX     becomes  …; STORE_IDX
    new Foo(1)    LOADC 1; LOADC Foo; CALL 1     becomes  LOADC 1; LOADC Foo; NEW 1
    Foo::$x       LOADC Foo; LOAD $x             becomes  LOADC Foo; MEMBER $x

The generators here take those of the operands as arguments.
-/
import StackScript.Generator.Basic

namespace StackScript

namespace CastType

/-- The instruction of a cast. -/
def opcode : CastType → Opcode
  | int => .cvtInt
  | float => .cvtReal
  | bool => .cvtBool
  | string => .cvtStr
  | char => .cvtChar
  | object => .cvtObj
  | callback => .cvtCall
  | resource => .cvtRes
  | void => .cvtVoid

end CastType

namespace Operator

/-- The instruction of an operator; the comma and the conditional only order their operands. -/
def opcode? : Operator → Option Opcode
  | new => some .new
  | clone => some .clone
  | arrow | doubleColon => some .member
  | subscript => some .loadIdx
  | call => some .call
  | incr => some .incr
  | decr => some .decr
  | bitNot => some .bitnot
  | neg => some .uminus
  | plus => some .uplus
  | cast type => some type.opcode
  | is => some .is
  | logNot => some .lnot
  | mul => some .mul
  | div => some .div
  | mod => some .mod
  | add => some .add
  | sub => some .sub
  | shl => some .shl
  | shr => some .shr
  | lt => some .lt
  | le => some .le
  | gt => some .gt
  | ge => some .ge
  | eq => some .eq
  | ne => some .neq
  | bitAnd => some .band
  | ref => some .loadRef
  | bitXor => some .bxor
  | bitOr => some .bor
  | logAnd => some .land
  | logOr => some .lor
  | logXor => some .lxor
  | nullCoalesce => some .nullc
  | assign => some .store
  | addAssign => some .addStore
  | subAssign => some .subStore
  | mulAssign => some .mulStore
  | divAssign => some .divStore
  | modAssign => some .modStore
  | andAssign => some .bandStore
  | orAssign => some .borStore
  | xorAssign => some .bxorStore
  | shlAssign => some .shlStore
  | shrAssign => some .shrStore
  | ternary | comma => none

end Operator

/-- What the value of an expression is wanted for. -/
structure Access where
  /-- It is only read. -/
  readOnly : Bool := false
  /-- It is stored into, so a missing entry on the way is created. -/
  store : Bool := false
deriving DecidableEq

namespace Access

/-- A value that is only read. -/
def reading : Access := { readOnly := true }

/-- The target of an assignment. -/
def target (a : Access) : Access := { a with store := true }

/-- A key inside a target is not itself stored into. -/
def key (a : Access) : Access := { a with store := false }

/-- The arguments of a call are only read. -/
def argument (_ : Access) : Access := reading

end Access

namespace Gen

/-! ### Operators that take an operand's last instruction into themselves -/

/-- The instruction of an assignment: what would have loaded the target stores instead. -/
def store : Gen Unit := do
  match ← last? with
  | none => put .store 0 0 .none
  | some target =>
    match target.op with
    | .member => put .store 0 1 .none
    | .loadIdx => do
      takeBack
      put .storeIdx target.p1 0 .none
    | _ => do
      takeBack
      put .store 0 0 target.p3

/-- The instruction that creates an object: it takes the arguments of a call, unless a method is
called. -/
def create : Gen Unit := do
  match ← last? with
  | some callee =>
    if callee.op == .call && !(← beforeLast?).any (·.op == .member) then
      takeBack
      put .new callee.p1 0 .none
    else put .new 0 0 .none
  | none => put .new 0 0 .none

/-- The instruction of a member of a class: a variable names the member. -/
def staticMember : Gen Unit := do
  match ← last? with
  | some member =>
    if member.op == .load then
      takeBack
      put .member 1 0 member.p3
    else put .member 1 0 .none
  | none => put .member 1 0 .none

/-- Marks what a call calls: a name is not looked up as a constant, and a member is taken as a method. -/
def markCallee : Gen Unit :=
  modifyLast fun i =>
    match i.op with
    | .loadc => { i with p1 := 0 }
    | .member | .new => { i with p2 := 1 }
    | _ => i

/-! ### Nodes of an expression tree -/

/-- The instruction of an operator. -/
def operator (op : Operator) (p1 : Int) : Gen Unit :=
  match op.opcode? with
  | some code => put code p1 0 .none
  | none => pure ()

def prefixed (line : Nat) (op : Operator) (operand : Gen Unit) : Gen Unit := do
  setLine line
  operand
  match op with
  | .new => create
  | .incr | .decr => operator op 1
  | _ => operator op 0

def postfixed (line : Nat) (op : Operator) (operand : Gen Unit) : Gen Unit := do
  setLine line
  operand
  operator op 0

/-- An operator whose right operand is skipped when the left one decides. -/
def shortCircuit (jump : Opcode) (op : Operator) (right : Gen Unit) : Gen Unit := do
  let index ← emit jump 1 0 .none
  right
  operator op 0
  landHere index

def binary (line : Nat) (op : Operator) (left right : Gen Unit) : Gen Unit := do
  setLine line
  left
  match op with
  | .comma => do
    drop
    right
  | .logAnd => shortCircuit .jmpz op right
  | .logOr => shortCircuit .jmpnz op right
  | .doubleColon => do
    right
    staticMember
  | _ => do
    right
    operator op 0

/-- The value is generated before the target. -/
def assign (line : Nat) (op : Operator) (value target : Gen Unit) : Gen Unit := do
  setLine line
  value
  target
  match op with
  | .assign => store
  | _ => operator op 0

def ternary (line : Nat) (condition yes no : Gen Unit) : Gen Unit := do
  setLine line
  condition
  let skip ← emit .jmpz 0 0 .none
  yes
  let out ← emit .jmp 0 0 .none
  landHere skip
  no
  landHere out

/-- The arguments are generated before what is called. -/
def call (line : Nat) (count : Nat) (args callee : Gen Unit) : Gen Unit := do
  setLine line
  args
  callee
  markCallee
  put .call count 0 .none

def index (line : Nat) (store : Bool) (base key : Gen Unit) : Gen Unit := do
  setLine line
  base
  key
  put .loadIdx 1 (if store then 1 else 0) .none

/-- A subscript without an index stands for a new entry. -/
def append (line : Nat) (store : Bool) (base : Gen Unit) : Gen Unit := do
  setLine line
  base
  put .loadIdx 0 (if store then 1 else 0) .none

end Gen

end StackScript
