/-
The instruction set of the stack machine.

Besides its operation an instruction has a signed number, an unsigned number that most often is a jump
target or a slot, and an operand that names a variable or an entry of one of the program's tables.
-/
namespace StackScript

/-- An operation of the machine. -/
inductive Opcode where
  /-- Return from the frame; the number tells whether a value is on the stack. -/
  | done
  /-- Stop the program; the number tells whether a status is on the stack. -/
  | halt
  | jmp
  /-- Jump when the popped value is false; a number other than zero keeps the value. -/
  | jmpz
  /-- Jump when the popped value is true; a number other than zero keeps the value. -/
  | jmpnz
  | noop
  /-- Drop as many values as the number says. -/
  | pop
  /-- Send the top of the stack to the output. -/
  | consume
  | declare
  /-- Push the named variable, or the one named by the popped value. -/
  | load
  /-- Push a constant; a number other than zero marks a name to be looked up. -/
  | loadc
  | loadIdx | loadMap | loadList | loadClosure | loadRef
  | store | storeIdx | storeIdxRef
  | call | new | clone | member | is
  | cvtInt | cvtReal | cvtStr | cvtBool | cvtChar | cvtObj | cvtCall | cvtRes | cvtVoid
  | uminus | uplus | bitnot | lnot
  | mul | div | mod
  /-- Addition, or concatenation of several pieces when the unsigned number is not zero. -/
  | add
  | sub | shl | shr | lt | le | gt | ge | eq | neq
  | band | bxor | bor | land | lor | lxor | nullc
  | incr | decr
  | addStore | subStore | mulStore | divStore | modStore | shlStore | shrStore
  | bandStore | borStore | bxorStore
  | classInit | interfaceInit
  | foreachInit | foreachStep
  | loadException | popException | throw
  | switch
deriving DecidableEq

namespace Opcode

/-- All operations in the order of their numbers, which start at one. -/
def all : List Opcode :=
  [done, halt, jmp, jmpz, jmpnz, noop, pop, consume, declare, load, loadc, loadIdx, loadMap, loadList,
    loadClosure, loadRef, store, storeIdx, storeIdxRef, call, new, clone, member, is, cvtInt,
    cvtReal, cvtStr, cvtBool, cvtChar, cvtObj, cvtCall, cvtRes, cvtVoid, uminus, uplus, bitnot, lnot,
    mul, div, mod, add, sub, shl, shr, lt, le, gt, ge, eq, neq, band, bxor, bor, land, lor, lxor,
    nullc, incr, decr, addStore, subStore, mulStore, divStore, modStore, shlStore, shrStore,
    bandStore, borStore, bxorStore, classInit, interfaceInit, foreachInit, foreachStep,
    loadException, popException, throw, switch]

/-- The number of an operation. -/
def number (op : Opcode) : Nat := op.ctorIdx + 1

def mnemonic : Opcode → String
  | done => "DONE"
  | halt => "HALT"
  | jmp => "JMP"
  | jmpz => "JMPZ"
  | jmpnz => "JMPNZ"
  | noop => "NOOP"
  | pop => "POP"
  | consume => "CONSUME"
  | declare => "DECLARE"
  | load => "LOAD"
  | loadc => "LOADC"
  | loadIdx => "LOAD_IDX"
  | loadMap => "LOAD_MAP"
  | loadList => "LOAD_LIST"
  | loadClosure => "LOAD_CLOSURE"
  | loadRef => "LOAD_REF"
  | store => "STORE"
  | storeIdx => "STORE_IDX"
  | storeIdxRef => "STORE_IDX_REF"
  | call => "CALL"
  | new => "NEW"
  | clone => "CLONE"
  | member => "MEMBER"
  | is => "IS"
  | cvtInt => "CVT_INT"
  | cvtReal => "CVT_REAL"
  | cvtStr => "CVT_STR"
  | cvtBool => "CVT_BOOL"
  | cvtChar => "CVT_CHAR"
  | cvtObj => "CVT_OBJ"
  | cvtCall => "CVT_CALL"
  | cvtRes => "CVT_RES"
  | cvtVoid => "CVT_VOID"
  | uminus => "UMINUS"
  | uplus => "UPLUS"
  | bitnot => "BITNOT"
  | lnot => "LNOT"
  | mul => "MUL"
  | div => "DIV"
  | mod => "MOD"
  | add => "ADD"
  | sub => "SUB"
  | shl => "SHL"
  | shr => "SHR"
  | lt => "LT"
  | le => "LE"
  | gt => "GT"
  | ge => "GE"
  | eq => "EQ"
  | neq => "NEQ"
  | band => "BAND"
  | bxor => "BXOR"
  | bor => "BOR"
  | land => "LAND"
  | lor => "LOR"
  | lxor => "LXOR"
  | nullc => "NULLC"
  | incr => "INCR"
  | decr => "DECR"
  | addStore => "ADD_STORE"
  | subStore => "SUB_STORE"
  | mulStore => "MUL_STORE"
  | divStore => "DIV_STORE"
  | modStore => "MOD_STORE"
  | shlStore => "SHL_STORE"
  | shrStore => "SHR_STORE"
  | bandStore => "BAND_STORE"
  | borStore => "BOR_STORE"
  | bxorStore => "BXOR_STORE"
  | classInit => "CLASS_INIT"
  | interfaceInit => "INTERFACE_INIT"
  | foreachInit => "FOREACH_INIT"
  | foreachStep => "FOREACH_STEP"
  | loadException => "LOAD_EXCEPTION"
  | popException => "POP_EXCEPTION"
  | throw => "THROW"
  | switch => "SWITCH"

/-- The operation with this mnemonic. -/
def ofMnemonic? (text : String) : Option Opcode := all.find? (·.mnemonic == text)

/-- Whether the unsigned number of the operation is a jump target. -/
def isJump : Opcode → Bool
  | jmp | jmpz | jmpnz | foreachInit | foreachStep | loadException | throw => true
  | _ => false

/-- Whether the operation stores into a target it loads first. -/
def isStore : Opcode → Bool
  | store | addStore | subStore | mulStore | divStore | modStore | shlStore | shrStore | bandStore
  | borStore | bxorStore => true
  | _ => false

end Opcode

end StackScript
