/-
Running one step of code generation.

A step takes the state so far and yields a result and a new state.  The two halves are given names here,
together with what they are for the steps everything else is composed of, so that later proofs follow a
generator one bind at a time and never open the monad.
-/
import StackScript.Generator.Statement

namespace StackScript

namespace GenState

/-- The container being filled. -/
@[simp] abbrev code (s : GenState) : Code := s.buffer.code

/-- The container being filled, with the boundaries of its statements. -/
def container (s : GenState) : Filled := ⟨s.code, s.boundaries⟩

/-- How many errors have been reported. -/
def errors (s : GenState) : Nat := s.reports.countP Report.isError

end GenState

namespace Gen

variable {α β : Type}

/-- The state a step ends in. -/
def after (m : Gen α) (s : GenState) : GenState := (m.run s).2

/-- What a step returns. -/
def result (m : Gen α) (s : GenState) : α := (m.run s).1

/-! ### Composition -/

theorem after_pure (a : α) (s : GenState) : after (pure a) s = s := (rfl)

theorem result_pure (a : α) (s : GenState) : result (pure a) s = a := (rfl)

theorem after_bind (m : Gen α) (f : α → Gen β) (s : GenState) :
    after (m >>= f) s = after (f (result m s)) (after m s) := (rfl)

theorem result_bind (m : Gen α) (f : α → Gen β) (s : GenState) :
    result (m >>= f) s = result (f (result m s)) (after m s) := (rfl)

theorem after_get (s : GenState) : after (get : Gen GenState) s = s := (rfl)

theorem result_get (s : GenState) : result (get : Gen GenState) s = s := (rfl)

theorem after_modifyGet (f : GenState → α × GenState) (s : GenState) :
    after (modifyGet f : Gen α) s = (f s).2 := (rfl)

theorem result_modifyGet (f : GenState → α × GenState) (s : GenState) :
    result (modifyGet f : Gen α) s = (f s).1 := (rfl)

/-! ### Problems and lines -/

theorem after_report (line : Nat) (problem : Problem) (s : GenState) :
    after (report line problem) s = { s with reports := s.reports ++ [⟨line, problem⟩] } := (rfl)

theorem after_reportAll (rs : List Report) (s : GenState) :
    after (reportAll rs) s = { s with reports := s.reports ++ rs } := (rfl)

theorem after_setLine (line : Nat) (s : GenState) :
    after (setLine line) s = { s with buffer := { s.buffer with line := line } } := (rfl)

theorem after_here (s : GenState) : after here s = s := (rfl)

theorem result_here (s : GenState) : result here s = s.code.size := (rfl)

/-! ### Instructions -/

theorem after_emit (op : Opcode) (p1 : Int) (p2 : Nat) (p3 : Operand) (s : GenState) :
    after (emit op p1 p2 p3) s =
      { s with buffer := { s.buffer with code := s.code.push ⟨op, p1, p2, p3, s.buffer.line⟩ } } := (rfl)

theorem result_emit (op : Opcode) (p1 : Int) (p2 : Nat) (p3 : Operand) (s : GenState) :
    result (emit op p1 p2 p3) s = s.code.size := (rfl)

theorem after_put (op : Opcode) (p1 : Int) (p2 : Nat) (p3 : Operand) (s : GenState) :
    after (put op p1 p2 p3) s =
      { s with buffer := { s.buffer with code := s.code.push ⟨op, p1, p2, p3, s.buffer.line⟩ } } := (rfl)

theorem after_landHere (i : Nat) (s : GenState) :
    after (landHere i) s = { s with buffer := { s.buffer with code := s.code.patch i s.code.size } } := (rfl)

theorem after_takeBack (s : GenState) :
    after takeBack s = { s with buffer := { s.buffer with code := s.code.pop } } := (rfl)

theorem after_modifyLast (f : Instruction → Instruction) (s : GenState) :
    after (modifyLast f) s =
      { s with buffer := { s.buffer with code := s.code.modify (s.code.size - 1) f } } := (rfl)

theorem after_last? (s : GenState) : after last? s = s := (rfl)

theorem result_last? (s : GenState) : result last? s = s.code.back? := (rfl)

theorem after_beforeLast? (s : GenState) : after beforeLast? s = s := (rfl)

theorem result_beforeLast? (s : GenState) : result beforeLast? s = s.code.beforeLast? := (rfl)

theorem after_openContainer (s : GenState) :
    after openContainer s = { s with buffer := { s.buffer with code := #[] }, boundaries := [] } := (rfl)

/-! ### Blocks and jumps -/

theorem after_enter (tags : List BlockTag) (first : Nat) (owner : BlockOwner) (deferred : Option (List Nat))
    (s : GenState) :
    after (enter tags first owner deferred) s =
      { s with blocks := ⟨s.blocks.blocks.push
        { tags := tags, first := first, owner := owner, deferred := deferred }⟩ } := (rfl)

theorem result_enter (tags : List BlockTag) (first : Nat) (owner : BlockOwner)
    (deferred : Option (List Nat)) (s : GenState) :
    result (enter tags first owner deferred) s = s.blocks.blocks.size := (rfl)

theorem after_leave (s : GenState) :
    after leave s =
      { s with blocks := s.blocks.leave, left := s.left ++ s.blocks.leaving?.toList } := (rfl)

theorem after_owned (tags : List BlockTag) (first : Nat) (owner : BlockOwner) (body : Nat → Gen α) (s : GenState) :
    after (owned tags first owner body) s =
      after leave (after (body s.blocks.blocks.size) (after (enter tags first owner none) s)) := (rfl)

theorem after_inContainer (body : Gen Unit) (s : GenState) :
    after (inContainer body) s = after (closeContainer s.container) (after body (after openContainer s)) := (rfl)

theorem after_collectingStatics (body : Gen α) (s : GenState) :
    after (collectingStatics body) s =
      { after body { s with statics := [] :: s.statics } with
        statics := (after body { s with statics := [] :: s.statics }).statics.tail } := (rfl)

theorem after_restartHere (id : Nat) (s : GenState) :
    after (restartHere id) s =
      { s with blocks := s.blocks.modify id fun b => { b with first := s.code.size } } := (rfl)

theorem after_await (id : Nat) (op : Opcode) (p3 : Operand) (s : GenState) :
    after (await id op p3) s =
      { s with buffer := { s.buffer with code := s.code.push ⟨op, 0, 0, p3, s.buffer.line⟩ },
               blocks := s.blocks.await id op s.code.size } := (rfl)

theorem after_awaitContinue (id : Nat) (s : GenState) :
    after (awaitContinue id) s =
      { s with buffer := { s.buffer with code := s.code.push ⟨.jmp, 0, 0, .none, s.buffer.line⟩ },
               blocks := s.blocks.awaitContinue id s.code.size } := (rfl)

theorem after_recordJump (id : Nat) (s : GenState) :
    after (recordJump id) s = { s with jumps := s.jumps ++ [s.blocks.inside id] } := (rfl)

theorem after_settle (id : Nat) (op : Option Opcode) (s : GenState) :
    after (settle id op) s =
      { s with buffer := { s.buffer with code := (s.blocks.settle id op s.code.size s.code).2.2 },
               blocks := (s.blocks.settle id op s.code.size s.code).2.1 } := (rfl)

theorem after_settleContinue (id : Nat) (s : GenState) :
    after (settleContinue id) s =
      { s with buffer := { s.buffer with code := (s.blocks.settleContinue id s.code.size s.code).2.2 },
               blocks := (s.blocks.settleContinue id s.code.size s.code).2.1 } := (rfl)

/-! ### Tables -/

theorem after_reserveSwitch (s : GenState) :
    after reserveSwitch s =
      { s with program := { s.program with switches := s.program.switches ++ [{}] } } := (rfl)

theorem after_fillSwitch (id : Nat) (table : SwitchTable) (s : GenState) :
    after (fillSwitch id table) s =
      { s with program := { s.program with switches := s.program.switches.set id table } } := (rfl)

theorem after_reserveException (s : GenState) :
    after reserveException s =
      { s with program := { s.program with exceptions := s.program.exceptions ++ [[]] } } := (rfl)

end Gen

end StackScript
