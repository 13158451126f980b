/-
How many exception handlers are installed.

A container is balanced when every index can be given a depth that agrees along every way the control may
go.  A jump that is always taken may or may not be counted as falling through; where it is, falling through
fixes the depths one after another, so there is only one candidate: the handlers counted up to the index.  A
container is balanced exactly when these counts agree along its jumps.
-/
import StackScript.Program
import StackScript.Proofs.Level

namespace StackScript

namespace SwitchTable

/-- Where the sections of a switch start. -/
def starts (t : SwitchTable) : List Nat := t.cases.map CaseEntry.start ++ t.default?.toList

/-- Where a switch may go. -/
def targets (t : SwitchTable) : List Nat := t.starts ++ [t.out]

/-- One more section starts somewhere. -/
theorem mem_starts_case (table : SwitchTable) {guard : Code} {start j : Nat}
    (h : j ∈ ({ table with cases := table.cases ++ [⟨guard, start⟩] } : SwitchTable).starts) :
    j ∈ table.starts ∨ j = start := by
  simp only [starts, List.map_append, List.map_cons, List.map_nil, List.mem_append, List.mem_singleton] at h ⊢
  rcases h with (h | h) | h
  · exact .inl (.inl h)
  · exact .inr h
  · exact .inl (.inr h)

theorem mem_starts_default (table : SwitchTable) {start j : Nat}
    (h : j ∈ ({ table with default? := table.default?.or (some start) } : SwitchTable).starts) :
    j ∈ table.starts ∨ j = start := by
  simp only [starts, List.mem_append, Option.mem_toList] at h ⊢
  rcases h with h | h
  · exact .inl (.inl h)
  · cases hd : table.default? with
    | none =>
        rw [hd] at h
        exact .inr (Option.some.inj h).symm
    | some first =>
        rw [hd] at h
        exact .inl (.inr h)

end SwitchTable

namespace Instruction

/-- Where control may go from an instruction other than on to the next one, given the tables of the
switches. -/
def targets (tables : List SwitchTable) (x : Instruction) : List Nat :=
  match x.op, x.p3 with
  | .jmp, _ | .jmpz, _ | .jmpnz, _ | .foreachInit, _ | .foreachStep, _ => [x.p2]
  | .switch, .switch id => (tables[id]?.map SwitchTable.targets).getD []
  | _, _ => []

end Instruction

namespace Opcode

/-- Whether control may go on to the next instruction. -/
def falls : Opcode → Bool
  | jmp | done | throw => false
  | _ => true

/-- What an operation does to the number of handlers. -/
def handlers : Opcode → Nat → Nat
  | loadException, n => n + 1
  | popException, n => n - 1
  | _, n => n

/-- The number of handlers behind an operation, from the number in front of it: one is removed only where
there is one. -/
def Passes : Opcode → Nat → Nat → Prop
  | loadException, m, n => n = m + 1
  | popException, m, n => n + 1 = m
  | _, m, n => n = m

theorem Passes.eq {op : Opcode} {m n : Nat} (h : op.Passes m n) : n = op.handlers m := by
  cases op <;> simp only [Passes, handlers] at h ⊢ <;> omega

theorem passes_handlers (op : Opcode) {m : Nat} (h : op = .popException → 0 < m) : op.Passes m (op.handlers m) := by
  cases op <;> simp only [Passes, handlers]
  have := h rfl
  omega

theorem handlers_of_isSteady {op : Opcode} (h : op.isSteady = true) (n : Nat) : op.handlers n = n := by
  cases op <;> first | rfl | cases h

end Opcode

/-- Every index has a depth, zero at the start, that agrees along every way control may go, where `falls` says
which operations may go on to the next instruction. -/
def Consistent (falls : Opcode → Bool) (tables : List SwitchTable) (code : Code) : Prop :=
  ∃ depth : Nat → Nat, depth 0 = 0 ∧ ∀ (i : Nat) (x : Instruction), code[i]? = some x →
    (falls x.op = true → x.op.Passes (depth i) (depth (i + 1))) ∧ ∀ j ∈ x.targets tables, depth j = depth i

/-- The depths agree whichever operations go on to the next instruction, also when all of them do. -/
def Balanced (tables : List SwitchTable) (code : Code) : Prop := ∀ falls, Consistent falls tables code

/-- The handlers that are installed in front of an index, counted from the start. -/
def handlers (code : Code) : Nat → Nat
  | 0 => 0
  | i + 1 => (code[i]?.map Instruction.op).elim (handlers code i) fun op => op.handlers (handlers code i)

theorem handlers_succ {code : Code} {i : Nat} {x : Instruction} (hx : code[i]? = some x) :
    handlers code (i + 1) = x.op.handlers (handlers code i) := by
  rw [handlers, hx]
  rfl

/-- Only the operations in front of an index count. -/
theorem handlers_congr {a b : Code} {n : Nat}
    (h : ∀ i < n, b[i]?.map Instruction.op = a[i]?.map Instruction.op) : ∀ i ≤ n, handlers b i = handlers a i := by
  intro i
  induction i with
  | zero => exact fun _ => rfl
  | succ i ih =>
      intro hi
      rw [handlers, handlers, h i hi, ih (Nat.le_of_succ_le hi)]

theorem Extends.handlers {a b : Code} (h : Extends a b) {i : Nat} (hi : i ≤ a.size) :
    handlers b i = handlers a i :=
  handlers_congr (fun k hk => by rw [h.kept k hk]) i hi

/-- Steady code keeps the handlers it starts with. -/
theorem Level.handlers {a b : Code} (h : Level a b) {i : Nat} (hi : a.size ≤ i) :
    handlers b i = handlers a a.size := by
  induction i with
  | zero =>
      have : a.size = 0 := Nat.le_zero.mp hi
      rw [this]
      rfl
  | succ i ih =>
      by_cases hlt : a.size ≤ i
      · rw [StackScript.handlers]
        cases hx : b[i]? with
        | none => exact ih hlt
        | some x =>
            show x.op.handlers _ = _
            rw [Opcode.handlers_of_isSteady (h.fresh i x hlt hx).op, ih hlt]
      · have heq : a.size = i + 1 := by omega
        rw [heq]
        exact h.longer.handlers (Nat.le_of_eq heq.symm)

/-- Where handlers are removed there are some, and no jump leaves the code. -/
structure Regular (tables : List SwitchTable) (code : Code) : Prop where
  pops : ∀ (i : Nat) (x : Instruction), code[i]? = some x → x.op = .popException → 0 < handlers code i
  inside : ∀ (i : Nat) (x : Instruction), code[i]? = some x → ∀ j ∈ x.targets tables, j ≤ code.size

/-- A regular container is balanced exactly when the handlers agree along its jumps. -/
theorem Regular.balanced_iff {tables : List SwitchTable} {code : Code} (h : Regular tables code) :
    Balanced tables code ↔ ∀ (i : Nat) (x : Instruction), code[i]? = some x → ∀ j ∈ x.targets tables,
      handlers code j = handlers code i := by
  constructor
  · intro hbalanced
    obtain ⟨depth, hzero, hdepth⟩ := hbalanced fun _ => true
    have counted : ∀ i ≤ code.size, depth i = handlers code i := by
      intro i
      induction i with
      | zero => exact fun _ => hzero
      | succ i ih =>
          intro hi
          have hx := Array.getElem?_eq_getElem (Nat.lt_of_succ_le hi)
          rw [handlers_succ hx, ← ih (Nat.le_of_succ_le hi)]
          exact ((hdepth i _ hx).1 rfl).eq
    intro i x hx j hj
    have hi := (Array.getElem?_eq_some_iff.mp hx).1
    rw [← counted j (h.inside i x hx j hj), ← counted i (Nat.le_of_lt hi)]
    exact (hdepth i x hx).2 j hj
  · intro hjumps falls
    refine ⟨handlers code, rfl, fun i x hx => ⟨fun _ => ?_, hjumps i x hx⟩⟩
    rw [handlers_succ hx]
    exact x.op.passes_handlers (h.pops i x hx)

theorem balanced_empty (tables : List SwitchTable) : Balanced tables #[] :=
  fun _ => ⟨fun _ => 0, rfl, fun i x hx => by simp at hx⟩

/-- Steady code that is a container of its own is balanced: no handler is ever installed. -/
theorem Level.balanced {code : Code} (h : Level #[] code) (tables : List SwitchTable) : Balanced tables code := by
  intro falls
  refine ⟨fun _ => 0, rfl, fun i x hx => ⟨fun _ => ?_, fun _ _ => rfl⟩⟩
  have hop := (h.fresh i x (Nat.zero_le _) hx).op
  cases hx : x.op <;> rw [hx] at hop <;> first | rfl | cases hop

end StackScript
