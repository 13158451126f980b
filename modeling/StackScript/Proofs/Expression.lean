/-
The code of an expression computes its value.

Expressions of literals, named variables and operators are given a meaning of their own: from left to
right, with the operand an operator skips left alone.  What an operation of the machine makes of its
operands is a parameter, and so is which values count as true.  `Tree.computes` says that the code
generated for such an expression, wherever it is placed, leaves its value on top of the stack and its
assignments in the variables.

Operators that take an instruction back do so behind jumps that already point to the end of the code; this
is sound because the instruction put in its place starts at the same index.
-/
import StackScript.Proofs.Code
import StackScript.Proofs.Constants
import StackScript.Proofs.Run.Script

namespace StackScript

/-! ### The machine -/

/-- What the operations of the machine make of values. -/
structure Meaning (V : Type) where
  constant : Constant → V
  unary : Opcode → V → V
  /-- The operand that was pushed first comes first. -/
  binary : Opcode → V → V → V
  isTrue : V → Bool

/-- The machine inside a container: the next instruction, the stack and the variables. -/
structure Machine (V : Type) where
  pc : Nat
  stack : List V
  vars : String → V

namespace Opcode

/-- The operations that replace one value by another. -/
def isUnary : Opcode → Bool
  | uminus | uplus | bitnot | lnot => true
  | _ => false

/-- The operations that replace two values by one. -/
def isBinary : Opcode → Bool
  | mul | div | mod | add | sub | shl | shr | lt | le | gt | ge | eq | neq | band | bxor | bor | land | lor
  | lxor | nullc => true
  | _ => false

end Opcode

namespace Machine

variable {V : Type}

/-- Goes on with the next instruction. -/
def next (m : Machine V) (stack : List V) : Machine V := ⟨m.pc + 1, stack, m.vars⟩

/-- Assigns to a variable. -/
def assign (m : Machine V) (name : String) (v : V) : Machine V :=
  { m with vars := fun x => if x = name then v else m.vars x }

end Machine

namespace Meaning

variable {V : Type} (M : Meaning V) (pool : ConstantPool)

/-- A conditional jump on the top of the stack: it is taken when the value is `truth`, and a number other
than zero keeps the value. -/
def branch (x : Instruction) (truth : Bool) (m : Machine V) : Option (Machine V) :=
  match m.stack with
  | [] => none
  | v :: rest =>
    some ⟨if M.isTrue v = truth then x.p2 else m.pc + 1, if x.p1 = 0 then rest else v :: rest, m.vars⟩

/-- One value operation. -/
def operate (x : Instruction) (m : Machine V) : Option (Machine V) :=
  match m.stack with
  | v :: rest =>
    if x.op.isUnary then some (m.next (M.unary x.op v :: rest))
    else
      match rest with
      | w :: rest =>
        if x.op.isBinary && x.p2 == 0 then some (m.next (M.binary x.op w v :: rest)) else none
      | [] => none
  | [] => none

/-- What one instruction does; `none` when the stack does not hold what it takes, or when it is none of
those that expressions of this sort consist of. -/
def exec (x : Instruction) (m : Machine V) : Option (Machine V) :=
  match x.op with
  | .loadc =>
    if x.p1 = 0 then (pool.get? x.p2).map fun c => m.next (M.constant c :: m.stack) else none
  | .load =>
    match x.p3 with
    | .name name => some (m.next (m.vars name :: m.stack))
    | _ => none
  | .store =>
    match x.p3, m.stack with
    | .name name, v :: rest => some ((m.assign name v).next (v :: rest))
    | _, _ => none
  | .pop =>
    if x.p1.toNat ≤ m.stack.length then some (m.next (m.stack.drop x.p1.toNat)) else none
  | .jmp => some { m with pc := x.p2 }
  | .jmpz => M.branch x false m
  | .jmpnz => M.branch x true m
  | _ => M.operate x m

/-- One step in a container. -/
def step (code : Code) (m : Machine V) : Option (Machine V) := code[m.pc]?.bind fun x => M.exec pool x m

/-- So many steps. -/
def steps (code : Code) : Nat → Machine V → Option (Machine V)
  | 0, m => some m
  | n + 1, m => (M.step pool code m).bind (steps code n)

/-- The machine gets from one state to another. -/
def Reaches (code : Code) (m m' : Machine V) : Prop := ∃ n, M.steps pool code n m = some m'

variable {M pool} {code : Code}

theorem steps_add (m : Machine V) (i j : Nat) :
    M.steps pool code (i + j) m = (M.steps pool code i m).bind (M.steps pool code j) := by
  induction i generalizing m with
  | zero =>
      rw [Nat.zero_add]
      rfl
  | succ i ih =>
      rw [Nat.succ_add, steps, steps]
      cases M.step pool code m with
      | none => rfl
      | some m' => exact ih m'

theorem Reaches.trans {m m' m'' : Machine V} (h : M.Reaches pool code m m')
    (h' : M.Reaches pool code m' m'') : M.Reaches pool code m m'' := by
  obtain ⟨i, hi⟩ := h
  obtain ⟨j, hj⟩ := h'
  refine ⟨i + j, ?_⟩
  rw [steps_add, hi]
  exact hj

/-- One instruction is one step. -/
theorem Reaches.exec {m m' : Machine V} {x : Instruction} (hx : code[m.pc]? = some x)
    (h : M.exec pool x m = some m') : M.Reaches pool code m m' := by
  refine ⟨1, ?_⟩
  rw [steps, step, hx, Option.bind_some, h]
  rfl

/-- A conditional jump that is taken. -/
theorem Reaches.taken {m : Machine V} {x : Instruction} {truth : Bool} {v : V} {rest : List V}
    (hx : code[m.pc]? = some x) (hjump : M.exec pool x m = M.branch x truth m) (hm : m.stack = v :: rest)
    (hv : M.isTrue v = truth) :
    M.Reaches pool code m ⟨x.p2, if x.p1 = 0 then rest else v :: rest, m.vars⟩ := by
  refine Reaches.exec hx ?_
  rw [hjump, branch, hm]
  simp only [if_pos hv]

/-- A conditional jump that is not taken. -/
theorem Reaches.fallen {m : Machine V} {x : Instruction} {truth : Bool} {v : V} {rest : List V}
    (hx : code[m.pc]? = some x) (hjump : M.exec pool x m = M.branch x truth m) (hm : m.stack = v :: rest)
    (hv : M.isTrue v ≠ truth) :
    M.Reaches pool code m ⟨m.pc + 1, if x.p1 = 0 then rest else v :: rest, m.vars⟩ := by
  refine Reaches.exec hx ?_
  rw [hjump, branch, hm]
  simp only [if_neg hv]

end Meaning

/-! ### The meaning of expressions -/

namespace Token

/-- The constant a number stands for. -/
def constant (t : Token) : Constant :=
  if t.is .integer then
    match IntegerLiteral.read t.text.toList with
    | .value v => .int v
    | .overflow radix => if radix = 10 then .real (readReal t.text.toList) else .int Int64.maxValue
  else .real (readReal t.text.toList)

end Token

namespace Operator

/-- The value operation that an operator in front stands for. -/
def unary? : Operator → Option Opcode
  | neg => some .uminus
  | plus => some .uplus
  | bitNot => some .bitnot
  | logNot => some .lnot
  | _ => none

/-- The value operation that an operator between two operands stands for. -/
def binary? : Operator → Option Opcode
  | mul => some .mul
  | div => some .div
  | mod => some .mod
  | add => some .add
  | sub => some .sub
  | shl => some .shl
  | shr => some .shr
  | lt => some .lt
  | le => some .le
  | gt => some .gt
  | ge => some .ge
  | eq => some .eq
  | ne => some .neq
  | bitAnd => some .band
  | bitXor => some .bxor
  | bitOr => some .bor
  | logXor => some .lxor
  | nullCoalesce => some .nullc
  | _ => none

end Operator

namespace Tree

/-- The name of a plain variable. -/
def named? : Tree Leaf → Option String
  | leaf _ (.variable _ name 0) => some name
  | _ => none

/-- Whether the expression is built from numbers, single-quoted strings, named variables, the operators of
`unary?` and `binary?`, `&&`, `||`, the comma, the conditional and assignments to named variables. -/
def isCore : Tree Leaf → Bool
  | leaf _ (.number _) => true
  | leaf _ (.simpleString _) => true
  | leaf _ (.variable _ _ 0) => true
  | prefixed _ op x => op.unary?.isSome && x.isCore
  | binary _ op x y =>
    (op == .comma || op == .logAnd || op == .logOr || op.binary?.isSome) && x.isCore && y.isCore
  | ternary _ c x y => c.isCore && x.isCore && y.isCore
  | assign _ op target value => op == .assign && target.named?.isSome && value.isCore
  | _ => false

variable {V : Type}

/-- The value of an expression and the variables behind it. -/
def eval (M : Meaning V) : Tree Leaf → (String → V) → Option (V × (String → V))
  | leaf _ (.number t), vars => some (M.constant t.constant, vars)
  | leaf _ (.simpleString text), vars =>
    some (M.constant (.string (String.ofList (StringLiteral.unescapeSimple text.toList))), vars)
  | leaf _ (.variable _ name 0), vars => some (vars name, vars)
  | prefixed _ op x, vars => do
    let code ← op.unary?
    let (v, vars) ← x.eval M vars
    return (M.unary code v, vars)
  | binary _ .comma x y, vars => do
    let (_, vars) ← x.eval M vars
    y.eval M vars
  | binary _ .logAnd x y, vars => do
    let (v, vars) ← x.eval M vars
    if M.isTrue v then
      let (w, vars) ← y.eval M vars
      return (M.binary .land v w, vars)
    else return (v, vars)
  | binary _ .logOr x y, vars => do
    let (v, vars) ← x.eval M vars
    if M.isTrue v then return (v, vars)
    else
      let (w, vars) ← y.eval M vars
      return (M.binary .lor v w, vars)
  | binary _ op x y, vars => do
    let code ← op.binary?
    let (v, vars) ← x.eval M vars
    let (w, vars) ← y.eval M vars
    return (M.binary code v w, vars)
  | ternary _ c x y, vars => do
    let (v, vars) ← c.eval M vars
    if M.isTrue v then x.eval M vars else y.eval M vars
  | assign _ .assign target value, vars => do
    let name ← target.named?
    let (v, vars) ← value.eval M vars
    return (v, fun x => if x = name then v else vars x)
  | _, _ => none

end Tree

theorem Tree.eval_number {V : Type} {M : Meaning V} (p : Place) (t : Token) (vars : String → V) :
    (Tree.leaf p (.number t)).eval M vars = some (M.constant t.constant, vars) := rfl

theorem Tree.eval_prefixed {V : Type} {M : Meaning V} {op : Operator} {code : Opcode}
    (hop : op.unary? = some code) {p : Place} {x : Tree Leaf} {vars : String → V} :
    (Tree.prefixed p op x).eval M vars = (x.eval M vars).bind fun r => some (M.unary code r.1, r.2) := by
  cases op <;> cases hop <;> rfl

theorem Tree.eval_binary {V : Type} {M : Meaning V} {op : Operator} {code : Opcode}
    (hop : op.binary? = some code) {p : Place} {x y : Tree Leaf} {vars : String → V} :
    (Tree.binary p op x y).eval M vars = (x.eval M vars).bind fun r =>
      (y.eval M r.2).bind fun r' => some (M.binary code r.1 r'.1, r'.2) := by
  cases op <;> cases hop <;> rfl

theorem Tree.eval_comma {V : Type} {M : Meaning V} {p : Place} {x y : Tree Leaf} {vars : String → V} :
    (Tree.binary p .comma x y).eval M vars = (x.eval M vars).bind fun r => y.eval M r.2 := rfl

theorem Tree.eval_logAnd {V : Type} {M : Meaning V} {p : Place} {x y : Tree Leaf} {vars : String → V} :
    (Tree.binary p .logAnd x y).eval M vars = (x.eval M vars).bind fun r =>
      if M.isTrue r.1 then (y.eval M r.2).bind fun r' => some (M.binary .land r.1 r'.1, r'.2) else some r := rfl

theorem Tree.eval_logOr {V : Type} {M : Meaning V} {p : Place} {x y : Tree Leaf} {vars : String → V} :
    (Tree.binary p .logOr x y).eval M vars = (x.eval M vars).bind fun r =>
      if M.isTrue r.1 then some r else (y.eval M r.2).bind fun r' => some (M.binary .lor r.1 r'.1, r'.2) := rfl

theorem Tree.eval_ternary {V : Type} {M : Meaning V} {p : Place} {c x y : Tree Leaf} {vars : String → V} :
    (Tree.ternary p c x y).eval M vars = (c.eval M vars).bind fun r =>
      if M.isTrue r.1 then x.eval M r.2 else y.eval M r.2 := rfl

theorem Tree.eval_assign {V : Type} {M : Meaning V} {name : String} {target : Tree Leaf}
    (ht : target.named? = some name) {p : Place} {value : Tree Leaf} {vars : String → V} :
    (Tree.assign p .assign target value).eval M vars = (value.eval M vars).bind fun r =>
      some (r.1, fun x => if x = name then r.1 else r.2 x) := by
  show (target.named?.bind fun name => (value.eval M vars).bind fun r =>
    some (r.1, fun x => if x = name then r.1 else r.2 x)) = _
  rw [ht]
  rfl

/-! ### Operators and their instructions -/

open Gen

theorem after_prefixed {op : Operator} {code : Opcode} (hop : op.unary? = some code) (line : Nat)
    (operand : Gen Unit) (s : GenState) :
    after (prefixed line op operand) s = after (put code 0 0 .none) (after operand (after (setLine line) s)) := by
  cases op <;> cases hop <;> rfl

theorem after_binary {op : Operator} {code : Opcode} (hop : op.binary? = some code) (line : Nat)
    (left right : Gen Unit) (s : GenState) :
    after (binary line op left right) s =
      after (put code 0 0 .none) (after right (after left (after (setLine line) s))) := by
  cases op <;> cases hop <;> rfl

theorem Operator.isUnary_of_unary? {op : Operator} {code : Opcode} (hop : op.unary? = some code) :
    code.isUnary = true := by
  cases op <;> cases hop <;> rfl

theorem Operator.isBinary_of_binary? {op : Operator} {code : Opcode} (hop : op.binary? = some code) :
    code.isBinary = true := by
  cases op <;> cases hop <;> rfl

namespace Meaning

variable {V : Type} (M : Meaning V) (pool : ConstantPool)

theorem exec_unary {op : Opcode} (hop : op.isUnary = true) (p3 : Operand) (line : Nat) (m : Machine V)
    {v : V} {rest : List V} (hm : m.stack = v :: rest) :
    M.exec pool ⟨op, 0, 0, p3, line⟩ m = some (m.next (M.unary op v :: rest)) := by
  have operate : M.operate ⟨op, 0, 0, p3, line⟩ m = some (m.next (M.unary op v :: rest)) := by
    unfold Meaning.operate
    rw [hm]
    exact if_pos hop
  cases op <;> cases hop <;> exact operate

theorem exec_binary {op : Opcode} (hop : op.isBinary = true) (p3 : Operand) (line : Nat) (m : Machine V)
    {v w : V} {rest : List V} (hm : m.stack = w :: v :: rest) :
    M.exec pool ⟨op, 0, 0, p3, line⟩ m = some (m.next (M.binary op v w :: rest)) := by
  have operate : op.isUnary = false →
      M.operate ⟨op, 0, 0, p3, line⟩ m = some (m.next (M.binary op v w :: rest)) := by
    intro hunary
    unfold Meaning.operate
    rw [hm]
    simp [hunary, hop]
  cases op <;> cases hop <;> exact operate rfl

end Meaning

/-! ### Code that computes an expression -/

section

variable {V : Type} (M : Meaning V)

/-- What was generated between two states computes an expression, wherever it is placed and whatever is
generated behind it. -/
structure Computes (t : Tree Leaf) (s s' : GenState) : Prop where
  longer : Extends s.code s'.code
  constants : s.program.constants.Grows s'.program.constants
  runs : ∀ (pool : ConstantPool) (code : Code), s'.program.constants.Grows pool →
    Holds code s.code.size s'.code → ∀ (stack : List V) (vars : String → V), ∃ v vars',
      t.eval M vars = some (v, vars') ∧
        M.Reaches pool code ⟨s.code.size, stack, vars⟩ ⟨s'.code.size, v :: stack, vars'⟩

namespace Computes

variable {M} {t x y c : Tree Leaf} {s s₁ s₂ s₃ : GenState}

/-- Steps in front that add neither code nor constants. -/
theorem behind (h : Computes M t s₁ s₂) (hcode : s₁.code = s.code)
    (hpool : s₁.program.constants = s.program.constants) : Computes M t s s₂ where
  longer := hcode ▸ h.longer
  constants := hpool ▸ h.constants
  runs := by
    have runs := h.runs
    rw [hcode] at runs
    exact runs

/-- The line of what comes next does not matter. -/
theorem onLine (h : Computes M t s s₁) (line : Nat) : Computes M t s (after (setLine line) s₁) :=
  ⟨h.longer, h.constants, h.runs⟩

/-- A literal is loaded from its slot. -/
theorem literal {k : Constant} (ht : ∀ vars, t.eval M vars = some (M.constant k, vars))
    {add : ConstantPool → Nat × ConstantPool} (hadd : ∀ p : ConstantPool, p.Grows (add p).2)
    (hk : ∀ p : ConstantPool, p.Literal → (add p).2.get? (add p).1 = some k)
    (hs : s.program.constants.Literal) : Computes M t s (after (loadConstant add) s) where
  longer := Extends.push _ _
  constants := hadd _
  runs := by
    intro pool code hpool hcode stack vars
    have slot := hpool.get? (hk _ hs)
    refine ⟨_, _, ht vars, ?_⟩
    have hsize : (after (loadConstant add) s).code.size = s.code.size + 1 := Array.size_push _
    rw [hsize]
    refine Meaning.Reaches.exec (hcode.last (Nat.le_refl _)) ?_
    show (if (0 : Int) = 0 then (pool.get? (add s.program.constants).1).map _ else none) = _
    rw [if_pos rfl, slot]
    rfl

/-- A variable is loaded by its name. -/
theorem named {name : String} (ht : ∀ vars, t.eval M vars = some (vars name, vars)) (p1 : Int) :
    Computes M t s (after (put .load p1 0 (.name name)) s) where
  longer := Extends.push _ _
  constants := .refl
  runs := by
    intro pool code _ hcode stack vars
    refine ⟨_, _, ht vars, ?_⟩
    have hsize : (after (put .load p1 0 (.name name)) s).code.size = s.code.size + 1 := Array.size_push _
    rw [hsize]
    exact Meaning.Reaches.exec (hcode.last (Nat.le_refl _)) rfl

theorem unary {op : Operator} {code : Opcode} (hop : op.unary? = some code) (p : Place)
    (hx : Computes M x s s₁) : Computes M (.prefixed p op x) s (after (put code 0 0 .none) s₁) where
  longer := hx.longer.trans (Extends.push _ _)
  constants := hx.constants
  runs := by
    intro pool container hpool hcode stack vars
    obtain ⟨v, vars₁, hv, reach⟩ := hx.runs pool container hpool (hcode.shorter (Extends.push _ _)) stack vars
    refine ⟨M.unary code v, vars₁, ?_, reach.trans ?_⟩
    · rw [Tree.eval_prefixed hop, hv]
      rfl
    · have hsize : (after (put code 0 0 .none) s₁).code.size = s₁.code.size + 1 := Array.size_push _
      rw [hsize]
      refine Meaning.Reaches.exec (hcode.last hx.longer.grows) ?_
      exact M.exec_unary pool (Operator.isUnary_of_unary? hop) .none _ _ rfl

theorem binary {op : Operator} {code : Opcode} (hop : op.binary? = some code) (p : Place)
    (hx : Computes M x s s₁) (hy : Computes M y s₁ s₂) :
    Computes M (.binary p op x y) s (after (put code 0 0 .none) s₂) where
  longer := (hx.longer.trans hy.longer).trans (Extends.push _ _)
  constants := hx.constants.trans hy.constants
  runs := by
    intro pool container hpool hcode stack vars
    have hcode₂ := hcode.shorter (Extends.push _ _)
    obtain ⟨v, vars₁, hv, reach₁⟩ :=
      hx.runs pool container (hy.constants.trans hpool) (hcode₂.shorter hy.longer) stack vars
    obtain ⟨w, vars₂, hw, reach₂⟩ :=
      hy.runs pool container hpool (hcode₂.later hx.longer.grows) (v :: stack) vars₁
    refine ⟨M.binary code v w, vars₂, ?_, (reach₁.trans reach₂).trans ?_⟩
    · rw [Tree.eval_binary hop, hv, Option.bind_some, hw]
      rfl
    · have hsize : (after (put code 0 0 .none) s₂).code.size = s₂.code.size + 1 := Array.size_push _
      rw [hsize]
      refine Meaning.Reaches.exec (hcode.last (Nat.le_trans hx.longer.grows hy.longer.grows)) ?_
      exact M.exec_binary pool (Operator.isBinary_of_binary? hop) .none _ _ rfl

/-- The value in front of a comma is dropped. -/
theorem comma (p : Place) (hx : Computes M x s s₁) (hy : Computes M y (after drop s₁) s₂) :
    Computes M (.binary p .comma x y) s s₂ where
  longer := (hx.longer.trans (Extends.push _ _)).trans hy.longer
  constants := hx.constants.trans hy.constants
  runs := by
    intro pool container hpool hcode stack vars
    have hdrop := hcode.shorter hy.longer
    have hsize : (after drop s₁).code.size = s₁.code.size + 1 := Array.size_push _
    obtain ⟨v, vars₁, hv, reach₁⟩ := hx.runs pool container (hy.constants.trans hpool)
      (hdrop.shorter (Extends.push _ _)) stack vars
    obtain ⟨w, vars₂, hw, reach₂⟩ := hy.runs pool container hpool
      (hcode.later (by rw [hsize]; exact Nat.le_succ_of_le hx.longer.grows)) stack vars₁
    refine ⟨w, vars₂, ?_, (reach₁.trans ?_).trans reach₂⟩
    · rw [Tree.eval_comma, hv]
      exact hw
    · rw [hsize]
      exact Meaning.Reaches.exec (hdrop.last hx.longer.grows) rfl

/-- An operator that skips its right operand: `jump` is taken when the left value is `truth`. -/
theorem short {jump op : Opcode} (truth : Bool)
    (hjump : ∀ (x : Instruction) (pool : ConstantPool) (m : Machine V), x.op = jump →
      M.exec pool x m = M.branch x truth m)
    (hop : op.isBinary = true)
    (decided : ∀ {vars vars₁ : String → V} {v : V}, x.eval M vars = some (v, vars₁) → M.isTrue v = truth →
      t.eval M vars = some (v, vars₁))
    (both : ∀ {vars vars₁ vars₂ : String → V} {v w : V}, x.eval M vars = some (v, vars₁) →
      M.isTrue v ≠ truth → y.eval M vars₁ = some (w, vars₂) → t.eval M vars = some (M.binary op v w, vars₂))
    (hx : Computes M x s s₁) (hy : Computes M y (after (emit jump 1 0 .none) s₁) s₂) :
    Computes M t s (after (landHere s₁.code.size) (after (put op 0 0 .none) s₂)) where
  longer := ((hx.longer.trans (Extends.push _ _)).trans hy.longer).trans (Extends.push _ _) |>.patch
    hx.longer.grows _
  constants := hx.constants.trans hy.constants
  runs := by
    intro pool container hpool hcode stack vars
    have hlt : s₁.code.size < (after (emit jump 1 0 .none) s₁).code.size := by
      rw [after_emit, Array.size_push]
      exact Nat.lt_succ_self _
    have hend : (after (landHere s₁.code.size) (after (put op 0 0 .none) s₂)).code.size = s₂.code.size + 1 :=
      (Code.size_patch ..).trans (Array.size_push _)
    have hpush : Extends (after (emit jump 1 0 .none) s₁).code (after (put op 0 0 .none) s₂).code :=
      hy.longer.trans (Extends.push _ _)
    -- The code from behind the jump on, and the jump with its target.
    have hright : Holds container (after (emit jump 1 0 .none) s₁).code.size (after (put op 0 0 .none) s₂).code :=
      hcode.unpatch hlt (Nat.le_trans hx.longer.grows (Nat.le_of_lt hlt))
    have hfilled := hcode.patched hx.longer.grows hpush.first
    have hleft : Holds container s.code.size s₁.code :=
      hcode.shorter (((Extends.push _ _).trans hpush).patch (Nat.le_refl _) _)
    obtain ⟨v, vars₁, hv, reach₁⟩ := hx.runs pool container (hy.constants.trans hpool) hleft stack vars
    rw [hend]
    by_cases hdecides : M.isTrue v = truth
    · refine ⟨v, vars₁, decided hv hdecides, reach₁.trans ?_⟩
      have jump := Meaning.Reaches.taken (m := ⟨s₁.code.size, v :: stack, vars₁⟩) hfilled
        (hjump _ pool _ rfl) rfl hdecides
      have htarget : (after (put op 0 0 .none) s₂).buffer.size = s₂.code.size + 1 := Array.size_push _
      rw [htarget] at jump
      exact jump
    · obtain ⟨w, vars₂, hw, reach₂⟩ := hy.runs pool container hpool
        (hright.shorter (Extends.push _ _)) (v :: stack) vars₁
      refine ⟨M.binary op v w, vars₂, both hv hdecides hw, (reach₁.trans ?_).trans (reach₂.trans ?_)⟩
      · have jump := Meaning.Reaches.fallen (m := ⟨s₁.code.size, v :: stack, vars₁⟩) hfilled
          (hjump _ pool _ rfl) rfl hdecides
        rw [after_emit, Array.size_push]
        exact jump
      · refine Meaning.Reaches.exec (hright.last hy.longer.grows) ?_
        exact M.exec_binary pool hop .none _ _ rfl

/-- Of the two halves of a conditional one is run. -/
theorem ternary (p : Place) (hc : Computes M c s s₁)
    (hx : Computes M x (after (emit .jmpz 0 0 .none) s₁) s₂)
    (hy : Computes M y (after (landHere s₁.code.size) (after (emit .jmp 0 0 .none) s₂)) s₃) :
    Computes M (.ternary p c x y) s (after (landHere s₂.code.size) s₃) := by
  have hjmpz : (after (emit .jmpz 0 0 .none) s₁).code.size = s₁.code.size + 1 := Array.size_push _
  have hjmp : (after (landHere s₁.code.size) (after (emit .jmp 0 0 .none) s₂)).code.size = s₂.code.size + 1 :=
    (Code.size_patch ..).trans (Array.size_push _)
  have hend : (after (landHere s₂.code.size) s₃).code.size = s₃.code.size := Code.size_patch ..
  have choice : Chooses s₁.code s₂.code s₃.code ⟨.jmpz, 0, 0, .none, s₁.buffer.line⟩ ⟨.jmp, 0, 0, .none, s₂.buffer.line⟩ :=
    ⟨hx.longer, hy.longer⟩
  have hstart := hc.longer.grows
  have hle₁ := choice.lt_yes
  have hle₂ := choice.lt_no
  have hall : Extends s₁.code (after (landHere s₂.code.size) s₃).code := choice.longer
  refine ⟨hc.longer.trans hall, (hc.constants.trans hx.constants).trans hy.constants, ?_⟩
  intro pool container hpool hcode stack vars
  have holds : ∀ i, s.code.size ≤ i → i < s₃.code.size →
      container[i]? = (Code.patch s₃.code s₂.code.size s₃.code.size)[i]? := fun i hi hlt => hcode i hi (by rw [hend]; exact hlt)
  have hsecond : Holds container (s₂.code.size + 1) s₃.code := fun i hi hlt =>
    (holds i (by omega) hlt).trans (Chooses.at_no hi)
  have hyes : Holds container (s₁.code.size + 1) s₂.code := fun i hi hlt =>
    (holds i (by omega) (by omega)).trans (choice.at_yes hi hlt)
  have htest : container[s₁.code.size]? = some ⟨.jmpz, 0, s₂.code.size + 1, .none, s₁.buffer.line⟩ :=
    (holds _ hstart (by omega)).trans choice.at_test
  have hout : container[s₂.code.size]? = some ⟨.jmp, 0, s₃.code.size, .none, s₂.buffer.line⟩ :=
    (holds _ (by omega) hle₂).trans choice.at_out
  obtain ⟨v, vars₁, hv, reach⟩ := hc.runs pool container ((hx.constants.trans hy.constants).trans hpool)
    (hcode.shorter hall) stack vars
  rw [hend]
  cases htrue : M.isTrue v with
  | true =>
      obtain ⟨w, vars₂, hw, reach₂⟩ := hx.runs pool container (hy.constants.trans hpool)
        (by rw [hjmpz]; exact hyes) stack vars₁
      have jump : M.Reaches pool container _ _ := Meaning.Reaches.fallen
        (m := ⟨s₁.code.size, v :: stack, vars₁⟩) htest rfl rfl (by rw [htrue]; decide)
      rw [hjmpz] at reach₂
      refine ⟨w, vars₂, ?_, ((reach.trans jump).trans reach₂).trans (Meaning.Reaches.exec hout rfl)⟩
      rw [Tree.eval_ternary, hv]
      simp only [Option.bind_some, htrue, if_pos]
      exact hw
  | false =>
      obtain ⟨w, vars₂, hw, reach₂⟩ := hy.runs pool container hpool (by rw [hjmp]; exact hsecond) stack vars₁
      have jump : M.Reaches pool container _ _ := Meaning.Reaches.taken
        (m := ⟨s₁.code.size, v :: stack, vars₁⟩) htest rfl rfl htrue
      rw [hjmp] at reach₂
      refine ⟨w, vars₂, ?_, (reach.trans jump).trans reach₂⟩
      rw [Tree.eval_ternary, hv]
      simp only [Option.bind_some, htrue]
      exact hw

/-- The value is computed before it is stored. -/
theorem assign {name : String} {target value : Tree Leaf} (p : Place) (ht : target.named? = some name)
    (h : Computes M value s s₁) :
    Computes M (.assign p .assign target value) s (after (put .store 0 0 (.name name)) s₁) where
  longer := h.longer.trans (Extends.push _ _)
  constants := h.constants
  runs := by
    intro pool container hpool hcode stack vars
    obtain ⟨v, vars₁, hv, reach⟩ := h.runs pool container hpool (hcode.shorter (Extends.push _ _)) stack vars
    refine ⟨v, fun x => if x = name then v else vars₁ x, ?_, reach.trans ?_⟩
    · rw [Tree.eval_assign ht, hv]
      rfl
    · have hsize : (after (put .store 0 0 (.name name)) s₁).code.size = s₁.code.size + 1 := Array.size_push _
      rw [hsize]
      exact Meaning.Reaches.exec (hcode.last h.longer.grows) rfl

end Computes

/-! ### Every expression -/

variable {M}

/-- A number is loaded as its constant. -/
theorem Computes.number (p : Place) (t : Token) {s : GenState} (hs : s.program.constants.Literal) :
    Computes M (.leaf p (.number t)) s (after (Gen.number t) s) := by
  have int : ∀ {v : Int64} {s : GenState}, t.constant = .int v → s.program.constants.Literal →
      Computes M (.leaf p (.number t)) s (after (loadConstant (·.addInt v)) s) := by
    intro v s hv hs
    refine .literal (fun _ => by rw [Tree.eval_number, hv]) (fun _ => .int .refl _) (fun _ hp => ?_) hs
    exact ConstantPool.get?_intern hp trivial
  have real : t.constant = .real (readReal t.text.toList) →
      Computes M (.leaf p (.number t)) s (after (loadConstant (·.addReal (readReal t.text.toList))) s) := by
    intro hv
    refine .literal (fun _ => by rw [Tree.eval_number, hv]) (fun _ => .real .refl _) (fun _ hp => ?_) hs
    exact ConstantPool.get?_intern hp (Binary64.isLiteral_ofDecimal _ _)
  unfold Gen.number
  unfold Token.constant at int real
  split
  · rename_i hint
    simp only [hint, if_true] at int real
    split
    · rename_i v hread
      exact int (by rw [hread]) hs
    · rename_i radix hread
      simp only [hread] at int real
      split
      · rename_i hradix
        exact real (if_pos hradix)
      · rename_i hradix
        have load := int (s := after (report t.line (.numberOutOfRange t.text)) s) (if_neg hradix) hs
        exact load.behind rfl rfl
  · rename_i hreal
    exact real (if_neg hreal)

theorem Leaf.computes (access : Access) (p : Place) {l : Leaf} (hl : (Tree.leaf p l).isCore = true)
    {s : GenState} (hs : s.program.constants.Literal) :
    Computes M (.leaf p l) s (after (l.gen access) s) := by
  cases l with
  | number t =>
      exact .number p t hs
  | simpleString text =>
      exact .literal (fun _ => rfl) (fun _ => .string .refl _) (fun _ hp => ConstantPool.get?_addString hp _) hs
  | «variable» line name extra =>
      cases extra with
      | zero =>
          have load := Computes.named (M := M) (t := .leaf p (.variable line name 0)) (s := after (setLine line) s)
            (fun _ => rfl) (if access.readOnly then 1 else 0)
          exact load.behind rfl rfl
      | succ n => cases hl
  | _ => cases hl

/-- The instruction that loads the target of an assignment is taken back for one that stores. -/
theorem after_store (p1 : Int) (name : String) (s : GenState) :
    after store (after (put .load p1 0 (.name name)) s) = after (put .store 0 0 (.name name)) s := by
  unfold store
  rw [after_bind, result_last?, after_last?, after_put, Array.back?_push]
  dsimp only
  rw [after_bind, after_takeBack, after_put, after_put]
  simp only [GenState.code, Array.pop_push]

theorem Tree.eq_of_named? {t : Tree Leaf} {name : String} (h : t.named? = some name) :
    ∃ p line, t = .leaf p (.variable line name 0) := by
  unfold Tree.named? at h
  split at h
  · cases h
    exact ⟨_, _, rfl⟩
  · cases h

theorem Tree.computes (access : Access) : (t : Tree Leaf) → t.isCore = true → (s : GenState) →
    s.program.constants.Literal → Computes M t s (after (Leaf.genTree access t) s)
  | .leaf p l, hcore, s, hs => Leaf.computes access p hcore hs
  | .prefixed p op x, hcore, s, hs => by
    obtain ⟨hop, hx⟩ := Bool.and_eq_true_iff.mp hcore
    obtain ⟨code, hop⟩ := Option.isSome_iff_exists.mp hop
    rw [Leaf.genTree_prefixed, after_prefixed hop]
    have operand := Tree.computes access x hx (after (setLine p.line) s) hs
    exact (operand.unary hop p).behind rfl rfl
  | .binary p op x y, hcore, s, hs => by
    obtain ⟨hcore, hy⟩ := Bool.and_eq_true_iff.mp hcore
    obtain ⟨hop, hx⟩ := Bool.and_eq_true_iff.mp hcore
    have left := Tree.computes access x hx (after (setLine p.line) s) hs
    have right : ∀ t : GenState, t.program.constants =
        (after (Leaf.genTree access x) (after (setLine p.line) s)).program.constants →
          Computes M y t (after (Leaf.genTree access y) t) := by
      intro t ht
      refine Tree.computes access y hy t ?_
      rw [ht]
      exact left.constants.literal hs
    rw [Leaf.genTree_binary]
    simp only [Bool.or_eq_true, beq_iff_eq, Option.isSome_iff_exists] at hop
    rcases hop with ((rfl | rfl) | rfl) | ⟨code, hop⟩
    · exact (left.comma p (right (after drop _) rfl)).behind rfl rfl
    · refine (left.short false ?_ rfl ?_ ?_ (right (after (emit .jmpz 1 0 .none) _) rfl)).behind rfl rfl
      · rintro ⟨_, _, _, _, _⟩ pool m rfl
        rfl
      · intro vars vars₁ v hv hfalse
        rw [Tree.eval_logAnd, hv]
        simp only [Option.bind_some, hfalse]
        rfl
      · intro vars vars₁ vars₂ v w hv htrue hw
        rw [Tree.eval_logAnd, hv]
        simp only [Option.bind_some, eq_true_of_ne_false htrue, hw]
        rfl
    · refine (left.short true ?_ rfl ?_ ?_ (right (after (emit .jmpnz 1 0 .none) _) rfl)).behind rfl rfl
      · rintro ⟨_, _, _, _, _⟩ pool m rfl
        rfl
      · intro vars vars₁ v hv htrue
        rw [Tree.eval_logOr, hv]
        simp only [Option.bind_some, htrue]
        rfl
      · intro vars vars₁ vars₂ v w hv hfalse hw
        rw [Tree.eval_logOr, hv]
        simp only [Option.bind_some, eq_false_of_ne_true hfalse, hw]
        rfl
    · rw [after_binary hop]
      exact (left.binary hop p (right _ rfl)).behind rfl rfl
  | .ternary p c x y, hcore, s, hs => by
    obtain ⟨hcore, hy⟩ := Bool.and_eq_true_iff.mp hcore
    obtain ⟨hc, hx⟩ := Bool.and_eq_true_iff.mp hcore
    have condition := Tree.computes access c hc (after (setLine p.line) s) hs
    have hs₁ := condition.constants.literal hs
    have yes := Tree.computes access x hx (after (emit .jmpz 0 0 .none) _) hs₁
    have hs₂ := yes.constants.literal hs₁
    have no := fun i => Tree.computes access y hy (after (landHere i) (after (emit .jmp 0 0 .none) _)) hs₂
    exact (condition.ternary p yes (no _)).behind rfl rfl
  | .assign p op target value, hcore, s, hs => by
    obtain ⟨hcore, hvalue⟩ := Bool.and_eq_true_iff.mp hcore
    obtain ⟨hop, htarget⟩ := Bool.and_eq_true_iff.mp hcore
    obtain rfl := eq_of_beq hop
    obtain ⟨name, htarget⟩ := Option.isSome_iff_exists.mp htarget
    have computed := Tree.computes access value hvalue (after (setLine p.line) s) hs
    obtain ⟨q, line, rfl⟩ := Tree.eq_of_named? htarget
    have stored := (computed.onLine line).assign p htarget
    rw [← after_store (if access.target.readOnly then 1 else 0)] at stored
    exact stored.behind rfl rfl
  | .postfixed _ _ _, hcore, _, _ => by cases hcore
  | .call _ _ _, hcore, _, _ => by cases hcore
  | .index _ _ _, hcore, _, _ => by cases hcore
  | .append _ _, hcore, _, _ => by cases hcore

end

namespace Leaf

/-- The code of an expression, at any offset of a container, ends exactly behind itself with one value more
on the stack: the value of the expression, with the variables its evaluation leaves.  The constants so
far may be any that literals and names have put there, and more may follow. -/
theorem genTree_computes {V : Type} (M : Meaning V) (access : Access) (t : Tree Leaf) (ht : t.isCore = true)
    (s : GenState) {threshold : Nat} (hs : (ConstantPool.empty threshold).Grows s.program.constants)
    (code : Code) (hcode : Holds code s.code.size (after (genTree access t) s).code) (pool : ConstantPool)
    (hpool : (after (genTree access t) s).program.constants.Grows pool) (stack : List V) (vars : String → V) :
    ∃ v vars', t.eval M vars = some (v, vars') ∧
      M.Reaches pool code ⟨s.code.size, stack, vars⟩
        ⟨(after (genTree access t) s).code.size, v :: stack, vars'⟩ := by
  have computes := Tree.computes (M := M) access t ht s (hs.literal (ConstantPool.literal_empty threshold))
  exact computes.runs pool code hpool hcode stack vars

/-- `$a = $b ? 1 : 2 - 3` with `$b` false. -/
theorem genTree_computes_conditional :
    let M : Meaning Int :=
      ⟨fun c => match c with | .int v => v.toInt | _ => 0, fun _ v => -v, fun _ v w => v - w, (· != 0)⟩
    let number : String → Tree Leaf := fun text => .leaf default (.number ⟨.integer, text, 1⟩)
    let named : String → Tree Leaf := fun name => .leaf default (.variable 1 name 0)
    let t : Tree Leaf := .assign default .assign (named "a")
      (.ternary default (named "b") (number "1") (.binary default .sub (number "2") (number "3")))
    let s := after (genTree {} t) (GenState.initial {})
    ∃ vars', vars' "a" = -1 ∧
      M.Reaches s.program.constants s.code ⟨0, [7], fun _ => 0⟩ ⟨s.code.size, [-1, 7], vars'⟩ := by
  intro M number named t s
  have ht : t.isCore = true := by decide
  have hvalue : (t.eval M fun _ => 0).map (fun r => (r.1, r.2 "a")) = some (-1, -1) := by decide +kernel
  clear_value t
  obtain ⟨v, vars', heval, reach⟩ := genTree_computes M {} t ht (GenState.initial {}) .refl s.code
    (Holds.refl _ _) s.program.constants .refl [7] fun _ => 0
  rw [heval] at hvalue
  obtain ⟨rfl, ha⟩ := Prod.mk.inj (Option.some.inj hvalue)
  exact ⟨vars', ha, reach⟩

end Leaf

end StackScript
