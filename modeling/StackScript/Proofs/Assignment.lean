/-
What stands on the left of an assignment.

An entry of a list and a binding of a loop are checked for being something to store into; the target of an
assignment is not.  Reading takes the whole operand on the left, whatever it is, and generating code looks at nothing
but the last instruction that the target leaves, which `Leaf.treeEnding` tells.
-/
import StackScript.Proofs.Joins
import StackScript.Proofs.Printing.Building

namespace StackScript

open Gen

/-! ### What can be stored into -/

/-- A variable with a name, a subscript, a member access or a list. -/
def Tree.isAssignable : Tree Leaf → Bool
  | leaf _ (.variable _ _ _) | leaf _ (.computedVariable _ _ _ _ _) | leaf _ (.list _) => true
  | index _ _ _ | append _ _ | binary _ .arrow _ _ | binary _ .doubleColon _ _ => true
  | _ => false

/-- The opcodes that load something that can be stored into. -/
def Opcode.loadsPlace (op : Opcode) : Bool := [.load, .loadIdx, .member, .loadList].contains op

/-- What can be stored into ends with what loads it. -/
theorem Tree.isAssignable.loadsPlace {t : Tree Leaf} (h : t.isAssignable = true) :
    (Leaf.treeEnding t).op.loadsPlace = true := by
  unfold Tree.isAssignable at h
  split at h
  · rfl
  · rfl
  · rfl
  · rfl
  · rfl
  · rfl
  · rfl
  · exact absurd h Bool.false_ne_true

/-! ### What an assignment does -/

/-- The instruction of an assignment behind code that ends with `x`: with an equals sign it takes the place of `x`,
unless `x` loads a member. -/
def Operator.assigned (op : Operator) (line : Nat) (x : Instruction) (code : Code) : Code :=
  if op = .assign then
    if x.op = .member then code.push ⟨.store, 0, 1, .none, line⟩
    else if x.op = .loadIdx then code.pop.push ⟨.storeIdx, x.p1, 0, .none, line⟩
    else code.pop.push ⟨.store, 0, 0, x.p3, line⟩
  else
    match op.opcode? with
    | some own => code.push ⟨own, 0, 0, .none, line⟩
    | none => code

theorem code_store {s : GenState} {x : Instruction} (hx : s.code.back? = some x) :
    (after store s).code = Operator.assign.assigned s.buffer.line x s.code := by
  unfold store Operator.assigned
  rw [after_bind, result_last?, after_last?, hx, if_pos rfl]
  dsimp only
  split
  · rename_i hmember
    rw [if_pos hmember]
    rfl
  · rename_i hindex
    rw [if_neg (by simp [hindex]), if_pos hindex]
    rfl
  · rename_i hmember hindex
    rw [if_neg hmember, if_neg hindex]
    rfl

theorem reports_store (s : GenState) : (after store s).reports = s.reports := by
  unfold store
  rw [after_bind, result_last?, after_last?]
  split
  · rfl
  · split <;> rfl

/-- An operator reports nothing and adds its own instruction. -/
theorem after_operator (op : Operator) (s : GenState) : (after (operator op 0) s).reports = s.reports ∧
    (after (operator op 0) s).code = match op.opcode? with
      | some own => s.code.push ⟨own, 0, 0, .none, s.buffer.line⟩
      | none => s.code := by
  unfold operator
  cases op.opcode? with
  | none => exact ⟨rfl, rfl⟩
  | some own => exact ⟨rfl, rfl⟩

section

variable (access : Access) (p : Place) (op : Operator) (target value : Tree Leaf)

/-- The state behind the operands of an assignment. -/
def Leaf.afterOperands (s : GenState) : GenState :=
  after (Leaf.genTree access.target target) (after (Leaf.genTree access value) (after (setLine p.line) s))

/-- An assignment reports what its operands report. -/
theorem Leaf.reports_assign (s : GenState) :
    (after (Leaf.genTree access (.assign p op target value)) s).reports =
      (Leaf.afterOperands access p target value s).reports := by
  rw [Leaf.genTree_assign]
  unfold Gen.assign
  rw [after_bind, after_bind, after_bind]
  split
  · exact reports_store _
  · exact (after_operator op _).1

/-- An assignment adds its instruction behind what its operands leave. -/
theorem Leaf.code_assign {s : GenState} {x : Instruction}
    (hx : (Leaf.afterOperands access p target value s).code.back? = some x) :
    (after (Leaf.genTree access (.assign p op target value)) s).code =
      op.assigned (Leaf.afterOperands access p target value s).buffer.line x
        (Leaf.afterOperands access p target value s).code := by
  rw [Leaf.genTree_assign]
  unfold Gen.assign
  rw [after_bind, after_bind, after_bind]
  split
  · exact code_store hx
  · rename_i hassign
    rw [(after_operator op _).2, Operator.assigned, if_neg hassign]
    rfl

end

/-- Whatever is written on the left of an assignment is read as its target. -/
theorem Builder.assign_read {op : Operator} (hop : op.isAssignment = true) {x y : Tree LeafText} (hx : x.Writable)
    (hy : y.Writable) {tokens : Array Token}
    (htokens : tokens.toList.map Token.lexeme = x.operand ++ op.lexeme :: y.operand) :
    ∃ place target value, Node.build tokens 0 tokens.size = .ok (some (.assign place op target value)) ∧
      Same tokens x target ∧ Same tokens y value := by
  have spelled := Spelled.whole tokens
  rw [htokens, ← Tree.lexemes_assign (p := default)] at spelled
  have length := spelled.length
  have writable : Tree.Writable (.assign default op x y) := .assign hop hx hy
  obtain ⟨node, hnode, hsame⟩ := enclosed_rebuilt writable (rebuilt writable) spelled
    (show _ ≤ 8 * tokens.size + 8 by omega)
  have built : Node.build tokens 0 tokens.size = .ok (some node) := by
    unfold Node.build
    simpa using hnode
  cases node <;> simp only [Same, Tree.mapLeaves, Tree.unplaced, Tree.assign.injEq, reduceCtorEq] at hsame
  case assign place op' target value =>
    obtain ⟨-, rfl, htarget, hvalue⟩ := hsame
    exact ⟨place, target, value, built, htarget, hvalue⟩

/-! ### What is refused -/

/-- No target of an assignment is refused.  Whatever stands on its left is read as the target, and an assignment
reports what its operands report and no more.  Where these report nothing, the target ends as its tree tells and the
instruction of the assignment is put behind that end or in its place, so that one with an equals sign stores into what
the end would have loaded; only of what can be stored into is it sure that the end loads something of the kind. -/
theorem Leaf.target_unchecked (access : Access) (p : Place) {op : Operator} (hop : op.isAssignment = true)
    (target value : Tree Leaf) {s : GenState} (hs : SteadyState s) :
    (∀ {x y : Tree LeafText} {tokens : Array Token}, x.Writable → y.Writable →
      tokens.toList.map Token.lexeme = x.operand ++ op.lexeme :: y.operand →
      ∃ place left right, Node.build tokens 0 tokens.size = .ok (some (.assign place op left right)) ∧
        Builder.Same tokens x left ∧ Builder.Same tokens y right) ∧
    (after (Leaf.genTree access (.assign p op target value)) s).reports =
      (Leaf.afterOperands access p target value s).reports ∧
    ((Leaf.afterOperands access p target value s).errors = s.errors →
      ∃ x, (Leaf.afterOperands access p target value s).code.back? = some x ∧ x.op = (Leaf.treeEnding target).op ∧
        (target.isAssignable = true → x.op.loadsPlace = true) ∧
        (after (Leaf.genTree access (.assign p op target value)) s).code =
          op.assigned (Leaf.afterOperands access p target value s).buffer.line x
            (Leaf.afterOperands access p target value s).code) := by
  have reports := Leaf.reports_assign access p op target value s
  refine ⟨fun hx hy htokens => Builder.assign_read hop hx hy htokens, reports, fun silent => ?_⟩
  have errors : (after (Leaf.genTree access (.assign p op target value)) s).errors = s.errors := by
    rw [← silent]
    exact congrArg (List.countP Report.isError) reports
  have ends := ((Part.target p op target value).ends hs errors).2
  obtain ⟨x, hx, hend, -⟩ := ends.last
  refine ⟨x, hx, hend, fun h => ?_, Leaf.code_assign access p op target value hx⟩
  rw [hend]
  exact Tree.isAssignable.loadsPlace h

/-- Nothing is reported for `1 = 2`, and the number that is stored into is gone. -/
theorem Leaf.target_unchecked_number :
    let number (text : String) : Tree Leaf := .leaf ⟨0, 0, 1⟩ (.number ⟨.integer, text, 1⟩)
    let s := after (Leaf.genTree {} (.assign ⟨0, 0, 1⟩ .assign (number "1") (number "2"))) (.initial {})
    (number "1").isAssignable = false ∧ s.reports = [] ∧
      s.code = #[⟨.loadc, 0, 3, .none, 1⟩, ⟨.store, 0, 0, .none, 1⟩] ∧
      (({} : Config).compile "1 = 2;").result.toOption.map Compilation.errors = some 0 := by
  intro number s
  have steady : SteadyState (.initial {}) := ⟨filed_initial {}, (open_initial {}).jumps⟩
  have unchecked := Leaf.target_unchecked {} ⟨0, 0, 1⟩ (show Operator.isAssignment .assign = true from rfl) (number "1") (number "2") steady
  refine ⟨rfl, ?_, by decide +kernel, by decide +kernel⟩
  rw [unchecked.2.1]
  decide +kernel

end StackScript
