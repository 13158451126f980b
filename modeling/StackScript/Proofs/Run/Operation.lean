/-
Expressions are runs.

A generator is `Valued` when it is a `value` run from every state, and it `Emits` when in addition
something comes of it: an instruction or an error.  Operators that take the last instruction back are safe
behind operands that emit, which is why the difference matters: an operand never reaches back past its own
code.
-/
import StackScript.Proofs.Run

namespace StackScript

/-! ### Something came of it -/

namespace Grown

variable {s t u : GenState}

theorem errors_le (h : Frame s t) : s.errors ≤ t.errors :=
  h.reports.sublist.countP_le

theorem frame (h : Grown s t) (h' : Frame t u) : Grown s u := by
  rcases h with h | h
  · exact .inl (Nat.lt_of_lt_of_le h h'.grows)
  · exact .inr (Nat.lt_of_lt_of_le h (errors_le h'))

theorem behind (h : Frame s t) (h' : Grown t u) : Grown s u := by
  rcases h' with h' | h'
  · exact .inl (Nat.lt_of_le_of_lt h.grows h')
  · exact .inr (Nat.lt_of_le_of_lt (errors_le h) h')

theorem report (line : Nat) {problem : Problem} (hp : problem.severity = .error) :
    Grown s (Gen.after (Gen.report line problem) s) := by
  refine .inr ?_
  rw [Gen.after_report]
  simp [GenState.errors, List.countP_append, Report.isError, hp]

end Grown

theorem Run.andThen {made : List Made} {s t u : GenState} (h : Run (.value made) s t)
    (h' : Run (.value []) t u) : Run (.value made) s u := by
  have hu := h.trans h'
  rwa [List.append_nil] at hu

namespace ConstantPool

variable (p : ConstantPool)

/-- A constant is found in the slot it is said to be in. -/
theorem intern_lt (c : Constant) : (p.intern c).1 < (p.intern c).2.size := by
  unfold intern
  split
  · rename_i i hi
    exact (Array.findIdx?_eq_some_iff_getElem.mp hi).1
  · exact Nat.lt_of_lt_of_eq (Nat.lt_succ_self _) (Array.size_push _).symm

theorem push_lt (c : Constant) (isShared : Bool) : (p.push c isShared).1 < (p.push c isShared).2.size :=
  Nat.lt_of_lt_of_eq (Nat.lt_succ_self _) (Array.size_push _).symm

theorem addString_lt (text : String) : (p.addString text).1 < (p.addString text).2.size := by
  unfold addString
  split
  · exact p.intern_lt _
  · exact p.push_lt _ _

end ConstantPool

namespace Gen

variable {α β : Type}

/-- A generator that computes values and makes nothing on the side. -/
def Valued (m : Gen α) : Prop := ∀ s, Run (.value []) s (after m s)

/-- A generator of which something comes. -/
def Emits (m : Gen α) : Prop := ∀ s, Run (.value []) s (after m s) ∧ Grown s (after m s)

namespace Valued

theorem pure (a : α) : Valued (pure a) := fun s => Run.refl s

theorem bind {m : Gen α} {f : α → Gen β} (hm : Valued m) (hf : ∀ a, Valued (f a)) : Valued (m >>= f) := by
  intro s
  rw [after_bind]
  exact (hm s).trans (hf _ _)

theorem get : Valued (get : Gen GenState) := fun s => Run.refl s

theorem ite {c : Prop} [Decidable c] {m m' : Gen α} (h : c → Valued m) (h' : ¬c → Valued m') :
    Valued (if c then m else m') := by
  split
  · exact h ‹_›
  · exact h' ‹_›

end Valued

namespace Emits

theorem valued {m : Gen α} (h : Emits m) : Valued m := fun s => (h s).1

/-- What comes first is enough. -/
theorem bind {m : Gen α} {f : α → Gen β} (hm : Emits m) (hf : ∀ a, Valued (f a)) : Emits (m >>= f) := by
  intro s
  refine ⟨hm.valued.bind hf s, ?_⟩
  rw [after_bind]
  exact (hm s).2.frame (hf _ _).frame

/-- What comes last is enough. -/
theorem behind {m : Gen α} {f : α → Gen β} (hm : Valued m) (hf : ∀ a, Emits (f a)) : Emits (m >>= f) := by
  intro s
  refine ⟨hm.bind (fun a => (hf a).valued) s, ?_⟩
  rw [after_bind]
  exact (hf _ _).2.behind (hm s).frame

end Emits

/-! ### Quiet steps -/

theorem valued_of_quiet {m : Gen α} (h : ∀ s, Quiet s (after m s)) : Valued m := fun s => Run.quiet (h s)

theorem valued_report (line : Nat) (problem : Problem) : Valued (report line problem) :=
  valued_of_quiet fun _ => .report line problem

theorem valued_reportAll (rs : List Report) : Valued (reportAll rs) :=
  valued_of_quiet fun _ =>
    ⟨rfl, rfl, rfl, rfl, rfl, rfl, List.prefix_append _ _, .refl, rfl, List.prefix_rfl, List.prefix_rfl,
     List.prefix_rfl⟩

theorem valued_setLine (line : Nat) : Valued (setLine line) :=
  valued_of_quiet fun _ =>
    ⟨rfl, rfl, rfl, rfl, rfl, rfl, List.prefix_rfl, .refl, rfl, List.prefix_rfl, List.prefix_rfl, List.prefix_rfl⟩

theorem valued_markBoundary : Valued markBoundary :=
  valued_of_quiet fun _ =>
    ⟨rfl, rfl, rfl, rfl, rfl, rfl, List.prefix_rfl, .refl, rfl, List.prefix_rfl, List.prefix_rfl,
     List.prefix_append _ _⟩

theorem valued_noteNamespaces (line : Nat) : Valued (noteNamespaces line) := by
  refine Valued.get.bind fun s => Valued.ite (fun _ => ?_) fun _ => Valued.pure ()
  refine Valued.bind ?_ fun _ => valued_report line _
  exact valued_of_quiet fun _ =>
    ⟨rfl, rfl, rfl, rfl, rfl, rfl, List.prefix_rfl, .refl, rfl, List.prefix_rfl, List.prefix_rfl, List.prefix_rfl⟩

theorem emits_report (line : Nat) {problem : Problem} (hp : problem.severity = .error) :
    Emits (report line problem) := fun s => ⟨valued_report line problem s, Grown.report line hp⟩

theorem valued_reportFault (fault : Option Report) : Valued (reportFault fault) := by
  cases fault with
  | none => exact Valued.pure ()
  | some r => exact valued_report r.line r.problem

/-- Adding a constant is quiet. -/
theorem valued_intern {add : ConstantPool → Nat × ConstantPool} (h : ∀ p : ConstantPool, p.Grows (add p).2) :
    Valued (intern add) :=
  valued_of_quiet fun s => ⟨rfl, rfl, rfl, rfl, rfl, rfl, List.prefix_rfl, h s.program.constants, rfl, List.prefix_rfl,
    List.prefix_rfl, List.prefix_rfl⟩

/-! ### Single instructions -/

/-- An instruction that needs no constant and names no entry of a table. -/
theorem emits_put {op : Opcode} (hop : op.isPlain = true) (p1 : Int) (p2 : Nat) (p3 : Operand)
    (hslot : op ≠ .loadc) (hp3 : ∀ p, p3.Exists p) :
    Emits (put op p1 p2 p3) := by
  intro s
  refine ⟨Run.put s hop p1 p2 p3 (fun h => absurd h hslot) (hp3 _), .inl ?_⟩
  rw [after_put]
  simp

/-- Loading a constant that is there. -/
theorem run_load {s : GenState} {slot : Nat} (h : s.program.constants.HasSlot slot) (p1 : Int) :
    Run (.value []) s (after (put .loadc p1 slot .none) s) ∧ Grown s (after (put .loadc p1 slot .none) s) := by
  refine ⟨Run.put s rfl p1 slot .none (fun _ => h) trivial, .inl ?_⟩
  rw [after_put]
  simp

theorem emits_loadSlot {slot : Nat} (h : slot ≤ ConstantPool.falseSlot) : Emits (loadSlot slot) :=
  fun _ => run_load (.inl h) 0

theorem emits_drop : Emits drop := emits_put rfl _ _ _ (by decide) (by exact fun _ => trivial)

/-- Adding a constant and loading it. -/
theorem emits_intern {add : ConstantPool → Nat × ConstantPool} (h : ∀ p : ConstantPool, p.Grows (add p).2)
    (hslot : ∀ p : ConstantPool, (add p).1 < (add p).2.size) (p1 : Int) :
    Emits (do put .loadc p1 (← intern add) .none) := by
  intro s
  obtain ⟨load, grown⟩ := run_load (s := after (intern add) s) (.inr (hslot s.program.constants)) p1
  exact ⟨(valued_intern h s).andThen load, grown.behind (valued_intern h s).frame⟩

theorem emits_loadConstant {add : ConstantPool → Nat × ConstantPool} (h : ∀ p : ConstantPool, p.Grows (add p).2)
    (hslot : ∀ p : ConstantPool, (add p).1 < (add p).2.size) : Emits (loadConstant add) :=
  emits_intern h hslot 0

theorem emits_int (v : Int64) : Emits (loadConstant (·.addInt v)) :=
  emits_loadConstant (fun _ => ConstantPool.Grows.refl.int v) fun p => p.intern_lt _

theorem emits_real (text : List Char) : Emits (loadConstant (·.addReal (readReal text))) :=
  emits_loadConstant (fun _ => ConstantPool.Grows.refl.real text) fun p => p.intern_lt _

theorem emits_string (text : String) : Emits (string text) :=
  emits_loadConstant (fun _ => ConstantPool.Grows.refl.string text) fun p => p.addString_lt text

theorem isPlain_opcode {op : Operator} {code : Opcode} (h : op.opcode? = some code) :
    code.isPlain = true ∧ code ≠ .loadc := by
  cases op with
  | cast type =>
      cases h
      cases type <;> exact ⟨rfl, by decide⟩
  | _ => cases h <;> exact ⟨rfl, by decide⟩

/-- The instruction of an operator, if it has one. -/
theorem valued_operator (op : Operator) (p1 : Int) : Valued (operator op p1) := by
  unfold operator
  split
  · exact (emits_put (isPlain_opcode ‹_›).1 p1 0 .none (isPlain_opcode ‹_›).2 fun _ => trivial).valued
  · exact Valued.pure ()

end Gen

/-! ### Operators that change what their operand has come to -/

namespace Gen

/-- A generator that is safe behind operands of which something came, whose last instruction it may take
back. -/
def Takes (m : Gen Unit) : Prop :=
  ∀ {made : List Made} {s t : GenState}, Run (.value made) s t → Grown s t →
    Run (.value made) s (after m t) ∧ Grown s (after m t)

theorem Valued.takes {m : Gen Unit} (hm : Valued m) : Takes m :=
  fun h hg => ⟨h.andThen (hm _), hg.frame (hm _).frame⟩

theorem Emits.take {m m' : Gen Unit} (hm : Emits m) (hm' : Takes m') : Emits (do m; m') := by
  intro s
  rw [after_bind]
  exact hm' (hm s).1 (hm s).2

/-- Taking back the last instruction for another one. -/
theorem takes_rewrite {made : List Made} {s t : GenState} (h : Run (.value made) s t) (hg : Grown s t)
    {last : Instruction} (hlast : t.code.back? = some last) {op : Opcode} (hop : op.isPlain = true)
    (hslot : op ≠ .loadc) (p1 : Int) (p2 : Nat) {p3 : Operand} (hp3 : p3 = .none ∨ p3 = last.p3) :
    Run (.value made) s (after (do takeBack; put op p1 p2 p3) t) ∧
      Grown s (after (do takeBack; put op p1 p2 p3) t) := by
  rw [after_bind]
  exact ⟨h.rewrite hg hlast hop p1 p2 p3 hslot hp3, hg.frame (Frame.rewrite op p1 p2 p3)⟩

theorem takes_store : Takes store := by
  intro made s t h hg
  unfold store
  rw [after_bind, result_last?, after_last?]
  cases hlast : t.code.back? with
  | none => exact (emits_put rfl 0 0 .none (by decide) (by exact fun _ => trivial)).valued.takes h hg
  | some target =>
      dsimp only
      split
      · exact (emits_put rfl 0 1 .none (by decide) (by exact fun _ => trivial)).valued.takes h hg
      · exact takes_rewrite h hg hlast rfl (by decide) _ _ (.inl rfl)
      · exact takes_rewrite h hg hlast rfl (by decide) _ _ (.inr rfl)

theorem takes_create : Takes create := by
  intro made s t h hg
  unfold create
  rw [after_bind, result_last?, after_last?]
  cases hlast : t.code.back? with
  | none => exact (emits_put rfl 0 0 .none (by decide) (by exact fun _ => trivial)).valued.takes h hg
  | some callee =>
      dsimp only
      rw [after_bind]
      split
      · exact takes_rewrite h hg hlast rfl (by decide) _ _ (.inl rfl)
      · exact (emits_put rfl 0 0 .none (by decide) (by exact fun _ => trivial)).valued.takes h hg

theorem takes_staticMember : Takes staticMember := by
  intro made s t h hg
  unfold staticMember
  rw [after_bind, result_last?, after_last?]
  cases hlast : t.code.back? with
  | none => exact (emits_put rfl 1 0 .none (by decide) (by exact fun _ => trivial)).valued.takes h hg
  | some member =>
      dsimp only
      split
      · exact takes_rewrite h hg hlast rfl (by decide) _ _ (.inr rfl)
      · exact (emits_put rfl 1 0 .none (by decide) (by exact fun _ => trivial)).valued.takes h hg

theorem takes_markCallee : Takes markCallee := fun h hg => ⟨h.mark hg, hg.frame Frame.mark⟩

/-! ### Nodes of an expression tree -/

variable {left right value target condition yes no args callee base key operand : Gen Unit}

theorem emits_prefixed (line : Nat) (op : Operator) (h : Emits operand) : Emits (prefixed line op operand) := by
  refine Emits.behind (valued_setLine line) fun _ => h.take ?_
  split
  · exact takes_create
  · exact (valued_operator _ 1).takes
  · exact (valued_operator _ 1).takes
  · exact (valued_operator _ 0).takes

theorem emits_postfixed (line : Nat) (op : Operator) (h : Emits operand) :
    Emits (postfixed line op operand) :=
  Emits.behind (valued_setLine line) fun _ => h.take (valued_operator op 0).takes

theorem valued_shortCircuit {jump : Opcode} (hj : jump = .jmpz ∨ jump = .jmpnz) (op : Operator)
    (h : Valued right) : Valued (shortCircuit jump op right) := by
  intro s
  unfold shortCircuit
  rw [after_bind, result_emit, after_bind, after_bind]
  exact Run.skip hj ((h _).andThen (valued_operator op 0 _))

theorem emits_binary (line : Nat) (op : Operator) (hl : Emits left) (hr : Emits right) :
    Emits (binary line op left right) := by
  refine Emits.behind (valued_setLine line) fun _ => ?_
  split
  · exact hl.bind fun _ => emits_drop.valued.bind fun _ => hr.valued
  · exact hl.bind fun _ => valued_shortCircuit (.inl rfl) _ hr.valued
  · exact hl.bind fun _ => valued_shortCircuit (.inr rfl) _ hr.valued
  · exact Emits.behind hl.valued fun _ => hr.take takes_staticMember
  · exact hl.bind fun _ => hr.valued.bind fun _ => valued_operator _ 0

theorem emits_assign (line : Nat) (op : Operator) (hv : Emits value) (ht : Emits target) :
    Emits (assign line op value target) := by
  refine Emits.behind (valued_setLine line) fun _ => Emits.behind hv.valued fun _ => ht.take ?_
  split
  · exact takes_store
  · exact (valued_operator _ 0).takes

theorem emits_ternary (line : Nat) (hc : Emits condition) (hy : Emits yes) (hn : Emits no) :
    Emits (ternary line condition yes no) := by
  refine Emits.behind (valued_setLine line) fun _ => hc.bind fun _ s => ?_
  simp only [after_bind, result_emit]
  exact Run.choose (hy.valued _) (hn.valued _)

theorem emits_call (line count : Nat) (ha : Valued args) (hc : Emits callee) :
    Emits (call line count args callee) := by
  refine Emits.behind (valued_setLine line) fun _ => Emits.behind ha fun _ s => ?_
  rw [after_bind, after_bind]
  obtain ⟨h, hg⟩ := takes_markCallee (hc s).1 (hc s).2
  exact (emits_put rfl _ _ _ (by decide) (by exact fun _ => trivial)).valued.takes h hg

theorem emits_index (line : Nat) (store : Bool) (hb : Emits base) (hk : Emits key) :
    Emits (index line store base key) :=
  Emits.behind (valued_setLine line) fun _ => Emits.behind hb.valued fun _ =>
    hk.take (emits_put rfl _ _ _ (by decide) (by exact fun _ => trivial)).valued.takes

theorem emits_append (line : Nat) (store : Bool) (hb : Emits base) : Emits (append line store base) :=
  Emits.behind (valued_setLine line) fun _ => hb.take (emits_put rfl _ _ _ (by decide) (by exact fun _ => trivial)).valued.takes

end Gen

end StackScript
