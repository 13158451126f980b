/-
What expressions leave on the stack.

`Turns` follows the stack through a generator: started behind code that has left so many values, it ends
behind code that has left so many.  A generator of a value turns none into one, an operator two into one, and
so on, so that the operands of a construct are counted by chaining.  Errors are excluded, because after one
an operand may be missing.

Operators that take back the last instruction need to know which one it is.  `Ends` describes generators of
one value by their last instruction.
-/
import StackScript.Proofs.Checks
import StackScript.Proofs.Run.Script
import StackScript.Proofs.Stack.Depth
import StackScript.Proofs.Tables

namespace StackScript

/-- The containers that were filled so far are disciplined. -/
def GenState.Orderly (F : List SwitchTable) (s : GenState) : Prop := ∀ r ∈ s.filled, r.IsDisciplined F

/-- Code that leaves `n` values has been added, and nothing else matters. -/
structure Raised (F : List SwitchTable) (n : Nat) (s t : GenState) : Prop where
  root : 0 < s.blocks.blocks.size
  lifts : Lifts s.code t.code n
  blocks : t.blocks = s.blocks
  boundaries : t.boundaries = s.boundaries
  orderly : s.Orderly F → t.Orderly F

namespace Raised

variable {F : List SwitchTable} {n m : Nat} {s t u : GenState}

theorem refl (F : List SwitchTable) (hs : 0 < s.blocks.blocks.size) : Raised F 0 s s :=
  ⟨hs, Lifts.refl _, rfl, rfl, id⟩

/-- The root is still there. -/
theorem base (h : Raised F n s t) : 0 < t.blocks.blocks.size := by
  rw [h.blocks]
  exact h.root

theorem trans (h : Raised F n s t) (h' : Raised F m t u) : Raised F (n + m) s u :=
  ⟨h.root, h.lifts.trans h'.lifts, h'.blocks.trans h.blocks, h'.boundaries.trans h.boundaries,
    h'.orderly ∘ h.orderly⟩

/-- Only the code, the blocks and the records matter. -/
theorem congr (h : Raised F n s t) (hc : u.code = t.code) (hb : u.blocks = t.blocks)
    (hm : u.boundaries = t.boundaries) (hf : u.filled = t.filled) : Raised F n s u where
  root := h.root
  lifts := by
    rw [hc]
    exact h.lifts
  blocks := hb.trans h.blocks
  boundaries := hm.trans h.boundaries
  orderly := fun hs r hr => h.orderly hs r (hf ▸ hr)

/-- An instruction that only works on the stack, with enough to take. -/
theorem put (h : Raised F n s t) {op : Opcode} (hop : op.isPlain = true) (p1 : Int) (p2 : Nat) (p3 : Operand)
    (henough : (Instruction.mk op p1 p2 p3 0).takes ≤ n) (hm : (Instruction.mk op p1 p2 p3 0).pass n = m) :
    Raised F m s (Gen.after (Gen.put op p1 p2 p3) t) := by
  rw [← hm]
  exact ⟨h.root, h.lifts.push hop henough, h.blocks, h.boundaries, h.orderly⟩

end Raised

namespace Gen

variable {F : List SwitchTable} {α β : Type} {n k l : Nat}

/-- What every generator does. -/
def Goes (m : Gen α) : Prop := ∀ s, Frame s (after m s) ∧ Keeps s (after m s)

theorem Valued.goes {m : Gen α} (h : Valued m) : Goes m := fun s => ⟨(h s).frame, (h s).keeps⟩

theorem Flows.goes {m : Gen α} (h : Flows m) : Goes m := fun s => ⟨(h s).frame, (h s).keeps⟩

theorem Goes.bind {m : Gen α} {f : α → Gen β} (hm : Goes m) (hf : ∀ a, Goes (f a)) : Goes (m >>= f) := by
  intro s
  rw [after_bind]
  exact ⟨(hm s).1.trans (hf _ _).1, (hm s).2.trans (hf _ _).2⟩

variable (F) in
/-- Behind code that leaves `n` values, a generator ends behind code that leaves `k`. -/
structure Turns (n k : Nat) (m : Gen α) : Prop where
  goes : Goes m
  turned : ∀ {s t : GenState}, Raised F n s t → (after m t).errors = 0 → Agrees F t (after m t) →
    Raised F k s (after m t)

namespace Turns

theorem bind {m : Gen α} {f : α → Gen β} (hm : Turns F n k m) (hf : ∀ a, Turns F k l (f a)) :
    Turns F n l (m >>= f) where
  goes := hm.goes.bind fun a => (hf a).goes
  turned := by
    intro s t h he ha
    rw [after_bind] at he ha ⊢
    have rest := (hf (result m t)).goes (after m t)
    have first := hm.turned h (GenState.errors_mono rest.1 he) (ha.front rest.2)
    exact (hf _).turned first he (ha.back (hm.goes t).2)

theorem pure (a : α) : Turns F n n (pure a : Gen α) := ⟨(Valued.pure a).goes, fun h _ _ => h⟩

theorem get : Turns F n n (get : Gen GenState) := ⟨Valued.get.goes, fun h _ _ => h⟩

theorem ite {c : Prop} [Decidable c] {m m' : Gen α} (h : c → Turns F n k m) (h' : ¬c → Turns F n k m') :
    Turns F n k (if c then m else m') := by
  split
  · exact h ‹_›
  · exact h' ‹_›

/-- It is enough to start behind code that leaves nothing. -/
theorem of {m : Gen α} (hg : Goes m) (h : ∀ s, 0 < s.blocks.blocks.size → (after m s).errors = 0 →
    Agrees F s (after m s) → Raised F n s (after m s)) : Turns F 0 n m where
  goes := hg
  turned := by
    intro s t hst he ha
    have all := hst.trans (h t hst.base he ha)
    rwa [Nat.zero_add] at all

theorem raised {m : Gen α} (h : Turns F 0 n m) {s : GenState} (hs : 0 < s.blocks.blocks.size)
    (he : (after m s).errors = 0) (ha : Agrees F s (after m s)) : Raised F n s (after m s) :=
  h.turned (.refl F hs) he ha

/-- What lies below does not matter. -/
theorem above {m : Gen α} (h : Turns F 0 n m) (k : Nat) : Turns F k (k + n) m where
  goes := h.goes
  turned := fun hk he ha => hk.trans (h.raised hk.base he ha)

end Turns

/-- A generator that adds no instruction. -/
theorem turns_still {m : Gen α} (h : Valued m) (hc : ∀ s, (after m s).code = s.code)
    (hm : ∀ s, (after m s).boundaries = s.boundaries)
    (hb : ∀ s, (after m s).blocks = s.blocks)
    (hf : ∀ s, (after m s).filled = s.filled) : Turns F n n m :=
  ⟨h.goes, fun h _ _ => h.congr (hc _) (hb _) (hm _) (hf _)⟩

theorem turns_report (line : Nat) (problem : Problem) : Turns F n n (report line problem) :=
  turns_still (valued_report line problem) (fun _ => rfl) (fun _ => rfl) (fun _ => rfl) fun _ => rfl

/-- There is nothing to show behind an error. -/
theorem turns_error (line : Nat) {problem : Problem} (h : problem.severity = .error) :
    Turns F n k (report line problem) where
  goes := (valued_report line problem).goes
  turned := by
    intro s t _ he _
    rcases Grown.report (s := t) line h with hlt | hlt
    · exact absurd hlt (Nat.lt_irrefl _)
    · omega

theorem turns_reportAll (rs : List Report) : Turns F n n (reportAll rs) :=
  turns_still (valued_reportAll rs) (fun _ => rfl) (fun _ => rfl) (fun _ => rfl) fun _ => rfl

theorem turns_reportFault (fault : Option Report) : Turns F n n (reportFault fault) := by
  cases fault with
  | none => exact .pure ()
  | some r => exact turns_report r.line r.problem

theorem turns_setLine (line : Nat) : Turns F n n (setLine line) := turns_still (valued_setLine line) (fun _ => rfl) (fun _ => rfl) (fun _ => rfl) fun _ => rfl

theorem turns_noteNamespaces (line : Nat) : Turns F n n (noteNamespaces line) := by
  have note : Valued (modify fun s : GenState => { s with namespaceNoted := true }) :=
    valued_of_quiet fun _ => ⟨rfl, rfl, rfl, rfl, rfl, rfl, List.prefix_rfl, .refl, rfl, List.prefix_rfl, List.prefix_rfl,
      List.prefix_rfl⟩
  refine Turns.get.bind fun s => Turns.ite (fun _ => ?_) fun _ => Turns.pure ()
  exact (turns_still note (fun _ => rfl) (fun _ => rfl) (fun _ => rfl) fun _ => rfl).bind fun _ => turns_report line _

/-- Adding a constant adds no instruction. -/
theorem turns_intern (add : ConstantPool → Nat × ConstantPool) : Turns F n n (intern add) where
  goes := fun _ => ⟨Frame.same rfl (Nat.le_refl _) rfl rfl, .same rfl rfl rfl⟩
  turned := fun h _ _ => h.congr rfl rfl rfl rfl

/-! ### Single instructions -/

theorem goes_put (op : Opcode) (p1 : Int) (p2 : Nat) (p3 : Operand) : Goes (put op p1 p2 p3) :=
  fun _ => ⟨Frame.put op p1 p2 p3, .same rfl rfl rfl⟩

theorem turns_put {op : Opcode} (hop : op.isPlain = true) (p1 : Int) (p2 : Nat) (p3 : Operand)
    (henough : (Instruction.mk op p1 p2 p3 0).takes ≤ n) (hk : (Instruction.mk op p1 p2 p3 0).pass n = k) :
    Turns F n k (put op p1 p2 p3) :=
  ⟨goes_put op p1 p2 p3, fun h _ _ => h.put hop p1 p2 p3 henough hk⟩

theorem turns_loadSlot (slot : Nat) : Turns F n (n + 1) (loadSlot slot) :=
  turns_put rfl 0 slot .none (Nat.zero_le _) rfl

theorem turns_loadConstant (add : ConstantPool → Nat × ConstantPool) : Turns F n (n + 1) (loadConstant add) :=
  (turns_intern add).bind fun slot => turns_loadSlot slot

theorem turns_string (text : String) : Turns F n (n + 1) (string text) := turns_loadConstant _

theorem turns_drop : Turns F (n + 1) n drop := turns_put rfl 1 0 .none (Nat.le_add_left 1 n) rfl

/-! ### Values known by their last instruction -/

variable (F) in
/-- A generator of one value whose last instruction makes it, with one of some operations. -/
structure Ends (ops : List Opcode) (m : Gen α) : Prop where
  goes : Goes m
  ended : ∀ s, 0 < s.blocks.blocks.size → (after m s).errors = 0 → Agrees F s (after m s) →
    ∃ (t : GenState) (x : Instruction), x.op ∈ ops ∧ x.op.isPlain = true ∧ x.leaves = 1 ∧
      after m s = after (put x.op x.p1 x.p2 x.p3) t ∧ Raised F x.takes s t

namespace Ends

variable {ops : List Opcode}

/-- Such a generator leaves one value. -/
theorem turns {m : Gen α} (h : Ends F ops m) : Turns F 0 1 m where
  goes := h.goes
  turned := by
    intro s t hst he ha
    obtain ⟨u, x, -, hop, hleaves, heq, hu⟩ := h.ended t hst.base he ha
    have all := hst.trans hu
    rw [Nat.zero_add] at all
    rw [heq]
    refine all.put hop x.p1 x.p2 x.p3 (Nat.le_refl x.takes) ?_
    calc x.pass x.takes = 0 + x.leaves := by rw [Instruction.pass, Nat.sub_self]
      _ = 1 := by rw [hleaves]

/-- What comes in front leaves nothing. -/
theorem behind {m : Gen α} {f : α → Gen β} (hm : Turns F 0 0 m) (hf : ∀ a, Ends F ops (f a)) :
    Ends F ops (m >>= f) where
  goes := hm.goes.bind fun a => (hf a).goes
  ended := by
    intro s hs he ha
    rw [after_bind] at he ha ⊢
    have rest := (hf (result m s)).goes (after m s)
    have first := hm.raised hs (GenState.errors_mono rest.1 he) (ha.front rest.2)
    obtain ⟨t, x, hmem, hop, hleaves, heq, ht⟩ := (hf _).ended _ first.base he (ha.back (hm.goes s).2)
    have all := first.trans ht
    rw [Nat.zero_add] at all
    exact ⟨t, x, hmem, hop, hleaves, heq, all⟩

/-- The last instruction behind what it takes. -/
theorem put {m : Gen α} (x : Instruction) (hm : Turns F 0 x.takes m) (hmem : x.op ∈ ops)
    (hop : x.op.isPlain = true) (hleaves : x.leaves = 1) :
    Ends F ops (m >>= fun _ => put x.op x.p1 x.p2 x.p3) where
  goes := hm.goes.bind fun _ => goes_put _ _ _ _
  ended := by
    intro s hs he ha
    rw [after_bind] at he ha ⊢
    have rest := goes_put x.op x.p1 x.p2 x.p3 (after m s)
    exact ⟨after m s, x, hmem, hop, hleaves, rfl, hm.raised hs he (ha.front rest.2)⟩

theorem mono {ops' : List Opcode} {m : Gen α} (h : Ends F ops m) (hsub : ops ⊆ ops') : Ends F ops' m where
  goes := h.goes
  ended := by
    intro s hs he ha
    obtain ⟨t, x, hmem, rest⟩ := h.ended s hs he ha
    exact ⟨t, x, hsub hmem, rest⟩

end Ends

/-- The state in front of the last instruction. -/
theorem after_takeBack_put (op : Opcode) (p1 : Int) (p2 : Nat) (p3 : Operand) (t : GenState) :
    after takeBack (after (put op p1 p2 p3) t) = t := by
  rw [after_takeBack, after_put]
  simp

theorem result_last?_put (op : Opcode) (p1 : Int) (p2 : Nat) (p3 : Operand) (t : GenState) :
    result last? (after (put op p1 p2 p3) t) = some ⟨op, p1, p2, p3, t.buffer.line⟩ := by
  rw [result_last?, after_put]
  simp

/-- Taking back the last instruction for another one. -/
theorem goes_rewrite (op : Opcode) (p1 : Int) (p2 : Nat) (p3 : Operand) : Goes (do takeBack; put op p1 p2 p3) := by
  intro s
  rw [after_bind]
  exact ⟨Frame.rewrite op p1 p2 p3, .same rfl rfl rfl⟩

theorem goes_store : Goes store := by
  intro s
  unfold store
  rw [after_bind, result_last?, after_last?]
  cases s.code.back? with
  | none => exact goes_put .store 0 0 .none s
  | some x =>
      dsimp only
      split
      · exact goes_put .store 0 1 .none s
      · exact goes_rewrite _ _ _ _ s
      · exact goes_rewrite _ _ _ _ s

theorem goes_create : Goes create := by
  intro s
  unfold create
  rw [after_bind, result_last?, after_last?]
  cases s.code.back? with
  | none => exact goes_put .new 0 0 .none s
  | some x =>
      dsimp only
      rw [after_bind]
      split
      · exact goes_rewrite _ _ _ _ s
      · exact goes_put .new 0 0 .none s

theorem goes_staticMember : Goes staticMember := by
  intro s
  unfold staticMember
  rw [after_bind, result_last?, after_last?]
  cases s.code.back? with
  | none => exact goes_put .member 1 0 .none s
  | some x =>
      dsimp only
      split
      · exact goes_rewrite _ _ _ _ s
      · exact goes_put .member 1 0 .none s

/-! ### Operators that take an instruction back -/

/-- What can be stored into: a variable, an entry or a member. -/
abbrev storable : List Opcode := [.load, .loadIdx, .member]

/-- An assignment takes the value and what its target needs. -/
theorem turns_store {target : Gen Unit} (h : Ends F storable target) : Turns F 1 1 (do target; store) where
  goes := h.goes.bind fun _ => goes_store
  turned := by
    intro s t hst he ha
    rw [after_bind] at he ha ⊢
    have rest := goes_store (after target t)
    obtain ⟨u, x, hmem, hop, -, heq, hu⟩ := h.ended t hst.base (GenState.errors_mono rest.1 he) (ha.front rest.2)
    have all := hst.trans hu
    rw [heq]
    unfold store
    rw [after_bind, result_last?_put, after_last?]
    obtain ⟨op, p1, p2, p3, line⟩ := x
    simp only [List.mem_cons, List.not_mem_nil, or_false] at hmem
    rcases hmem with rfl | rfl | rfl
    · -- A variable by its name, or by the name on the stack.
      dsimp only
      rw [after_bind, after_takeBack_put]
      refine all.put rfl 0 0 p3 ?_ ?_ <;> simp only [Instruction.takes, Instruction.pass, Instruction.leaves] <;>
        split <;> omega
    · dsimp only
      rw [after_bind, after_takeBack_put]
      refine all.put rfl p1 0 .none ?_ ?_ <;> simp only [Instruction.takes, Instruction.pass, Instruction.leaves] <;>
        split <;> omega
    · -- A member stays where it is.
      dsimp only
      have pushed : Raised F 2 s (after (put .member p1 p2 p3) u) := by
        refine all.put hop p1 p2 p3 (Nat.le_add_left _ _) ?_
        simp only [Instruction.takes, Instruction.pass, Instruction.leaves]
        split <;> omega
      exact pushed.put rfl 0 1 .none (Nat.le_refl 2) rfl

/-- An object is created from what would have been called. -/
theorem turns_create {operand : Gen Unit} (h : Turns F 0 1 operand) : Turns F 0 1 (do operand; create) := by
  refine .of (h.goes.bind fun _ => goes_create) fun s hs he ha => ?_
  rw [after_bind] at he ha ⊢
  have rest := goes_create (after operand s)
  have made := h.raised hs (GenState.errors_mono rest.1 he) (ha.front rest.2)
  have direct : Raised F 1 s (after (put .new 0 0 .none) (after operand s)) :=
    made.put rfl 0 0 .none (Nat.le_refl _) rfl
  unfold create
  rw [after_bind, result_last?, after_last?]
  cases hlast : (after operand s).code.back? with
  | none => exact direct
  | some callee =>
      dsimp only
      rw [after_bind]
      split
      · rename_i hcall
        rw [Bool.and_eq_true, beq_iff_eq] at hcall
        have hop := hcall.1
        have alike : callee.Interchanges ⟨.new, callee.p1, 0, .none, (after operand s).buffer.line⟩ := by
          refine ⟨?_, ?_, ?_, fun _ => rfl, fun hplain => ?_⟩
          · simp [Instruction.takes, hop]
          · simp [Instruction.leaves, hop]
          · rw [hop]
            rfl
          · rw [hop] at hplain
            cases hplain
        exact ⟨hs, made.lifts.replaceLast (made.lifts.size_lt Nat.one_pos) hlast alike, made.blocks, made.boundaries,
          made.orderly⟩
      · exact direct

/-- What may name a member of a class: a name or a variable. -/
abbrev naming : List Opcode := [.load, .loadc]

/-- A member of a class takes the class and what the name of the member needs. -/
theorem ends_staticMember {left right : Gen Unit} (hl : Turns F 0 1 left) (hr : Ends F naming right) :
    Ends F [.member] (do left; right; staticMember) where
  goes := hl.goes.bind fun _ => hr.goes.bind fun _ => goes_staticMember
  ended := by
    intro s hs he ha
    rw [after_bind, after_bind] at he ha ⊢
    have last := goes_staticMember (after right (after left s))
    have he' := GenState.errors_mono last.1 he
    have ha' := ha.front last.2
    have rest := hr.goes (after left s)
    have hleft := hl.raised hs (GenState.errors_mono rest.1 he') (ha'.front rest.2)
    obtain ⟨u, x, hmem, hop, hleaves, heq, hu⟩ := hr.ended _ hleft.base he' (ha'.back (hl.goes s).2)
    have all := hleft.trans hu
    rw [heq]
    unfold staticMember
    rw [after_bind, result_last?_put, after_last?]
    obtain ⟨op, p1, p2, p3, line⟩ := x
    simp only [List.mem_cons, List.not_mem_nil, or_false] at hmem
    rcases hmem with rfl | rfl
    · dsimp only
      rw [if_pos (show (Opcode.load == Opcode.load) = true from rfl), after_bind, after_takeBack_put]
      refine ⟨u, ⟨.member, 1, 0, p3, 0⟩, List.mem_singleton_self _, rfl, rfl, rfl, ?_⟩
      have hk : (Instruction.mk .member 1 0 p3 0).takes = 1 + (Instruction.mk .load p1 p2 p3 line).takes := by
        simp only [Instruction.takes]
        split <;> rfl
      rw [hk]
      exact all
    · dsimp only
      rw [if_neg (by decide)]
      refine ⟨after (put .loadc p1 p2 p3) u, ⟨.member, 1, 0, .none, 0⟩, List.mem_singleton_self _, rfl, rfl, rfl, ?_⟩
      exact all.put hop p1 p2 p3 (Nat.zero_le _) rfl

/-- Marking what is called makes no difference to the stack. -/
theorem turns_markCallee {callee : Gen Unit} (h : Turns F 0 1 callee) : Turns F 0 1 (do callee; markCallee) := by
  have mark : Goes markCallee := fun _ => ⟨Frame.mark, .same rfl rfl rfl⟩
  refine .of (h.goes.bind fun _ => mark) fun s hs he ha => ?_
  rw [after_bind] at he ha ⊢
  have rest := mark (after callee s)
  have made := h.raised hs (GenState.errors_mono rest.1 he) (ha.front rest.2)
  refine ⟨hs, ?_, made.blocks, made.boundaries, made.orderly⟩
  unfold markCallee
  rw [after_modifyLast]
  dsimp only [GenState.code]
  refine made.lifts.modifyLast (made.lifts.size_lt Nat.one_pos) _ fun x => ?_
  obtain ⟨op, p1, p2, p3, line⟩ := x
  dsimp only
  split <;> exact ⟨rfl, rfl, rfl, id, fun h => by first | rfl | cases h⟩

/-! ### Nodes of an expression tree -/

variable {left right value target condition yes no args callee base key operand : Gen Unit}

/-- The instruction of an operator. -/
theorem turns_opcode {op : Operator} {code : Opcode} (h : op.opcode? = some code) (p1 : Int)
    (hop : code.isPlain = true) (henough : (Instruction.mk code p1 0 .none 0).takes ≤ n)
    (hk : (Instruction.mk code p1 0 .none 0).pass n = k) : Turns F n k (operator op p1) := by
  unfold operator
  rw [h]
  exact turns_put hop p1 0 .none henough hk

/-- An operator that makes one value of two. -/
theorem turns_between {op : Operator} (h : op.isBetween = true ∨ op.isAssignment = true) (hop : op ≠ .comma) :
    Turns F 2 1 (operator op 0) := by
  have hcode : ∃ code, op.opcode? = some code ∧ code.isPlain = true ∧ (Instruction.mk code 0 0 .none 0).takes = 2 ∧
      (Instruction.mk code 0 0 .none 0).leaves = 1 := by
    cases op <;> first
      | exact ⟨_, rfl, rfl, rfl, rfl⟩
      | exact absurd rfl hop
      | (rcases h with h | h <;> cases h)
  obtain ⟨code, hcode, hplain, htakes, hleaves⟩ := hcode
  refine turns_opcode hcode 0 hplain (Nat.le_of_eq htakes) ?_
  rw [Instruction.pass, htakes, hleaves]

/-- An operator that makes one value of another. -/
theorem turns_alone {op : Operator} (h : op.prefixPower?.isSome = true) (hop : op ≠ .new) (p1 : Int) :
    Turns F 1 1 (operator op p1) := by
  have hcode : ∃ code, op.opcode? = some code ∧ code.isPlain = true ∧ (Instruction.mk code p1 0 .none 0).takes = 1 ∧
      (Instruction.mk code p1 0 .none 0).leaves = 1 := by
    cases op with
    | cast type => cases type <;> exact ⟨_, rfl, rfl, rfl, rfl⟩
    | new => exact absurd rfl hop
    | _ => first
      | exact ⟨_, rfl, rfl, rfl, rfl⟩
      | cases h
  obtain ⟨code, hcode, hplain, htakes, hleaves⟩ := hcode
  refine turns_opcode hcode p1 hplain (Nat.le_of_eq htakes) ?_
  rw [Instruction.pass, htakes, hleaves]

theorem turns_prefixed (line : Nat) {op : Operator} (h : op.prefixPower?.isSome = true) (hx : Turns F 0 1 operand) :
    Turns F 0 1 (prefixed line op operand) := by
  refine (turns_setLine line).bind fun _ => ?_
  split
  · exact turns_create hx
  · exact hx.bind fun _ => turns_alone h (by decide) 1
  · exact hx.bind fun _ => turns_alone h (by decide) 1
  · rename_i hnew _ _
    exact hx.bind fun _ => turns_alone h hnew 0

theorem turns_postfixed (line : Nat) {op : Operator} (h : op.isBehind = true) (hx : Turns F 0 1 operand) :
    Turns F 0 1 (postfixed line op operand) := by
  refine (turns_setLine line).bind fun _ => hx.bind fun _ => ?_
  cases op with
  | incr => exact turns_opcode (show Operator.opcode? .incr = some .incr from rfl) 0 rfl (Nat.le_refl 1) rfl
  | decr => exact turns_opcode (show Operator.opcode? .decr = some .decr from rfl) 0 rfl (Nat.le_refl 1) rfl
  | _ => cases h

theorem goes_emit (op : Opcode) (p1 : Int) (p2 : Nat) (p3 : Operand) : Goes (emit op p1 p2 p3) :=
  goes_put op p1 p2 p3

theorem goes_landHere (i : Nat) : Goes (landHere i) :=
  fun _ => ⟨.landHere i, .same rfl rfl rfl⟩

/-- A value that may decide, and the operand that is skipped where it does. -/
theorem turns_shortCircuit {jump : Opcode} (hj : jump = .jmpz ∨ jump = .jmpnz) {op : Operator}
    (hop : op = .logAnd ∨ op = .logOr) (hl : Turns F 0 1 left) (hr : Turns F 0 1 right) :
    Turns F 0 1 (do left; shortCircuit jump op right) := by
  have operator : Goes (operator op 0) := (valued_operator op 0).goes
  have circuit : Goes (shortCircuit jump op right) :=
    (goes_emit jump 1 0 .none).bind fun _ => hr.goes.bind fun _ => operator.bind fun _ => goes_landHere _
  refine .of (hl.goes.bind fun _ => circuit) fun s hs he ha => ?_
  have behind := circuit (after left s)
  rw [after_bind] at he ha
  have first := hl.raised hs (GenState.errors_mono behind.1 he) (ha.front behind.2)
  have ha := ha.back (hl.goes s).2
  rw [after_bind]
  generalize after left s = t at first he ha ⊢
  unfold shortCircuit at he ha ⊢
  simp only [after_bind, result_emit] at he ha ⊢
  have last : Goes (do Gen.operator op 0; landHere t.code.size) := operator.bind fun _ => goes_landHere _
  have second := hr.raised (s := after (emit jump 1 0 .none) t) first.base (GenState.errors_mono (last _).1 he)
    ((ha.front (last _).2).back (goes_emit jump 1 0 .none t).2)
  rcases hop with rfl | rfl <;>
    exact ⟨hs, first.lifts.decide hj Int.one_ne_zero second.lifts rfl rfl rfl, second.blocks.trans first.blocks,
      second.boundaries.trans first.boundaries, second.orderly ∘ first.orderly⟩

/-- A value that decides, and the two operands of which one is skipped. -/
theorem turns_ternary (line : Nat) (hc : Turns F 0 1 condition) (hy : Turns F 0 1 yes) (hn : Turns F 0 1 no) :
    Turns F 0 1 (ternary line condition yes no) := by
  have choice : Goes (do
      let skip ← emit .jmpz 0 0 .none
      yes
      let out ← emit .jmp 0 0 .none
      landHere skip
      no
      landHere out) :=
    (goes_emit _ _ _ _).bind fun _ => hy.goes.bind fun _ => (goes_emit _ _ _ _).bind fun _ =>
      (goes_landHere _).bind fun _ => hn.goes.bind fun _ => goes_landHere _
  refine (turns_setLine line).bind fun _ => .of (hc.goes.bind fun _ => choice) fun s hs he ha => ?_
  have behind := choice (after condition s)
  rw [after_bind] at he ha
  have first := hc.raised hs (GenState.errors_mono behind.1 he) (ha.front behind.2)
  have ha := ha.back (hc.goes s).2
  rw [after_bind]
  generalize after condition s = t at first he ha ⊢
  simp only [after_bind, result_emit] at he ha ⊢
  -- The jumps between the operands count for nothing here.
  have rest := hn.goes (after (landHere t.code.size) (after (emit .jmp 0 0 .none)
    (after yes (after (emit .jmpz 0 0 .none) t))))
  have he' := GenState.errors_mono rest.1 he
  have ha' : Agrees F (after (emit .jmpz 0 0 .none) t) (after no (after (landHere t.code.size)
    (after (emit .jmp 0 0 .none) (after yes (after (emit .jmpz 0 0 .none) t))))) := ha
  have front := ha'.front rest.2
  have back := ha'.back (hy.goes (after (emit .jmpz 0 0 .none) t)).2
  have second := hy.raised (s := after (emit .jmpz 0 0 .none) t) first.base he' front
  have third := hn.raised (s := after (landHere t.code.size) (after (emit .jmp 0 0 .none)
    (after yes (after (emit .jmpz 0 0 .none) t)))) second.base he back
  refine ⟨hs, first.lifts.choose rfl rfl second.lifts rfl third.lifts, ?_, ?_, ?_⟩
  · exact third.blocks.trans (second.blocks.trans first.blocks)
  · exact third.boundaries.trans (second.boundaries.trans first.boundaries)
  · exact third.orderly ∘ second.orderly ∘ first.orderly

theorem turns_binary (line : Nat) {op : Operator} (h : op.isBetween = true) (hl : Turns F 0 1 left)
    (hr : Turns F 0 1 right) (hnaming : op = .doubleColon → Ends F naming right) :
    Turns F 0 1 (binary line op left right) := by
  refine (turns_setLine line).bind fun _ => ?_
  split
  · exact hl.bind fun _ => turns_drop.bind fun _ => hr
  · exact turns_shortCircuit (.inl rfl) (.inl rfl) hl hr
  · exact turns_shortCircuit (.inr rfl) (.inr rfl) hl hr
  · exact (ends_staticMember hl (hnaming rfl)).turns
  · rename_i hcomma _ _ _
    exact hl.bind fun _ => (hr.above 1).bind fun _ => turns_between (.inl h) hcomma

/-- A member, of an object or a class, is made by the last instruction. -/
theorem ends_member (line : Nat) {op : Operator} (hop : op = .arrow ∨ op = .doubleColon) (hl : Turns F 0 1 left)
    (hr : Turns F 0 1 right) (hnaming : op = .doubleColon → Ends F naming right) :
    Ends F [.member] (binary line op left right) := by
  refine Ends.behind (turns_setLine line) fun _ => ?_
  rcases hop with rfl | rfl
  · exact Ends.put ⟨.member, 0, 0, .none, 0⟩ (hl.bind fun _ => hr.above 1) (List.mem_singleton_self _) rfl rfl
  · exact ends_staticMember hl (hnaming rfl)

theorem turns_assign (line : Nat) {op : Operator} (h : op.isAssignment = true) (hv : Turns F 0 1 value)
    (ht : Turns F 0 1 target) (hstore : op = .assign → Ends F storable target) :
    Turns F 0 1 (assign line op value target) := by
  refine (turns_setLine line).bind fun _ => hv.bind fun _ => ?_
  split
  · exact turns_store (hstore rfl)
  · refine (ht.above 1).bind fun _ => turns_between (.inr h) ?_
    rintro rfl
    cases h

theorem turns_call (line count : Nat) (ha : Turns F 0 count args) (hc : Turns F 0 1 callee) :
    Turns F 0 1 (call line count args callee) := by
  refine (turns_setLine line).bind fun _ => ha.bind fun _ => ?_
  refine ((turns_markCallee hc).above count).bind fun _ => turns_put rfl _ _ _ ?_ ?_
  · simp [Instruction.takes]
  · simp [Instruction.pass, Instruction.takes, Instruction.leaves]

theorem ends_index (line : Nat) (store : Bool) (hb : Turns F 0 1 base) (hk : Turns F 0 1 key) :
    Ends F [.loadIdx] (index line store base key) :=
  Ends.behind (turns_setLine line) fun _ =>
    Ends.put ⟨.loadIdx, 1, if store then 1 else 0, .none, 0⟩ (hb.bind fun _ => hk.above 1) (List.mem_singleton_self _) rfl rfl

theorem ends_append (line : Nat) (store : Bool) (hb : Turns F 0 1 base) :
    Ends F [.loadIdx] (append line store base) :=
  Ends.behind (turns_setLine line) fun _ =>
    Ends.put ⟨.loadIdx, 0, if store then 1 else 0, .none, 0⟩ hb (List.mem_singleton_self _) rfl rfl

end Gen

end StackScript
