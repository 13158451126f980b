/-
The stack while a container is being filled.

Depths are given to the instructions in the order in which they are added.  A jump may be added long before
its target is known, and until then it points to the start of the container.  That does no harm, because
every jump that waits leaves nothing on the stack, just as nothing is there at the start.  `Poised` keeps what
is known about a state in the middle of statements: the depths agree as far as the code goes, and the stack is
empty wherever a jump is still to land.
-/
import StackScript.Proofs.Kept
import StackScript.Proofs.Stack.Value

namespace StackScript

open Gen

/-- An index of the code, or the one behind it, at which the stack is empty. -/
structure Clear (depth : Nat → Nat) (size i : Nat) : Prop where
  inside : i ≤ size
  empty : depth i = 0

/-- A jump behind which the stack is empty. -/
structure Idle (depth : Nat → Nat) (code : Code) (i : Nat) : Prop where
  jump : ∃ x : Instruction, code[i]? = some x ∧ x.op.isJump = true ∧ x.pass (depth i) = 0

/-- The depths agree around an instruction of code that is still growing.  The tables of some switches are
pending. -/
structure Instruction.Rests (F : List SwitchTable) (pending : List Nat) (depth : Nat → Nat) (size i : Nat)
    (x : Instruction) : Prop where
  enough : x.takes ≤ depth i
  next : x.op.falls = true → depth (i + 1) = x.pass (depth i)
  jump : x.op.isJump = true → x.p2 ≤ size ∧ depth x.p2 = x.pass (depth i)
  table : ∀ id, x.op = .switch → x.p3 = .switch id → x.pass (depth i) = 0 ∧
    (id ∈ pending ∨ ∀ table, F[id]? = some table → ∀ j ∈ table.targets, Clear depth size j)

/-- What waits on a block leaves the stack empty, and it is empty where the block starts. -/
structure Block.Rests (depth : Nat → Nat) (code : Code) (b : Block) : Prop where
  waits : ∀ i, b.Pends i → Idle depth code i
  first : Clear depth code.size b.first

/-- A state in the middle of statements, with `height` values on the stack. -/
structure Poised (F : List SwitchTable) (pending : List Nat) (depth : Nat → Nat) (height : Nat) (s : GenState) :
    Prop where
  start : depth 0 = 0
  code : ∀ (i : Nat) (x : Instruction), s.code[i]? = some x → x.Rests F pending depth s.code.size i
  blocks : ∀ id b, s.blocks.get? id = some b → s.blocks.Reaches id → b.Rests depth s.code
  boundaries : ∀ i ∈ s.boundaries, Clear depth s.code.size i
  height : depth s.code.size = height
  orderly : s.Orderly F

/-- Depths from another assignment behind an index. -/
def beyond (depth : Nat → Nat) (size : Nat) (rest : Nat → Nat) : Nat → Nat :=
  fun i => if i ≤ size then depth i else rest i

section Depths

variable {F : List SwitchTable} {pending : List Nat} {depth depth' : Nat → Nat} {size size' i : Nat}
  {x : Instruction} {code code' : Code} {b : Block}

theorem beyond_of_le (h : i ≤ size) (depth rest : Nat → Nat) : beyond depth size rest i = depth i := if_pos h

theorem beyond_of_lt (h : size < i) (depth rest : Nat → Nat) : beyond depth size rest i = rest i :=
  if_neg (Nat.not_le.mpr h)

theorem Clear.mono (h : Clear depth size i) (hd : ∀ j ≤ size, depth' j = depth j) (hsize : size ≤ size') :
    Clear depth' size' i where
  inside := Nat.le_trans h.inside hsize
  empty := by rw [hd i h.inside, h.empty]

theorem Idle.mono (h : Idle depth code i) (hcode : Extends code code') (hd : ∀ j ≤ code.size, depth' j = depth j) :
    Idle depth' code' i := by
  obtain ⟨x, hx, hj, hpass⟩ := h.jump
  have hi := (Array.getElem?_eq_some_iff.mp hx).1
  refine ⟨x, ?_, hj, ?_⟩
  · rw [hcode.kept i hi, hx]
  · rw [hd i (Nat.le_of_lt hi), hpass]

theorem Instruction.Rests.mono (h : x.Rests F pending depth size i) (hi : i < size)
    (hd : ∀ j ≤ size, depth' j = depth j) (hsize : size ≤ size') : x.Rests F pending depth' size' i where
  enough := by
    rw [hd i (Nat.le_of_lt hi)]
    exact h.enough
  next := by
    intro hf
    rw [hd i (Nat.le_of_lt hi), hd (i + 1) hi, h.next hf]
  jump := by
    intro hj
    obtain ⟨hle, heq⟩ := h.jump hj
    exact ⟨Nat.le_trans hle hsize, by rw [hd _ hle, hd i (Nat.le_of_lt hi), heq]⟩
  table := by
    intro id hop hp3
    obtain ⟨hpass, htable⟩ := h.table id hop hp3
    refine ⟨by rw [hd i (Nat.le_of_lt hi), hpass], htable.imp_right fun h table ht j hj => ?_⟩
    exact (h table ht j hj).mono hd hsize

theorem Block.Rests.mono (h : b.Rests depth code) (hcode : Extends code code')
    (hd : ∀ j ≤ code.size, depth' j = depth j) : b.Rests depth' code' :=
  ⟨fun i hi => (h.waits i hi).mono hcode hd, h.first.mono hd hcode.grows⟩

/-- An instruction that neither jumps nor switches. -/
theorem Instruction.rests_plain (hj : x.op.isJump = false) (hs : x.op ≠ .switch) (henough : x.takes ≤ depth i)
    (hnext : x.op.falls = true → depth (i + 1) = x.pass (depth i)) : x.Rests F pending depth size i where
  enough := henough
  next := hnext
  jump := by
    intro h
    rw [hj] at h
    cases h
  table := fun _ h _ => absurd h hs

/-- A jump to where the stack is empty. -/
theorem Instruction.rests_jump (hj : x.op.isJump = true) (henough : x.takes ≤ depth i) (hpass : x.pass (depth i) = 0)
    (hnext : x.op.falls = true → depth (i + 1) = 0) (hto : Clear depth size x.p2) :
    x.Rests F pending depth size i where
  enough := henough
  next := fun hf => by rw [hnext hf, hpass]
  jump := fun _ => ⟨hto.inside, by rw [hto.empty, hpass]⟩
  table := by
    intro id hop
    rw [hop] at hj
    cases hj

/-- A jump gets its target. -/
theorem Instruction.Rests.patch (h : x.Rests F pending depth size i) (hj : x.op.isJump = true)
    (hpass : x.pass (depth i) = 0) {target : Nat} (hto : Clear depth size target) :
    { x with p2 := target }.Rests F pending depth size i := by
  refine Instruction.rests_jump hj ?_ ?_ (fun hf => ?_) hto
  · rw [Instruction.takes_patch hj]
    exact h.enough
  · rw [Instruction.pass_patch hj, hpass]
  · rw [h.next hf, hpass]

/-- Instructions in a stretch of code that only computes values. -/
theorem Instruction.Lies.rests {start stop : Nat} (h : x.Lies depth start stop i) (hstop : stop ≤ size) :
    x.Rests F pending depth size i where
  enough := h.enough
  next := h.next
  jump := fun hj => ⟨Nat.le_trans (h.jump hj).2.1 hstop, (h.jump hj).2.2⟩
  table := by
    intro id hop
    have hsteady := h.steady
    rw [hop] at hsteady
    cases hsteady

end Depths

namespace Poised

variable {F : List SwitchTable} {pending : List Nat} {depth depth' : Nat → Nat} {height height' : Nat}
  {s t : GenState} {id : Nat}

/-- Behind the end of a container that is being filled, with nothing on the stack. -/
theorem clear (h : Poised F pending depth 0 s) : Clear depth s.code.size s.code.size := ⟨Nat.le_refl _, h.height⟩

/-- Code is added whose instructions agree with the depths they are given. -/
theorem extend (h : Poised F pending depth height s) (hcode : Extends s.code t.code) (hblocks : t.blocks = s.blocks)
    (hbound : t.boundaries = s.boundaries) (hfilled : t.Orderly F)
    (hd : ∀ i ≤ s.code.size, depth' i = depth i) (hheight : depth' t.code.size = height')
    (hnew : ∀ (i : Nat) (x : Instruction), s.code.size ≤ i → t.code[i]? = some x →
      x.Rests F pending depth' t.code.size i) : Poised F pending depth' height' t where
  start := by rw [hd 0 (Nat.zero_le _), h.start]
  code := by
    intro i x hx
    by_cases hi : i < s.code.size
    · rw [hcode.kept i hi] at hx
      exact (h.code i x hx).mono hi hd hcode.grows
    · exact hnew i x (Nat.le_of_not_lt hi) hx
  blocks := by
    rw [hblocks]
    exact fun id b hb hr => (h.blocks id b hb hr).mono hcode hd
  boundaries := by
    rw [hbound]
    exact fun i hi => (h.boundaries i hi).mono hd hcode.grows
  height := hheight
  orderly := hfilled

/-- Only code, blocks and records matter. -/
theorem congr (h : Poised F pending depth height s) (hc : t.code = s.code) (hblocks : t.blocks = s.blocks)
    (hbound : t.boundaries = s.boundaries) (hfilled : t.filled = s.filled) : Poised F pending depth height t := by
  refine h.extend (by rw [hc]; exact Extends.refl _) hblocks hbound ?_ (fun _ _ => rfl) ?_ fun i x hi hx => ?_
  · exact fun r hr => h.orderly r (hfilled ▸ hr)
  · rw [hc, h.height]
  · rw [hc] at hx ⊢
    exact absurd (Array.getElem?_eq_some_iff.mp hx).1 (Nat.not_lt.mpr hi)

/-- One more instruction. -/
theorem push (h : Poised F pending depth height s) (op : Opcode) (p1 : Int) (p2 : Nat) (p3 : Operand)
    (hrests : ∀ line, (Instruction.mk op p1 p2 p3 line).Rests F pending
      (beyond depth s.code.size fun _ => height') (s.code.size + 1) s.code.size) :
    Poised F pending (beyond depth s.code.size fun _ => height') height' (after (put op p1 p2 p3) s) := by
  refine h.extend (Extends.push _ _) rfl rfl h.orderly (fun i hi => beyond_of_le hi _ _) ?_ fun i x hi hx => ?_
  · rw [after_put, Array.size_push, beyond_of_lt (Nat.lt_succ_self _)]
  · rw [after_put, Array.getElem?_push] at hx
    rw [after_put, Array.size_push]
    split at hx
    · rename_i heq
      cases hx
      rw [heq]
      exact hrests _
    · exact absurd (Array.getElem?_eq_some_iff.mp hx).1 (Nat.not_lt.mpr hi)

/-- One more instruction that neither jumps nor switches. -/
theorem put (h : Poised F pending depth height s) (op : Opcode) (p1 : Int) (p2 : Nat) (p3 : Operand)
    (hj : op.isJump = false) (hs : op ≠ .switch) (henough : (Instruction.mk op p1 p2 p3 0).takes ≤ height)
    (hpass : (Instruction.mk op p1 p2 p3 0).pass height = height') :
    Poised F pending (beyond depth s.code.size fun _ => height') height' (after (put op p1 p2 p3) s) := by
  have here : beyond depth s.code.size (fun _ => height') s.code.size = height := by
    rw [beyond_of_le (Nat.le_refl _), h.height]
  refine h.push op p1 p2 p3 fun line => Instruction.rests_plain hj hs ?_ fun _ => ?_
  · rw [here]
    exact henough
  · rw [here, beyond_of_lt (Nat.lt_succ_self _), ← hpass]
    rfl

/-- One more jump, to where the stack is empty. -/
theorem jump (h : Poised F pending depth height s) {op : Opcode} (p1 : Int) {p2 : Nat} (p3 : Operand)
    (hj : op.isJump = true) (henough : (Instruction.mk op p1 p2 p3 0).takes ≤ height)
    (hpass : (Instruction.mk op p1 p2 p3 0).pass height = 0) (hto : Clear depth s.code.size p2) :
    Poised F pending (beyond depth s.code.size fun _ => 0) 0 (after (Gen.put op p1 p2 p3) s) := by
  have here : beyond depth s.code.size (fun _ => 0) s.code.size = height := by
    rw [beyond_of_le (Nat.le_refl _), h.height]
  refine h.push op p1 p2 p3 fun line => Instruction.rests_jump hj ?_ ?_ (fun _ => ?_) ?_
  · rw [here]
    exact henough
  · rw [here, ← hpass]
    rfl
  · exact beyond_of_lt (Nat.lt_succ_self _) _ _
  · exact hto.mono (fun i hi => beyond_of_le hi _ _) (Nat.le_succ _)

/-- Code that computes values. -/
theorem raise {n : Nat} (h : Poised F pending depth height s) (hst : Raised F n s t) :
    ∃ depth', (∀ i ≤ s.code.size, depth' i = depth i) ∧ Poised F pending depth' (height + n) t := by
  obtain ⟨hle, rest, hstart, hstop, hlies⟩ := hst.lifts.climbs
  refine ⟨beyond depth s.code.size fun i => height + rest i, fun i hi => beyond_of_le hi _ _, ?_⟩
  have shifted : ∀ j, s.code.size ≤ j → j ≤ t.code.size →
      beyond depth s.code.size (fun i => height + rest i) j = height + rest j := by
    intro j hj _
    rcases Nat.lt_or_eq_of_le hj with hj | rfl
    · exact beyond_of_lt hj _ _
    · rw [beyond_of_le (Nat.le_refl _), h.height, hstart, Nat.add_zero]
  refine h.extend hst.lifts.longer hst.blocks hst.boundaries (hst.orderly h.orderly)
    (fun i hi => beyond_of_le hi _ _) ?_ fun i x hi hx => ?_
  · rw [shifted _ hle (Nat.le_refl _), hstop]
  · have hlt := (Array.getElem?_eq_some_iff.mp hx).1
    exact ((hlies i x hi hlt hx).shift ⟨hi, hlt⟩ shifted (Nat.le_refl _) (Nat.le_refl _)).rests (Nat.le_refl _)

/-! ### Blocks -/

/-- A change to one block that keeps its shape. -/
theorem modify (h : Poised F pending depth height s) (id : Nat) (f : Block → Block) (hc : t.code = s.code)
    (hblocks : t.blocks = s.blocks.modify id f) (hbound : t.boundaries = s.boundaries) (hfilled : t.filled = s.filled)
    (hshape : ∀ b, (f b).shape = b.shape) (hf : ∀ b, b.Rests depth s.code → (f b).Rests depth s.code) :
    Poised F pending depth height t where
  start := h.start
  code := by
    rw [hc]
    exact h.code
  blocks := by
    rw [hc, hblocks]
    intro k c hk hr
    rw [BlockStack.reaches_congr (BlockStack.shapes_modify _ _ _ hshape)] at hr
    rw [BlockStack.get?_modify] at hk
    split at hk
    · obtain ⟨b, hb, rfl⟩ := Option.map_eq_some_iff.mp hk
      exact hf b (h.blocks k b hb hr)
    · exact h.blocks k c hk hr
  boundaries := by
    rw [hc, hbound]
    exact h.boundaries
  height := by rw [hc, h.height]
  orderly := fun r hr => h.orderly r (hfilled ▸ hr)

/-- The last instruction is a jump that waits on a block. -/
theorem await (h : Poised F pending depth height s) (id : Nat) {op : Opcode} (p3 : Operand) (hj : op.isJump = true)
    (henough : (Instruction.mk op 0 0 p3 0).takes ≤ height) (hpass : (Instruction.mk op 0 0 p3 0).pass height = 0) :
    Poised F pending (beyond depth s.code.size fun _ => 0) 0 (after (await id op p3) s) := by
  have pushed := h.jump 0 p3 hj henough hpass ⟨Nat.zero_le _, h.start⟩
  refine pushed.modify id (fun b => { b with pending := b.pending ++ [⟨op, s.code.size⟩] }) rfl rfl rfl rfl
    (fun _ => rfl) fun b hb => ⟨fun i hi => ?_, hb.first⟩
  rcases Block.pends_await hi with hi | rfl
  · exact hb.waits i hi
  · refine ⟨⟨op, 0, 0, p3, s.buffer.line⟩, ?_, hj, ?_⟩
    · rw [after_put, Array.getElem?_push_size]
    · rw [beyond_of_le (Nat.le_refl _), h.height]
      exact hpass

/-- The last instruction is the jump of a `continue` that waits on a block. -/
theorem awaitContinue (h : Poised F pending depth 0 s) (id : Nat) :
    Poised F pending (beyond depth s.code.size fun _ => 0) 0 (after (awaitContinue id) s) := by
  have pushed := h.jump 0 .none (show Opcode.jmp.isJump = true from rfl) (Nat.le_refl 0) rfl ⟨Nat.zero_le _, h.start⟩
  refine pushed.modify id (fun b => { b with deferred := b.deferred.map (· ++ [s.code.size]) }) rfl rfl rfl rfl
    (fun b => by simp [Block.shape]) fun b hb => ⟨fun i hi => ?_, hb.first⟩
  rcases Block.pends_awaitContinue hi with hi | rfl
  · exact hb.waits i hi
  · refine ⟨⟨.jmp, 0, 0, .none, s.buffer.line⟩, ?_, rfl, ?_⟩
    · rw [after_put, Array.getElem?_push_size]
    · rw [beyond_of_le (Nat.le_refl _), h.height]
      rfl

/-- Jumps that wait get the next instruction for their target. -/
theorem fill {α : Type} (h : Poised F pending depth 0 s) (index : α → Nat) (js : List α)
    (hjs : ∀ j ∈ js, Idle depth s.code (index j)) :
    Poised F pending depth 0 { s with buffer := { s.buffer with
      code := js.foldl (fun code j => code.patch (index j) s.code.size) s.code } } := by
  have hsize : (js.foldl (fun code j => code.patch (index j) s.code.size) s.code).size = s.code.size :=
    BlockStack.size_foldl_patch index s.code.size js s.code
  -- Apart from their targets, the jumps stay what they are.
  have patched : ∀ (i : Nat) (x : Instruction), s.code[i]? = some x → ∃ y : Instruction,
      (js.foldl (fun code j => code.patch (index j) s.code.size) s.code)[i]? = some y ∧
      (y = x ∨ x.op.isJump = true ∧ x.pass (depth i) = 0 ∧ y = { x with p2 := s.code.size }) := by
    intro i x hx
    rw [getElem?_foldl_patch]
    split
    · rename_i hi
      obtain ⟨j, hj, rfl⟩ := List.mem_map.mp hi
      obtain ⟨y, hy, hjump, hpass⟩ := (hjs j hj).jump
      obtain rfl : x = y := Option.some.inj (hx.symm.trans hy)
      exact ⟨_, by rw [hx]; rfl, .inr ⟨hjump, hpass, rfl⟩⟩
    · exact ⟨x, hx, .inl rfl⟩
  refine ⟨h.start, fun i y hy => ?_, fun id b hb hr => ⟨fun i hi => ?_, ?_⟩, fun i hi => ?_, ?_, h.orderly⟩
  · dsimp only at hy ⊢
    rw [hsize]
    have hi : i < s.code.size := hsize ▸ (Array.getElem?_eq_some_iff.mp hy).1
    have hx := Array.getElem?_eq_getElem hi
    obtain ⟨y', hy', hcase⟩ := patched i _ hx
    obtain rfl : y = y' := Option.some.inj (hy.symm.trans hy')
    rcases hcase with rfl | ⟨hjump, hpass, rfl⟩
    · exact h.code i _ hx
    · exact (h.code i _ hx).patch hjump hpass h.clear
  · obtain ⟨x, hx, hjump, hpass⟩ := ((h.blocks id b hb hr).waits i hi).jump
    obtain ⟨y, hy, hcase⟩ := patched i x hx
    refine ⟨y, hy, ?_⟩
    rcases hcase with rfl | ⟨-, -, rfl⟩
    · exact ⟨hjump, hpass⟩
    · exact ⟨hjump, by rw [Instruction.pass_patch hjump, hpass]⟩
  · dsimp only
    rw [hsize]
    exact (h.blocks id b hb hr).first
  · dsimp only
    rw [hsize]
    exact h.boundaries i hi
  · dsimp only
    rw [hsize, h.height]

/-- No block lies inside the innermost one. -/
theorem reaches (hid : s.blocks.blocks.size = id + 1) : s.blocks.Reaches id := by
  intro k b hk hb
  have hlt : k < s.blocks.blocks.size := (Array.getElem?_eq_some_iff.mp hb).1
  omega

theorem settle (h : Poised F pending depth 0 s) (hid : s.blocks.blocks.size = id + 1) (op : Option Opcode) :
    Poised F pending depth 0 (after (settle id op) s) := by
  have filled := h.fill PendingJump.index
    ((((s.blocks.get? id).map Block.pending).getD []).filter (BlockStack.settles op s.code)) fun j hj => by
      obtain ⟨b, hb, pends⟩ := BlockStack.exists_pending (List.mem_filter.mp hj).1
      exact (h.blocks id b hb (reaches hid)).waits _ pends
  refine filled.modify id (fun b => { b with pending := b.pending.filter fun j => !BlockStack.settles op s.code j })
    rfl rfl rfl rfl (fun _ => rfl) fun b hb => ⟨fun i hi => ?_, hb.first⟩
  exact hb.waits i (Block.pends_settle hi)

theorem settleContinue (h : Poised F pending depth 0 s) (hid : s.blocks.blocks.size = id + 1) :
    Poised F pending depth 0 (after (settleContinue id) s) := by
  have filled := h.fill (fun i => i) (((s.blocks.get? id).bind Block.deferred).getD []) fun i hi => by
    obtain ⟨b, hb, pends⟩ := BlockStack.exists_deferred hi
    exact (h.blocks id b hb (reaches hid)).waits i pends
  refine filled.modify id (fun b => { b with deferred := b.deferred.map fun _ => [] }) rfl rfl rfl rfl
    (fun b => by simp [Block.shape]) fun b hb => ⟨fun i hi => ?_, hb.first⟩
  exact hb.waits i (Block.pends_settleContinue hi)

/-- The place where `continue` goes is here. -/
theorem restartHere (h : Poised F pending depth 0 s) (id : Nat) : Poised F pending depth 0 (after (restartHere id) s) :=
  h.modify id (fun b => { b with first := s.code.size }) rfl rfl rfl rfl (fun _ => rfl)
    fun _ hb => ⟨hb.waits, h.clear⟩

/-- A statement starts or ends here. -/
theorem markBoundary (h : Poised F pending depth 0 s) : Poised F pending depth 0 (after markBoundary s) where
  start := h.start
  code := h.code
  blocks := h.blocks
  boundaries := by
    intro i hi
    rcases List.mem_append.mp hi with hi | hi
    · exact h.boundaries i hi
    · rw [List.mem_singleton.mp hi]
      exact h.clear
  height := h.height
  orderly := h.orderly

/-- A block is entered whose start is clear and on which nothing waits. -/
theorem enter (h : Poised F pending depth height s) (tags : List BlockTag) {first : Nat} (owner : BlockOwner)
    {deferred : Option (List Nat)} (hd : deferred.getD [] = []) (hfirst : Clear depth s.code.size first) :
    Poised F pending depth height (after (enter tags first owner deferred) s) where
  start := h.start
  code := h.code
  blocks := by
    intro k c hk hr
    rw [after_enter] at hk hr
    rw [BlockStack.get?_push] at hk
    split at hk
    · cases hk
      refine ⟨fun i hi => ?_, hfirst⟩
      rcases hi with ⟨j, hj, -⟩ | hi
      · cases hj
      · rw [hd] at hi
        cases hi
    · have hlt : k < s.blocks.blocks.size := (Array.getElem?_eq_some_iff.mp hk).1
      exact h.blocks k c hk ((BlockStack.reaches_push _ _ hlt).mp hr).2
  boundaries := h.boundaries
  height := h.height
  orderly := h.orderly

/-- A block that hides no other is left. -/
theorem leave {b : Block} (h : Poised F pending depth height s) (hb : s.blocks.Innermost id b) (hid : 0 < id)
    (hn : b.isBoundary = false) : Poised F pending depth height (after leave s) where
  start := h.start
  code := h.code
  blocks := by
    intro k c hk hr
    have hsize := hb.size
    rw [after_leave] at hk hr
    dsimp only at hk hr
    rw [BlockStack.get?_leave _ (by omega)] at hk
    split at hk
    · refine h.blocks k c hk fun l d hl hd => ?_
      by_cases hlid : l = id
      · rw [hlid, hb.block] at hd
        cases hd
        exact hn
      · refine hr l d hl ?_
        have hlt : l < s.blocks.blocks.size := (Array.getElem?_eq_some_iff.mp hd).1
        rw [BlockStack.get?_leave _ (by omega), if_pos (by omega)]
        exact hd
    · cases hk
  boundaries := h.boundaries
  height := h.height
  orderly := h.orderly

/-! ### Containers -/

/-- A container of its own starts with an empty stack, inside a block that cannot be left. -/
theorem opened {b : Block} {op : Option Opcode} (hs : s.Orderly F) (hb : s.blocks.Innermost id b) (hop : IsBody b op) :
    Poised F [] (fun _ => 0) 0 (after openContainer s) where
  start := rfl
  code := by
    intro i x hx
    rw [after_openContainer] at hx
    cases hx
  blocks := by
    intro k c hk hr
    obtain ⟨rfl, rfl⟩ := hop.reached hb hk hr
    refine ⟨fun i hi => ?_, ?_⟩
    · rcases hi with ⟨j, hj, -⟩ | hi
      · rw [hop.pending] at hj
        cases hj
      · rw [hop.deferred] at hi
        cases hi
    · rw [hop.first]
      exact ⟨Nat.zero_le _, rfl⟩
  boundaries := by
    intro i hi
    cases hi
  height := rfl
  orderly := hs

/-- A container whose code is complete is disciplined. -/
theorem disciplined (h : Poised F [] depth height s) : s.container.IsDisciplined F := by
  refine ⟨depth, ⟨h.start, fun i x hx => ?_⟩, fun i hi => (h.boundaries i hi).empty⟩
  have rests := h.code i x hx
  refine ⟨rests.enough, rests.next, fun j hj => ?_⟩
  cases hjump : x.op.isJump with
  | true =>
      rw [Instruction.exits_of_isJump hjump] at hj
      rw [List.mem_singleton.mp hj]
      exact (rests.jump hjump).2
  | false =>
      obtain ⟨id, table, hop, hp3, hF, hmem⟩ := Instruction.exits_of_not_isJump hjump hj
      obtain ⟨hpass, htable⟩ := rests.table id hop hp3
      rw [hpass]
      exact (htable.resolve_left List.not_mem_nil table hF j hmem).empty

end Poised

end StackScript
