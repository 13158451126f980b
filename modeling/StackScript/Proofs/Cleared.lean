/-
A container seen by itself.

While a container is filled, the blocks around its own may have jumps waiting on them that lie in another
container, at indices that mean nothing in this one.  `cleared` forgets them.  No step on a block of the
container notices that: it does the same before and after, so what is known of a stage of the code in a
state with no such jumps (`Proofs/Targets.lean`) holds of every container.
-/
import StackScript.Proofs.Targets

namespace StackScript

open Gen

/-- The block with nothing waiting on it. -/
def Block.cleared (b : Block) : Block := { b with pending := [], deferred := b.deferred.map fun _ => [] }

namespace Block

@[simp] theorem shape_cleared (b : Block) : b.cleared.shape = b.shape := by simp [cleared, shape]

theorem not_awaits_cleared (b : Block) (kind : Option Opcode) (i : Nat) : ¬b.cleared.Awaits kind i := by
  cases kind with
  | none => cases hd : b.deferred <;> simp [Awaits, cleared, hd]
  | some op => simp [Awaits, cleared]

end Block

namespace BlockStack

/-- The blocks with nothing waiting on the first `k`. -/
def cleared (bs : BlockStack) (k : Nat) : BlockStack :=
  ⟨bs.blocks.mapIdx fun i b => if i < k then b.cleared else b⟩

variable {bs : BlockStack} {id k : Nat} {b : Block}

@[simp] theorem size_cleared (bs : BlockStack) (k : Nat) : (bs.cleared k).blocks.size = bs.blocks.size := by
  simp [cleared]

theorem get?_cleared (bs : BlockStack) (k i : Nat) :
    (bs.cleared k).get? i = (bs.get? i).map fun b => if i < k then b.cleared else b := by
  simp [cleared, get?]

theorem get?_cleared_of_le (h : k ≤ id) : (bs.cleared k).get? id = bs.get? id := by
  rw [get?_cleared]
  simp [Nat.not_lt.mpr h]

@[simp] theorem shapes_cleared (bs : BlockStack) (k : Nat) : (bs.cleared k).shapes = bs.shapes := by
  unfold shapes cleared
  apply Array.ext_getElem?
  intro i
  simp only [Array.getElem?_map, Array.getElem?_mapIdx, Option.map_map]
  congr 1
  funext b
  simp only [Function.comp_apply]
  split <;> simp

theorem awaits_cleared (bs : BlockStack) (k id : Nat) (kind : Option Opcode) (i : Nat) :
    (bs.cleared k).Awaits id kind i ↔ k ≤ id ∧ bs.Awaits id kind i := by
  by_cases hk : k ≤ id
  · simp only [Awaits, get?_cleared_of_le hk, hk, true_and]
  · refine iff_of_false ?_ fun h => hk h.1
    rintro ⟨b, hb, ha⟩
    rw [get?_cleared] at hb
    obtain ⟨c, -, rfl⟩ := Option.map_eq_some_iff.mp hb
    rw [if_pos (Nat.not_le.mp hk)] at ha
    exact c.not_awaits_cleared kind i ha

/-! ### Steps on the blocks of the container -/

theorem cleared_modify (h : k ≤ id) (f : Block → Block) : (bs.modify id f).cleared k = (bs.cleared k).modify id f := by
  apply ext_get?
  intro i
  simp only [get?_cleared, get?_modify]
  by_cases hi : id = i
  · subst hi
    simp [Nat.not_lt.mpr h, Function.comp_def]
  · simp [hi]

theorem cleared_push (h : k ≤ bs.blocks.size) (b : Block) :
    (BlockStack.mk (bs.blocks.push b)).cleared k = ⟨(bs.cleared k).blocks.push b⟩ := by
  apply ext_get?
  intro i
  simp only [get?_cleared, get?_push, size_cleared]
  by_cases hi : i = bs.blocks.size
  · subst hi
    simp [Nat.not_lt.mpr h]
  · simp only [hi, if_false]

theorem Innermost.cleared (hb : bs.Innermost id b) (h : k ≤ id) : (bs.cleared k).Innermost id b :=
  ⟨by rw [size_cleared, hb.size], by rw [get?_cleared_of_le h, hb.block]⟩

theorem cleared_leave (bs : BlockStack) (k : Nat) : bs.leave.cleared k = (bs.cleared k).leave := by
  by_cases hsize : bs.blocks.size ≤ 1
  · unfold leave
    rw [size_cleared, if_pos hsize, if_pos hsize]
  · apply ext_get?
    intro i
    rw [get?_cleared, get?_leave _ (by omega), get?_leave _ (by rw [size_cleared]; omega), size_cleared, get?_cleared]
    by_cases hi : i < bs.blocks.size - 1
    · rw [if_pos hi, if_pos hi]
    · rw [if_neg hi, if_neg hi]
      rfl

end BlockStack

namespace GenState

/-- The state with nothing waiting on the first `k` blocks. -/
def cleared (s : GenState) (k : Nat) : GenState := { s with blocks := s.blocks.cleared k }

variable {s t : GenState} {id k : Nat} {b : Block}

@[simp] theorem blocks_cleared (s : GenState) (k : Nat) : (s.cleared k).blocks = s.blocks.cleared k := rfl

theorem cleared_await (h : k ≤ id) (op : Opcode) (p3 : Operand) (s : GenState) :
    (after (await id op p3) s).cleared k = after (await id op p3) (s.cleared k) := by
  rw [after_await, after_await]
  unfold GenState.cleared
  rw [BlockStack.await, BlockStack.cleared_modify h]
  rfl

theorem cleared_awaitContinue (h : k ≤ id) (s : GenState) :
    (after (awaitContinue id) s).cleared k = after (awaitContinue id) (s.cleared k) := by
  rw [after_awaitContinue, after_awaitContinue]
  unfold GenState.cleared
  rw [BlockStack.awaitContinue, BlockStack.cleared_modify h]
  rfl

theorem cleared_settle (h : k ≤ id) (op : Option Opcode) (s : GenState) :
    (after (settle id op) s).cleared k = after (settle id op) (s.cleared k) := by
  rw [after_settle, after_settle]
  unfold GenState.cleared BlockStack.settle
  rw [BlockStack.cleared_modify h, BlockStack.get?_cleared_of_le h]

theorem cleared_settleContinue (h : k ≤ id) (s : GenState) :
    (after (settleContinue id) s).cleared k = after (settleContinue id) (s.cleared k) := by
  rw [after_settleContinue, after_settleContinue]
  unfold GenState.cleared BlockStack.settleContinue
  rw [BlockStack.cleared_modify h, BlockStack.get?_cleared_of_le h]

theorem cleared_restartHere (h : k ≤ id) (s : GenState) :
    (after (restartHere id) s).cleared k = after (restartHere id) (s.cleared k) := by
  rw [after_restartHere, after_restartHere]
  unfold GenState.cleared
  rw [BlockStack.cleared_modify h]

theorem cleared_enter (h : k ≤ s.blocks.blocks.size) (tags : List BlockTag) (first : Nat) (owner : BlockOwner)
    (deferred : Option (List Nat)) :
    (after (enter tags first owner deferred) s).cleared k = after (enter tags first owner deferred) (s.cleared k) := by
  rw [after_enter, after_enter]
  unfold GenState.cleared
  rw [BlockStack.cleared_push h]

theorem cleared_leave (hb : s.blocks.Innermost id b) (h : k ≤ id) (hid : 0 < id) :
    (after leave s).cleared k = after leave (s.cleared k) := by
  rw [after_leave, after_leave]
  unfold GenState.cleared
  rw [BlockStack.cleared_leave, BlockStack.leaving?_eq hb hid, BlockStack.leaving?_eq (hb.cleared h) hid]

end GenState

theorem Frame.cleared {s t : GenState} (h : Frame s t) (k : Nat) : Frame (s.cleared k) (t.cleared k) where
  reports := h.reports
  grows := h.grows
  shapes := by
    intro hs
    rw [GenState.blocks_cleared, BlockStack.size_cleared] at hs
    rw [GenState.blocks_cleared, GenState.blocks_cleared, BlockStack.shapes_cleared, BlockStack.shapes_cleared]
    exact h.shapes hs
  exceptions := h.exceptions

theorem Spares.cleared {s t : GenState} (h : Spares s t) (k : Nat) : Spares (s.cleared k) (t.cleared k) where
  frame := h.frame.cleared k
  blocks := by rw [GenState.blocks_cleared, GenState.blocks_cleared, h.blocks]
  kept := h.kept

/-! ### The blocks of a container -/

namespace BlockStack

/-- The blocks of the container being filled start at `k`: no jump leads from them to the blocks before, and
no exception either. -/
structure Floor (bs : BlockStack) (k : Nat) : Prop where
  inner : ∀ id b, k < id → bs.get? id = some b → b.isBoundary = false
  base : k = 0 ∨ ∃ b, bs.get? k = some b ∧ b.isBoundary = true ∧ b.hasAny [.exception, .function] = true

namespace Floor

variable {bs cs : BlockStack} {id k : Nat} {b : Block}

theorem congr (h : bs.Floor k) (hshapes : cs.shapes = bs.shapes) : cs.Floor k where
  inner := by
    intro id c hk hc
    obtain ⟨b, hb, hshape⟩ := get?_congr hshapes.symm hc
    have := h.inner id b hk hb
    rwa [Block.isBoundary, Block.hasAny_congr hshape] at this
  base := by
    refine h.base.imp_right ?_
    rintro ⟨b, hb, hboundary, hany⟩
    obtain ⟨c, hc, hshape⟩ := get?_congr hshapes hb
    exact ⟨c, hc, by rw [Block.isBoundary, Block.hasAny_congr hshape]; exact hboundary,
      by rw [Block.hasAny_congr hshape]; exact hany⟩

/-- The root is the first block of the main container. -/
theorem of_root : BlockStack.root.Floor 0 where
  inner := by
    intro id b hid hb
    have hlt : id < root.blocks.size := (Array.getElem?_eq_some_iff.mp hb).1
    have : root.blocks.size = 1 := rfl
    omega
  base := .inl rfl

theorem push (h : bs.Floor k) (hk : k < bs.blocks.size) (hb : b.isBoundary = false) :
    (BlockStack.mk (bs.blocks.push b)).Floor k where
  inner := by
    intro id c hid hc
    rw [get?_push] at hc
    by_cases hsize : id = bs.blocks.size
    · rw [if_pos hsize] at hc
      cases hc
      exact hb
    · rw [if_neg hsize] at hc
      exact h.inner id c hid hc
  base := by
    refine h.base.imp_right ?_
    rintro ⟨c, hc, h⟩
    exact ⟨c, by rw [get?_push, if_neg (Nat.ne_of_lt hk)]; exact hc, h⟩

/-- A body has a block of its own, which is the first block of its container. -/
theorem body (hb : b.isBoundary = true) (hany : b.hasAny [.exception, .function] = true) :
    (BlockStack.mk (bs.blocks.push b)).Floor bs.blocks.size where
  inner := by
    intro id c hid hc
    have hlt : id < (bs.blocks.push b).size := (Array.getElem?_eq_some_iff.mp hc).1
    rw [Array.size_push] at hlt
    omega
  base := .inr ⟨b, by rw [get?_push, if_pos rfl], hb, hany⟩

/-- A `break` or `continue` finds its target in the container. -/
theorem le_enclosing (h : bs.Floor k) {level : Nat} (hid : bs.enclosing? [.loop] level = some id) : k ≤ id := by
  refine Nat.not_lt.mp fun hlt => ?_
  rcases h.base with rfl | ⟨b, hb, hboundary, -⟩
  · exact Nat.not_lt_zero id hlt
  · exact absurd ((enclosing?_reaches hid).1 k b hlt hb) (by rw [hboundary]; decide)

/-- So does a thrown exception. -/
theorem le_nearest (h : bs.Floor k) : k ≤ bs.nearest [.exception, .function] := by
  refine Nat.not_lt.mp fun hlt => ?_
  rcases h.base with rfl | ⟨b, hb, hboundary, hany⟩
  · exact Nat.not_lt_zero _ hlt
  · exact not_hides_nearest bs ⟨k, b, hlt, hb, hboundary, hany⟩

end Floor

end BlockStack

end StackScript
