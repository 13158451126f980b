/-
Jumps stay inside their container.

A jump is emitted before its target is known, into a container that may be put aside for another one, and
the last instructions may be taken back.  What holds throughout is small: no jump points further than the
next instruction, and every jump that waits on a block which can be reached lies in the container being
filled.  `Open` says this of a state in the middle of statements, `Beside` of code that only computes
values, and `Run.sound` carries both through a whole run, so that every finished container is `Whole` and
every block that was left had nothing waiting on it.
-/
import StackScript.Proofs.Blocks
import StackScript.Proofs.Evaluation
import StackScript.Proofs.Run.Compilation
import StackScript.Proofs.Tables

namespace StackScript

open Gen

/-- No jump of some code points further than a limit. -/
def Bounded (code : Code) (limit : Nat) : Prop :=
  ∀ (i : Nat) (x : Instruction), code[i]? = some x → x.op.isJump = true → x.p2 ≤ limit

/-- Finished code: its jumps stay inside, and it ends by returning. -/
structure Whole (code : Code) : Prop where
  jumps : ∀ (i : Nat) (x : Instruction), code[i]? = some x → x.op.isJump = true → x.p2 < code.size
  ends : code = #[] ∨ code.back?.map Instruction.op = some .done

/-- Nothing waits on a block any more. -/
def Block.Settled (b : Block) : Prop := b.pending = [] ∧ b.deferred.getD [] = []

theorem Bounded.mono {code : Code} {m n : Nat} (h : Bounded code m) (hmn : m ≤ n) : Bounded code n :=
  fun i x hx hj => Nat.le_trans (h i x hx hj) hmn

theorem Bounded.push {code : Code} {n : Nat} (h : Bounded code n) {x : Instruction}
    (hx : x.op.isJump = true → x.p2 ≤ n) : Bounded (code.push x) n := by
  intro i y hy hj
  rw [Array.getElem?_push] at hy
  split at hy
  · cases hy
    exact hx hj
  · exact h i y hy hj

/-- Filling in targets up to a limit keeps the code within it. -/
theorem Bounded.fill {α : Type} {code : Code} {n target : Nat} (h : Bounded code n) (ht : target ≤ n)
    (index : α → Nat) (js : List α) :
    Bounded (js.foldl (fun code j => code.patch (index j) target) code) n := by
  intro i x hx hj
  rw [getElem?_foldl_patch] at hx
  split at hx
  · obtain ⟨y, -, rfl⟩ := Option.map_eq_some_iff.mp hx
    exact ht
  · exact h i x hx hj

theorem whole_empty : Whole #[] :=
  ⟨fun i x hx => by simp at hx, .inl rfl⟩

/-- Code is finished by a return behind it. -/
theorem Bounded.whole {code : Code} (h : Bounded code code.size) (p1 : Int) (p2 : Nat) (p3 : Operand)
    (line : Nat) : Whole (code.push ⟨.done, p1, p2, p3, line⟩) := by
  refine ⟨fun i x hx hj => ?_, .inr (by simp)⟩
  rw [Array.size_push]
  exact Nat.lt_succ_of_le (h.push (fun hdone => by cases hdone) i x hx hj)

theorem size_le_enter (tags : List BlockTag) (first : Nat) (owner : BlockOwner) (deferred : Option (List Nat))
    (s : GenState) : s.blocks.blocks.size ≤ (after (enter tags first owner deferred) s).blocks.blocks.size := by
  rw [after_enter, Array.size_push]
  exact Nat.le_succ _

/-! ### What has been put away -/

/-- Everything that has been put away so far is finished. -/
structure Filed (s : GenState) : Prop where
  /-- The root is never left. -/
  root : ∃ b, s.blocks.get? 0 = some b ∧ b.hasAny [.global] = true
  thunks : ∀ c ∈ s.program.thunks, Whole c
  bodies : ∀ c ∈ s.program.bodies, Whole c
  statics : ∀ frame ∈ s.statics, ∀ v ∈ frame, Whole v.init
  left : ∀ b ∈ s.left, b.Settled

theorem Filed.stack {s : GenState} (h : Filed s) : 0 < s.blocks.blocks.size := by
  obtain ⟨b, hb, -⟩ := h.root
  exact (Array.getElem?_eq_some_iff.mp hb).1

/-- A step that puts nothing away. -/
theorem Filed.congr {s t : GenState} (h : Filed s) (hb : t.blocks.shapes = s.blocks.shapes)
    (hp : t.program.stock = s.program.stock) (hs : t.statics = s.statics) (hl : t.left = s.left) :
    Filed t where
  root := by
    obtain ⟨b, hroot, hg⟩ := h.root
    obtain ⟨c, hc, hshape⟩ := BlockStack.get?_congr hb hroot
    exact ⟨c, hc, by rw [Block.hasAny_congr hshape]; exact hg⟩
  thunks := by
    have : t.program.thunks = s.program.thunks := congrArg Stock.thunks hp
    rw [this]
    exact h.thunks
  bodies := by
    have : t.program.bodies = s.program.bodies := congrArg Stock.bodies hp
    rw [this]
    exact h.bodies
  statics := by
    rw [hs]
    exact h.statics
  left := by
    rw [hl]
    exact h.left

/-- A change to one block that keeps its shape. -/
theorem Filed.modify {s t : GenState} (h : Filed s) {id : Nat} {f : Block → Block}
    (hb : t.blocks = s.blocks.modify id f) (hf : ∀ b, (f b).shape = b.shape)
    (hp : t.program.stock = s.program.stock) (hs : t.statics = s.statics) (hl : t.left = s.left) :
    Filed t :=
  h.congr (by rw [hb]; exact s.blocks.shapes_modify id f hf) hp hs hl

theorem Filed.settle {s : GenState} (h : Filed s) (id : Nat) (op : Option Opcode) :
    Filed (after (settle id op) s) :=
  h.modify rfl (fun _ => rfl) rfl rfl rfl

theorem Filed.settleContinue {s : GenState} (h : Filed s) (id : Nat) : Filed (after (settleContinue id) s) :=
  h.modify rfl (fun b => by simp [Block.shape]) rfl rfl rfl

theorem Filed.awaitContinue {s : GenState} (h : Filed s) (id : Nat) : Filed (after (awaitContinue id) s) :=
  h.modify rfl (fun b => by simp [Block.shape]) rfl rfl rfl

theorem Filed.await {s : GenState} (h : Filed s) (id : Nat) (op : Opcode) (p3 : Operand) :
    Filed (after (await id op p3) s) :=
  h.modify rfl (fun _ => rfl) rfl rfl rfl

theorem Filed.reserveException {s : GenState} (h : Filed s) : Filed (after reserveException s) :=
  h.congr rfl (stock_reserveException s) rfl rfl

theorem Filed.reserveSwitch {s : GenState} (h : Filed s) : Filed (after reserveSwitch s) :=
  h.congr rfl (stock_reserveSwitch s) rfl rfl

theorem Filed.fillSwitch {s : GenState} (h : Filed s) (id : Nat) {table : SwitchTable}
    (hg : ∀ e ∈ table.cases, Whole e.guard) : Filed (after (fillSwitch id table) s) where
  root := h.root
  thunks := by
    intro c hc
    rcases thunks_fillSwitch hc with hc | ⟨e, he, rfl⟩
    · exact h.thunks c hc
    · exact hg e he
  bodies := h.bodies
  statics := h.statics
  left := h.left

theorem Filed.enter {s : GenState} (h : Filed s) (tags : List BlockTag) (first : Nat) (owner : BlockOwner)
    (deferred : Option (List Nat)) : Filed (after (enter tags first owner deferred) s) where
  root := by
    obtain ⟨b, hroot, hg⟩ := h.root
    refine ⟨b, ?_, hg⟩
    rw [after_enter, BlockStack.get?_push, if_neg (Nat.ne_of_lt h.stack)]
    exact hroot
  thunks := h.thunks
  bodies := h.bodies
  statics := h.statics
  left := h.left

/-- Leaving a block on which nothing waits. -/
theorem Filed.leave {s : GenState} (h : Filed s) {id : Nat} {b : Block} (hb : s.blocks.Innermost id b)
    (hid : 0 < id) (hs : b.Settled) : Filed (after leave s) where
  root := by
    obtain ⟨c, hroot, hg⟩ := h.root
    have hsize := hb.size
    refine ⟨c, ?_, hg⟩
    rw [after_leave, BlockStack.get?_leave _ (by omega), if_pos (by omega)]
    exact hroot
  thunks := h.thunks
  bodies := h.bodies
  statics := h.statics
  left := by
    rw [after_leave, BlockStack.leaving?_eq hb hid]
    intro c hc
    rcases List.mem_append.mp hc with hc | hc
    · exact h.left c hc
    · rw [List.mem_singleton.mp hc]
      exact hs

/-! ### Code that computes values -/

/-- Code that computes values stands beside what was there before: no jump that was there has moved, its
own jumps point no further than its end, and what it makes on the side is finished. -/
structure Beside (made : List Made) (s t : GenState) : Prop where
  blocks : t.blocks = s.blocks
  grows : s.code.size ≤ t.code.size
  kept : ∀ (i : Nat) (x : Instruction), i < s.code.size → t.code[i]? = some x → x.op.isJump = true → s.code[i]? = some x
  fresh : ∀ (i : Nat) (x : Instruction), s.code.size ≤ i → t.code[i]? = some x → x.op.isJump = true → x.p2 ≤ t.code.size
  filed : Filed t
  made : ∀ c, .thunk c ∈ made ∨ .body c ∈ made → Whole c

namespace Beside

variable {made made' : List Made} {s t u : GenState}

theorem trans (h : Beside made s t) (h' : Beside made' t u) : Beside (made ++ made') s u where
  blocks := h'.blocks.trans h.blocks
  grows := Nat.le_trans h.grows h'.grows
  kept := by
    intro i x hi hx hj
    exact h.kept i x hi (h'.kept i x (Nat.lt_of_lt_of_le hi h.grows) hx hj) hj
  fresh := by
    intro i x hi hx hj
    by_cases hit : i < t.code.size
    · exact Nat.le_trans (h.fresh i x hi (h'.kept i x hit hx hj) hj) h'.grows
    · exact h'.fresh i x (Nat.le_of_not_lt hit) hx hj
  filed := h'.filed
  made := by
    intro c hc
    rcases hc with hc | hc
    · rcases List.mem_append.mp hc with hc | hc
      · exact h.made c (.inl hc)
      · exact h'.made c (.inl hc)
    · rcases List.mem_append.mp hc with hc | hc
      · exact h.made c (.inr hc)
      · exact h'.made c (.inr hc)

/-- Code that was within its end stays so. -/
theorem bounded (h : Beside made s t) (hs : Bounded s.code s.code.size) : Bounded t.code t.code.size := by
  intro i x hx hj
  by_cases hi : i < s.code.size
  · exact Nat.le_trans (hs i x (h.kept i x hi hx hj) hj) h.grows
  · exact h.fresh i x (Nat.le_of_not_lt hi) hx hj

/-- A step that leaves the code alone. -/
theorem still (hb : t.blocks = s.blocks) (hc : t.code = s.code) (hf : Filed t)
    (hm : ∀ c, .thunk c ∈ made ∨ .body c ∈ made → Whole c) : Beside made s t where
  blocks := hb
  grows := Nat.le_of_eq (by rw [hc])
  kept := by
    intro i x _ hx _
    rwa [hc] at hx
  fresh := by
    intro i x hi hx _
    rw [hc, Array.getElem?_eq_none hi] at hx
    cases hx
  filed := hf
  made := hm

/-- What comes of the last instruction is no jump, so taking it back for another one, or changing it,
moves no jump. -/
theorem last (h : Beside made s t) (code : Code) (line : Nat) (hsize : code.size = t.code.size)
    (hcode : ∀ (i : Nat) (x : Instruction), code[i]? = some x → x.op.isJump = true → t.code[i]? = some x) :
    Beside made s { t with buffer := ⟨code, line⟩ } where
  blocks := h.blocks
  grows := by
    show s.code.size ≤ code.size
    rw [hsize]
    exact h.grows
  kept := fun i x hi hx hj => h.kept i x hi (hcode i x hx hj) hj
  fresh := by
    intro i x hi hx hj
    show x.p2 ≤ code.size
    rw [hsize]
    exact h.fresh i x hi (hcode i x hx hj) hj
  filed := h.filed.congr rfl rfl rfl rfl
  made := h.made

end Beside

/-! ### The moves of code that computes values -/

namespace Beside

variable {made made' : List Made} {s t u : GenState}

theorem refl (hs : Filed s) : Beside [] s s :=
  still rfl rfl hs fun c hc => by rcases hc with hc | hc <;> exact absurd hc (List.not_mem_nil)

theorem quiet (hs : Filed s) (h : Quiet s t) : Beside [] s t := by
  refine still h.blocks h.code (hs.congr (by rw [h.blocks]) h.stock h.statics h.left) ?_
  intro c hc
  rcases hc with hc | hc <;> exact absurd hc (List.not_mem_nil)

/-- An instruction with a target up to the end behind it. -/
theorem emit (hs : Filed s) (op : Opcode) (p1 : Int) (p3 : Operand) : Beside [] s (after (emit op p1 0 p3) s) := by
  rw [after_emit]
  refine ⟨rfl, ?_, ?_, ?_, hs.congr rfl rfl rfl rfl, ?_⟩
  · simp
  · intro i x hi hx _
    have hx' : (s.code.push _)[i]? = some x := hx
    rwa [Array.getElem?_push, if_neg (Nat.ne_of_lt hi)] at hx'
  · intro i x hi hx _
    have hx' : (s.code.push _)[i]? = some x := hx
    rw [Array.getElem?_push] at hx'
    split at hx'
    · cases hx'
      exact Nat.zero_le _
    · rw [Array.getElem?_eq_none hi] at hx'
      cases hx'
  · intro c hc
    rcases hc with hc | hc <;> exact absurd hc (List.not_mem_nil)

theorem put (hs : Filed s) {op : Opcode} (hop : op.isPlain = true) (p1 : Int) (p2 : Nat) (p3 : Operand) :
    Beside [] s (after (put op p1 p2 p3) s) := by
  have hjump : op.isJump = false := by
    unfold Opcode.isPlain at hop
    simp at hop
    exact hop.1.1
  rw [after_put]
  have last := (emit hs op p1 p3).last (s.code.push ⟨op, p1, p2, p3, s.buffer.line⟩) s.buffer.line
    (by rw [after_emit, Array.size_push, Array.size_push]) ?_
  · exact last
  · intro i x hx hj
    rw [after_emit]
    show (s.code.push _)[i]? = some x
    rw [Array.getElem?_push] at hx ⊢
    split at hx
    · cases hx
      rw [hjump] at hj
      cases hj
    · rw [if_neg ‹_›]
      exact hx

theorem rewrite (h : Beside made s t) {last : Instruction} (hlast : t.code.back? = some last) {op : Opcode}
    (hop : op.isPlain = true) (p1 : Int) (p2 : Nat) (p3 : Operand) :
    Beside made s (after (Gen.put op p1 p2 p3) (after takeBack t)) := by
  have hjump : op.isJump = false := by
    unfold Opcode.isPlain at hop
    simp at hop
    exact hop.1.1
  have hpos : 0 < t.code.size := by
    rcases Nat.eq_zero_or_pos t.code.size with h0 | h0
    · rw [Array.back?_eq_getElem?, Array.getElem?_eq_none (by omega)] at hlast
      cases hlast
    · exact h0
  rw [after_put, after_takeBack]
  refine h.last _ _ ?_ ?_
  · rw [Array.size_push, Array.size_pop]
    omega
  · intro i x hx hj
    rw [Array.getElem?_push] at hx
    split at hx
    · cases hx
      rw [hjump] at hj
      cases hj
    · rw [Array.getElem?_pop] at hx
      split at hx
      · exact hx
      · cases hx

theorem mark (h : Beside made s t) : Beside made s (after markCallee t) := by
  unfold markCallee
  rw [after_modifyLast]
  refine h.last _ _ (Array.size_modify ..) ?_
  intro i x hx hj
  rw [Array.getElem?_modify] at hx
  split at hx
  · obtain ⟨y, hy, rfl⟩ := Option.map_eq_some_iff.mp hx
    refine hy.trans (congrArg some ?_)
    -- What is marked is a name, a member or an object, and none of them jumps.
    split <;> rename_i hop
    · simp only [hop] at hj
      cases hj
    · simp only [hop] at hj
      cases hj
    · simp only [hop] at hj
      cases hj
    · rfl
  · exact hx

/-- Behind the code it skips, a jump over it is filled in. -/
theorem land (h : Beside made s t) {i : Nat} (hi : s.code.size ≤ i) :
    Beside made s (after (landHere i) t) := by
  rw [after_landHere]
  have hsize : (t.code.patch i t.code.size).size = t.code.size := Code.size_patch ..
  refine ⟨h.blocks, ?_, ?_, ?_, h.filed.congr rfl rfl rfl rfl, h.made⟩
  · show s.code.size ≤ (t.code.patch i t.code.size).size
    rw [hsize]
    exact h.grows
  · intro k x hk hx hj
    have hx' : (t.code.patch i t.code.size)[k]? = some x := hx
    rw [Code.getElem?_patch, if_neg (by omega)] at hx'
    exact h.kept k x hk hx' hj
  · intro k x hk hx hj
    show x.p2 ≤ (t.code.patch i t.code.size).size
    have hx' : (t.code.patch i t.code.size)[k]? = some x := hx
    rw [hsize]
    rw [Code.getElem?_patch] at hx'
    split at hx'
    · obtain ⟨y, -, rfl⟩ := Option.map_eq_some_iff.mp hx'
      exact Nat.le_refl _
    · exact h.fresh k x hk hx' hj

theorem discard (h : Beside made s t) :
    Beside made s { t with buffer := { t.buffer with code := t.code.take s.code.size } } := by
  have hsize : (t.code.take s.code.size).size = s.code.size := by
    have := h.grows
    rw [Array.take_eq_extract, Array.size_extract]
    omega
  refine ⟨h.blocks, Nat.le_of_eq hsize.symm, ?_, ?_, h.filed.congr rfl rfl rfl rfl, h.made⟩
  · intro i x hi hx hj
    have hx' : (t.code.take s.code.size)[i]? = some x := hx
    rw [Array.take_eq_extract, Array.getElem?_extract, Nat.zero_add] at hx'
    split at hx'
    · exact h.kept i x hi hx' hj
    · cases hx'
  · intro i x hi hx hj
    have hx' : (t.code.take s.code.size)[i]? = some x := hx
    rw [Array.getElem?_eq_none (by omega)] at hx'
    cases hx'

/-- Everything generated in an empty container points no further than its end. -/
theorem bounded_empty (h : Beside made (after openContainer s) t) : Bounded t.code t.code.size :=
  h.bounded fun i x hx => by rw [after_openContainer] at hx; simp at hx

theorem thunk (h : Beside made (after openContainer s) t) (p1 : Int) :
    Beside (made ++ [Made.thunk (after (Gen.put .done p1 1 .none) t).code]) s
      (after (closeContainer s.container) (after (Gen.put .done p1 1 .none) t)) := by
  refine still h.blocks rfl (h.filed.congr rfl rfl rfl rfl) fun c hc => ?_
  have done := h.bounded_empty.whole p1 1 .none t.buffer.line
  rcases hc with hc | hc
  · rcases List.mem_append.mp hc with hc | hc
    · exact h.made c (.inl hc)
    · cases List.mem_singleton.mp hc
      exact done
  · rcases List.mem_append.mp hc with hc | hc
    · exact h.made c (.inr hc)
    · cases List.mem_singleton.mp hc

theorem statics (h : Beside made { s with statics := [] :: s.statics } t) :
    Beside (made ++ (t.statics.headD []).map fun v => Made.thunk v.init) s
      { t with statics := t.statics.tail } where
  blocks := h.blocks
  grows := h.grows
  kept := h.kept
  fresh := h.fresh
  filed := by
    refine ⟨h.filed.root, h.filed.thunks, h.filed.bodies, ?_, h.filed.left⟩
    exact fun frame hf => h.filed.statics frame (List.mem_of_mem_tail hf)
  made := by
    intro c hc
    rcases hc with hc | hc
    · rcases List.mem_append.mp hc with hc | hc
      · exact h.made c (.inl hc)
      · obtain ⟨v, hv, heq⟩ := List.mem_map.mp hc
        cases heq
        exact StaticVar.forall_last h.filed.statics v hv
    · rcases List.mem_append.mp hc with hc | hc
      · exact h.made c (.inr hc)
      · obtain ⟨v, -, heq⟩ := List.mem_map.mp hc
        cases heq

theorem static (h : Beside made s t) {v : StaticVar}
    (hv : made = [.thunk v.init] ∨ made = [] ∧ v.init = #[]) {frame : List StaticVar}
    {frames : List (List StaticVar)} (hs : t.statics = frame :: frames) :
    Beside [] s { t with statics := (frame ++ [v]) :: frames } where
  blocks := h.blocks
  grows := h.grows
  kept := h.kept
  fresh := h.fresh
  filed := by
    refine ⟨h.filed.root, h.filed.thunks, h.filed.bodies, ?_, h.filed.left⟩
    have old := h.filed.statics
    rw [hs] at old
    have hinit : Whole v.init := by
      rcases hv with rfl | ⟨-, hv⟩
      · exact h.made _ (.inl (List.mem_singleton.mpr rfl))
      · rw [hv]
        exact whole_empty
    exact StaticVar.forall_add old hinit
  made := by
    intro c hc
    rcases hc with hc | hc <;> exact absurd hc (List.not_mem_nil)

theorem owned {tags : List BlockTag} {first : Nat} {owner : BlockOwner} (hs : Filed s)
    (h : Beside made (after (enter tags first owner none) s) t) : Beside made s (after leave t) := by
  have hin := innermost_enter tags first owner none s
  rw [← h.blocks] at hin
  refine ⟨?_, h.grows, h.kept, h.fresh, h.filed.leave hin hs.stack ⟨rfl, rfl⟩, h.made⟩
  have hsize := hin.size
  rw [after_leave]
  show t.blocks.leave = s.blocks
  unfold BlockStack.leave
  rw [if_neg (by have := hs.stack; omega), h.blocks, after_enter]
  simp

theorem file (h : Beside made s t) {q : Program} (hq : Files made t.program q) :
    Beside [] s { t with program := q } where
  blocks := h.blocks
  grows := h.grows
  kept := h.kept
  fresh := h.fresh
  filed := by
    refine ⟨h.filed.root, ?_, ?_, h.filed.statics, h.filed.left⟩
    · intro c hc
      rcases hq.stock.thunks c hc with hc | hc
      · exact h.filed.thunks c hc
      · exact h.made c (.inl hc)
    · intro c hc
      rcases hq.stock.bodies c hc with hc | hc | rfl
      · exact h.filed.bodies c hc
      · exact h.made c (.inr hc)
      · exact whole_empty
  made := by
    intro c hc
    rcases hc with hc | hc <;> exact absurd hc (List.not_mem_nil)

end Beside

/-! ### Statements -/

/-- What waits on a block lies in code of some length.  Constructs wait on blocks of their own; on any
other block only a thrown exception waits, and then it is one that ends a body. -/
structure Anchored (n : Nat) (b : Block) : Prop where
  first : b.first ≤ n
  pending : ∀ j ∈ b.pending, j.index < n
  deferred : ∀ i ∈ b.deferred.getD [], i < n
  waits : b.hasAny [.loop, .conditional, .exception, .function, .global] = false → b.pending = []
  throws : b.hasAny [.loop, .conditional, .exception] = false → ∀ j ∈ b.pending, j.op = .throw
  guards : b.isBoundary = true → b.hasAny [.exception, .function] = true

theorem Anchored.mono {m n : Nat} {b : Block} (h : Anchored m b) (hmn : m ≤ n) : Anchored n b where
  first := Nat.le_trans h.first hmn
  pending := fun j hj => Nat.lt_of_lt_of_le (h.pending j hj) hmn
  deferred := fun i hi => Nat.lt_of_lt_of_le (h.deferred i hi) hmn
  waits := h.waits
  throws := h.throws
  guards := h.guards

/-- When all jumps are filled in, or those of exceptions where no others wait, none is left waiting. -/
theorem Anchored.settled {code : Code} {b : Block} (h : Anchored code.size b) {op : Option Opcode}
    (hop : op = none ∨ op = some .throw ∧ b.hasAny [.loop, .conditional, .exception] = false) :
    (b.pending.filter fun j => !BlockStack.settles op code j) = [] := by
  refine List.filter_eq_nil_iff.mpr fun j hj => ?_
  rcases hop with rfl | ⟨rfl, hnone⟩
  · simp [BlockStack.settles, h.pending j hj]
  · simp [BlockStack.settles, h.pending j hj, h.throws hnone j hj]

/-- A state in the middle of statements. -/
structure Open (s : GenState) : Prop where
  jumps : Bounded s.code s.code.size
  blocks : ∀ id b, s.blocks.get? id = some b → s.blocks.Reaches id → Anchored s.code.size b

namespace Open

variable {s t : GenState} {id : Nat} {b : Block}

/-- Code that computes values may follow anywhere. -/
theorem beside {made : List Made} (h : Open s) (hb : Beside made s t) : Open t where
  jumps := hb.bounded h.jumps
  blocks := by
    rw [hb.blocks]
    exact fun id b hid hr => (h.blocks id b hid hr).mono hb.grows

theorem put (h : Open s) (op : Opcode) (p1 : Int) (p2 : Nat) (p3 : Operand)
    (hp : op.isJump = true → p2 ≤ s.code.size) : Open (after (put op p1 p2 p3) s) := by
  rw [after_put]
  have hle : s.code.size ≤ (s.code.push ⟨op, p1, p2, p3, s.buffer.line⟩).size := by
    rw [Array.size_push]
    exact Nat.le_succ _
  refine ⟨?_, fun id b hid hr => (h.blocks id b hid hr).mono hle⟩
  exact (h.jumps.mono hle).push fun hj => Nat.le_trans (hp hj) hle

/-- A change to one block that keeps its shape. -/
theorem modify (h : Open s) (id : Nat) (f : Block → Block) (hshape : ∀ b, (f b).shape = b.shape)
    (hf : ∀ b, s.blocks.get? id = some b → s.blocks.Reaches id → Anchored s.code.size (f b)) :
    Open { s with blocks := s.blocks.modify id f } where
  jumps := h.jumps
  blocks := by
    intro k c hc hr
    have hr' : s.blocks.Reaches k :=
      (BlockStack.reaches_congr (s.blocks.shapes_modify id f hshape) k).mp hr
    rw [BlockStack.get?_modify] at hc
    split at hc
    · rename_i hk
      subst hk
      obtain ⟨b, hb, rfl⟩ := Option.map_eq_some_iff.mp hc
      exact hf b hb hr'
    · exact h.blocks k c hc hr'

/-- A jump that waits on a block may do so. -/
theorem await (h : Open s) {op : Opcode} (p3 : Operand)
    (hw : ∀ b, s.blocks.get? id = some b → b.hasAny [.loop, .conditional, .exception] = true ∨
      op = .throw ∧ b.hasAny [.loop, .conditional, .exception, .function, .global] = true) :
    Open (after (await id op p3) s) := by
  have pushed := h.put op 0 0 p3 fun _ => Nat.zero_le _
  have step := pushed.modify id (fun b => { b with pending := b.pending ++ [⟨op, s.code.size⟩] })
    (fun _ => rfl) fun b hb hr => ?_
  · exact step
  have anchored := pushed.blocks id b hb hr
  have hsize : (after (Gen.put op 0 0 p3) s).code.size = s.code.size + 1 := by
    rw [after_put]
    exact Array.size_push _
  rw [hsize] at anchored ⊢
  refine ⟨anchored.first, ?_, anchored.deferred, ?_, ?_, anchored.guards⟩
  · intro j hj
    rcases List.mem_append.mp hj with hj | hj
    · exact anchored.pending j hj
    · rw [List.mem_singleton.mp hj]
      exact Nat.lt_succ_self _
  · intro hnone
    rcases hw b hb with hany | ⟨-, hany⟩
    · simp only [Block.hasAny, List.any_cons, List.any_nil, Bool.or_false] at hnone hany
      grind
    · exact absurd (hany.symm.trans hnone) (by decide)
  · intro hnone j hj
    rcases List.mem_append.mp hj with hj | hj
    · exact anchored.throws hnone j hj
    · rcases hw b hb with hany | ⟨rfl, -⟩
      · exact absurd (hany.symm.trans hnone) (by decide)
      · rw [List.mem_singleton.mp hj]

theorem awaitContinue (h : Open s) : Open (after (awaitContinue id) s) := by
  have pushed := h.put .jmp 0 0 .none fun _ => Nat.zero_le _
  have step := pushed.modify id (fun b => { b with deferred := b.deferred.map (· ++ [s.code.size]) })
    (fun b => by simp [Block.shape]) fun b hb hr => ?_
  · exact step
  have anchored := pushed.blocks id b hb hr
  have hsize : (after (Gen.put .jmp 0 0 .none) s).code.size = s.code.size + 1 := by
    rw [after_put]
    exact Array.size_push _
  rw [hsize] at anchored ⊢
  refine ⟨anchored.first, anchored.pending, ?_, anchored.waits, anchored.throws, anchored.guards⟩
  intro i hi
  cases hd : b.deferred with
  | none =>
      rw [hd] at hi
      exact absurd hi (List.not_mem_nil)
  | some is =>
      have old := anchored.deferred
      rw [hd] at hi old
      rcases List.mem_append.mp hi with hi | hi
      · exact old i hi
      · rw [List.mem_singleton.mp hi]
        exact Nat.lt_succ_self _

/-- Filling in the jumps that wait on a block. -/
theorem settle (h : Open s) (id : Nat) (op : Option Opcode) : Open (after (settle id op) s) := by
  have step := h.modify id
    (fun b => { b with pending := b.pending.filter fun j => !BlockStack.settles op s.code j })
    (fun _ => rfl) fun b hb hr => ?_
  · rw [after_settle]
    have hsize := s.blocks.size_settle id op s.code.size s.code
    refine ⟨?_, ?_⟩
    · show Bounded (s.blocks.settle id op s.code.size s.code).2.2 _
      rw [hsize]
      exact h.jumps.fill (Nat.le_refl _) PendingJump.index _
    · show ∀ id b, _ → _ → Anchored (s.blocks.settle _ op s.code.size s.code).2.2.size b
      rw [hsize]
      exact step.blocks
  have anchored := h.blocks id b hb hr
  refine ⟨anchored.first, ?_, anchored.deferred, ?_, ?_, anchored.guards⟩
  · exact fun j hj => anchored.pending j (List.mem_filter.mp hj).1
  · intro hnone
    show b.pending.filter _ = []
    rw [anchored.waits hnone, List.filter_nil]
  · exact fun hnone j hj => anchored.throws hnone j (List.mem_filter.mp hj).1

theorem settleContinue (h : Open s) (id : Nat) : Open (after (settleContinue id) s) := by
  have step := h.modify id (fun b => { b with deferred := b.deferred.map fun _ => [] })
    (fun b => by simp [Block.shape]) fun b hb hr => ?_
  · rw [after_settleContinue]
    have hsize := s.blocks.size_settleContinue id s.code.size s.code
    refine ⟨?_, ?_⟩
    · show Bounded (s.blocks.settleContinue id s.code.size s.code).2.2 _
      rw [hsize]
      exact h.jumps.fill (Nat.le_refl _) (fun i => i) _
    · show ∀ id b, _ → _ → Anchored (s.blocks.settleContinue _ s.code.size s.code).2.2.size b
      rw [hsize]
      exact step.blocks
  have anchored := h.blocks id b hb hr
  refine ⟨anchored.first, anchored.pending, ?_, anchored.waits, anchored.throws, anchored.guards⟩
  intro i hi
  cases hd : b.deferred <;> rw [hd] at hi <;> exact absurd hi (List.not_mem_nil)

theorem restartHere (h : Open s) (id : Nat) : Open (after (restartHere id) s) := by
  rw [after_restartHere]
  refine h.modify id _ (fun _ => rfl) fun b hb hr => ?_
  have anchored := h.blocks id b hb hr
  exact ⟨Nat.le_refl _, anchored.pending, anchored.deferred, anchored.waits, anchored.throws, anchored.guards⟩

/-- Entering a block that hides none of those around it. -/
theorem enter (h : Open s) (tags : List BlockTag) {first : Nat} (hf : first ≤ s.code.size)
    (owner : BlockOwner) (deferred : Option (List Nat)) (hd : deferred.getD [] = [])
    (ht : tags.contains .guarded = false ∧ tags.contains .function = false) :
    Open (after (enter tags first owner deferred) s) := by
  rw [after_enter]
  have hin : ∀ {id : Nat} {b : Block}, s.blocks.get? id = some b → id < s.blocks.blocks.size := by
    intro id b hb
    exact (Array.getElem?_eq_some_iff.mp hb).1
  refine ⟨h.jumps, ?_⟩
  · intro id b hb hr
    rw [BlockStack.get?_push] at hb
    split at hb
    · cases hb
      refine ⟨hf, fun j hj => absurd hj (List.not_mem_nil), ?_, fun _ => rfl,
        fun _ j hj => absurd hj (List.not_mem_nil), fun hg => ?_⟩
      · show ∀ i ∈ deferred.getD [], _
        rw [hd]
        exact fun i hi => absurd hi (List.not_mem_nil)
      · have hg' : tags.contains BlockTag.guarded = true ∨ tags.contains BlockTag.function = true := by
          simpa [Block.isBoundary, Block.hasAny] using hg
        rw [ht.1, ht.2] at hg'
        rcases hg' with hg' | hg' <;> cases hg'
    · exact h.blocks id b hb ((s.blocks.reaches_push _ (hin hb)).mp hr).2

theorem construct (h : Open s) {tags : List BlockTag} {deferred : Option (List Nat)}
    (ht : IsConstruct tags deferred) : Open (after (Gen.enter tags s.code.size .none deferred) s) :=
  h.enter tags (Nat.le_refl _) .none deferred ht.undeferred ht.hides

/-- Leaving a block that hid none of those around it. -/
theorem leave (h : Open s) (hb : s.blocks.Innermost id b) (hid : 0 < id) (hn : b.isBoundary = false) :
    Open (after leave s) := by
  have hsize := hb.size
  have hget := BlockStack.get?_leave s.blocks (by omega)
  rw [after_leave]
  refine ⟨h.jumps, ?_⟩
  · intro k c hc hr
    rw [hget] at hc
    split at hc
    · refine h.blocks k c hc fun m d hm hd => ?_
      by_cases hlast : m = id
      · rw [hlast, hb.block] at hd
        cases hd
        exact hn
      · refine hr m d hm ?_
        have hlt := (Array.getElem?_eq_some_iff.mp hd).1
        rw [hget, if_pos (by omega)]
        exact hd
    · cases hc

end Open

/-- What statements do to the first `n` blocks: those that cannot be reached stay as they were, and none
starts anywhere else. -/
structure Within (n : Nat) (s t : GenState) : Prop where
  opened : Open t
  filed : Filed t
  shapes : t.blocks.shapes = s.blocks.shapes
  below : ∀ id < n, ¬s.blocks.Reaches id → t.blocks.get? id = s.blocks.get? id
  firsts : ∀ id < n, (t.blocks.get? id).map Block.first = (s.blocks.get? id).map Block.first

namespace Within

variable {s t u : GenState} {n id : Nat} {b : Block}

theorem trans (h : Within n s t) (h' : Within n t u) : Within n s u where
  opened := h'.opened
  filed := h'.filed
  shapes := h'.shapes.trans h.shapes
  below := by
    intro id hn hid
    rw [h'.below id hn fun hr => hid ((BlockStack.reaches_congr h.shapes id).mp hr), h.below id hn hid]
  firsts := fun id hn => (h'.firsts id hn).trans (h.firsts id hn)

theorem size (h : Within n s t) : t.blocks.blocks.size = s.blocks.blocks.size := by
  have := congrArg Array.size h.shapes
  simpa [BlockStack.shapes] using this

theorem mono {m : Nat} (h : Within n s t) (hmn : m ≤ n) : Within m s t where
  opened := h.opened
  filed := h.filed
  shapes := h.shapes
  below := fun id hid => h.below id (Nat.lt_of_lt_of_le hid hmn)
  firsts := fun id hid => h.firsts id (Nat.lt_of_lt_of_le hid hmn)

/-- Statements behind others do not reach more blocks than these. -/
theorem seq (h : Within n s t) (h' : Within t.blocks.blocks.size t u) (hn : n ≤ s.blocks.blocks.size) : Within n s u :=
  h.trans (h'.mono (Nat.le_trans hn (Nat.le_of_eq h.size.symm)))

/-- A step that leaves the blocks alone. -/
theorem still (ho : Open t) (hf : Filed t) (ht : t.blocks = s.blocks) : Within n s t where
  opened := ho
  filed := hf
  shapes := by rw [ht]
  below := fun _ _ _ => by rw [ht]
  firsts := fun _ _ => by rw [ht]

theorem beside {made : List Made} (ho : Open s) (h : Beside made s t) : Within n s t :=
  still (ho.beside h) h.filed h.blocks

/-- A change to a block that can be reached. -/
theorem modify (ho : Open t) (hf : Filed t) {f : Block → Block} (ht : t.blocks = s.blocks.modify id f)
    (hr : s.blocks.Reaches id) (hshape : ∀ b, (f b).shape = b.shape)
    (hfirst : id < n → ∀ b, (f b).first = b.first) : Within n s t where
  opened := ho
  filed := hf
  shapes := by
    rw [ht]
    exact s.blocks.shapes_modify id f hshape
  below := by
    intro k hn hk
    rw [ht, BlockStack.get?_modify, if_neg]
    rintro rfl
    exact hk hr
  firsts := by
    intro k hn
    rw [ht, BlockStack.get?_modify]
    split
    · rename_i hk
      rw [Option.map_map]
      congr 1
      funext b
      exact hfirst (hk ▸ hn) b
    · rfl

theorem put (h : Within n s t) (op : Opcode) (p1 : Int) (p2 : Nat) (p3 : Operand)
    (hp : op.isJump = true → p2 ≤ t.code.size) : Within n s (after (Gen.put op p1 p2 p3) t) :=
  h.trans (still (h.opened.put op p1 p2 p3 hp) (h.filed.congr rfl rfl rfl rfl) rfl)

/-- A change to a block that was not there before. -/
theorem own (h : Within n s t) (ho : Open u) (hf : Filed u) {f : Block → Block}
    (hu : u.blocks = t.blocks.modify id f) (hid : n ≤ id) (hshape : ∀ b, (f b).shape = b.shape) :
    Within n s u where
  opened := ho
  filed := hf
  shapes := by
    rw [hu, t.blocks.shapes_modify id f hshape]
    exact h.shapes
  below := by
    intro k hk
    rw [hu, BlockStack.get?_modify, if_neg (by omega)]
    exact h.below k hk
  firsts := by
    intro k hk
    rw [hu, BlockStack.get?_modify, if_neg (by omega)]
    exact h.firsts k hk

end Within

/-! ### Blocks that are entered and left -/

namespace Within

variable {s t : GenState} {tags : List BlockTag} {first : Nat} {owner : BlockOwner}
  {deferred : Option (List Nat)}

/-- The innermost block is the one that was entered. -/
theorem innermost {n : Nat} (h : Within n (after (enter tags first owner deferred) s) t) :
    ∃ b, t.blocks.Innermost s.blocks.blocks.size b ∧ b.tags = tags ∧ (deferred = none → b.deferred = none) := by
  obtain ⟨b, hb, hshape⟩ := (innermost_enter tags first owner deferred s).congr h.shapes
  exact ⟨b, hb, congrArg Prod.fst hshape, Block.undeferred_congr hshape⟩

theorem await {n : Nat} (h : Within n (after (enter tags first owner deferred) s) t) (op : Opcode)
    (p3 : Operand) (ht : tags.any [.loop, .conditional, .exception].contains = true)
    (hn : n ≤ s.blocks.blocks.size) : Within n (after (enter tags first owner deferred) s)
      (after (Gen.await s.blocks.blocks.size op p3) t) := by
  refine h.own (h.opened.await p3 fun b hb => .inl ?_) (h.filed.await _ op p3) rfl hn fun _ => rfl
  obtain ⟨c, hc, htags, -⟩ := h.innermost
  rw [hc.block] at hb
  cases hb
  exact Block.hasAny_of_tags htags ht

theorem settle {n : Nat} (h : Within n (after (enter tags first owner deferred) s) t) (op : Option Opcode)
    (hn : n ≤ s.blocks.blocks.size) : Within n (after (enter tags first owner deferred) s)
      (after (Gen.settle s.blocks.blocks.size op) t) :=
  h.own (h.opened.settle _ op) (h.filed.settle _ op) rfl hn fun _ => rfl

theorem restartHere {n : Nat} (h : Within n (after (enter tags first owner deferred) s) t)
    (hn : n ≤ s.blocks.blocks.size) : Within n (after (enter tags first owner deferred) s)
      (after (Gen.restartHere s.blocks.blocks.size) t) :=
  h.own (h.opened.restartHere _) (h.filed.modify rfl (fun _ => rfl) rfl rfl rfl) rfl hn fun _ => rfl

/-- Leaving a block on which nothing waits, and which hid none of those around it. -/
theorem left (h : Within s.blocks.blocks.size (after (enter tags first owner deferred) s) t) (hs : Filed s)
    (ht : tags.contains .guarded = false ∧ tags.contains .function = false)
    (hw : ∀ b, t.blocks.get? s.blocks.blocks.size = some b → b.Settled) :
    Within s.blocks.blocks.size s (after leave t) := by
  obtain ⟨b, hb, htags, -⟩ := h.innermost
  have hn : b.isBoundary = false := by
    simp [Block.isBoundary, Block.hasAny, htags]
    simpa using ht
  have hpush : ∀ id < s.blocks.blocks.size,
      (after (enter tags first owner deferred) s).blocks.get? id = s.blocks.get? id := by
    intro id hid
    rw [after_enter, BlockStack.get?_push, if_neg (Nat.ne_of_lt hid)]
  have hkept : ∀ id < s.blocks.blocks.size, (after leave t).blocks.get? id = t.blocks.get? id := by
    intro id hid
    have hsize := hb.size
    rw [after_leave, BlockStack.get?_leave _ (by omega), if_pos (by omega)]
  refine ⟨h.opened.leave hb hs.stack hn, h.filed.leave hb hs.stack (hw b hb.block), ?_, ?_, ?_⟩
  · exact BlockStack.shapes_leave hs.stack h.shapes
  · intro id hid hr
    rw [hkept id hid, h.below id hid fun hr' => hr ((s.blocks.reaches_push _ hid).mp hr').2, hpush id hid]
  · intro id hid
    rw [hkept id hid, h.firsts id hid, hpush id hid]

/-- The end of a construct: nothing waits on its block when it is left. -/
theorem exitBlock (h : Within s.blocks.blocks.size (after (enter tags first owner deferred) s) t)
    (hs : Filed s) (ht : tags.contains .guarded = false ∧ tags.contains .function = false) :
    Within s.blocks.blocks.size s (t.exitBlock s.blocks.blocks.size) := by
  obtain ⟨b, hb, -⟩ := h.innermost
  have settled := h.settle none (Nat.le_refl _)
  have b1 := hb.settle none
  rw [(h.opened.blocks _ b hb.block hb.reaches).settled (.inl rfl)] at b1
  have both := settled.own (settled.opened.settleContinue _) (settled.filed.settleContinue _) rfl
    (Nat.le_refl _) fun b => by simp [Block.shape]
  refine both.left hs ht fun c hc => ?_
  rw [b1.settleContinue.block] at hc
  cases hc
  refine ⟨rfl, ?_⟩
  cases hd : b.deferred <;> rfl

/-- Nothing ever waits on braces. -/
theorem braces (h : Within s.blocks.blocks.size (after (enter [.braces] first owner none) s) t) (hs : Filed s) :
    Within s.blocks.blocks.size s (after leave t) := by
  refine h.left hs ⟨by decide, by decide⟩ fun b hb => ?_
  obtain ⟨c, hc, htags, hdeferred⟩ := h.innermost
  obtain rfl : c = b := Option.some.inj (hc.block.symm.trans hb)
  refine ⟨(h.opened.blocks _ c hc.block hc.reaches).waits (by rw [Block.hasAny, htags]; decide), ?_⟩
  rw [hdeferred rfl]
  rfl

/-- A protected body ends where its handler is removed. -/
theorem unprotect (h : Within s.blocks.blocks.size (after (enter [.exception] first owner none) s) t) (hs : Filed s)
    (p3 : Operand) : Within s.blocks.blocks.size s
      (after leave (after (Gen.put .popException 0 0 p3) (after (Gen.settle s.blocks.blocks.size none) t))) := by
  obtain ⟨b, hb, -, hdeferred⟩ := h.innermost
  have hsettled := (hb.settle none).block
  rw [(h.opened.blocks _ b hb.block hb.reaches).settled (.inl rfl)] at hsettled
  have closed := (h.settle none (Nat.le_refl _)).put .popException 0 0 p3 fun _ => Nat.zero_le _
  refine closed.left hs ⟨by decide, by decide⟩ fun c hc => ?_
  rw [after_put, hsettled] at hc
  cases hc
  refine ⟨rfl, ?_⟩
  rw [hdeferred rfl]
  rfl

end Within

/-! ### A whole run -/

/-- What a run of a kind keeps. -/
def Sound : Kind → GenState → GenState → Prop
  | .value made, s, t => Filed s → Beside made s t
  | .flow, s, t => Filed s → Open s → Within s.blocks.blocks.size s t
  | .sections before after, s, t => Filed s → Open s → (∀ e ∈ before.cases, Whole e.guard) →
      Within s.blocks.blocks.size s t ∧ ∀ e ∈ after.cases, Whole e.guard

/-- The container of a body starts out open. -/
theorem open_body {s : GenState} {id : Nat} {b : Block} {op : Option Opcode}
    (hb : s.blocks.Innermost id b) (hop : IsBody b op) : Open (after openContainer s) := by
  rw [after_openContainer]
  refine ⟨fun i x hx => by simp at hx, fun k c hc hr => ?_⟩
  obtain ⟨-, rfl⟩ := hop.reached hb hc hr
  refine ⟨Nat.le_of_eq hop.first, ?_, ?_, fun _ => hop.pending, ?_, fun _ => ?_⟩
  · rw [hop.pending]
    exact fun j hj => absurd hj (List.not_mem_nil)
  · rw [hop.deferred]
    exact fun i hi => absurd hi (List.not_mem_nil)
  · rw [hop.pending]
    exact fun _ j hj => absurd hj (List.not_mem_nil)
  · rcases hop.tags with ⟨htags, -⟩ | ⟨htags, -⟩ <;> rw [Block.hasAny, htags] <;> rfl

/-- Statements in a container of their own. -/
theorem Beside.body {s t : GenState} {id : Nat} {b : Block} {op : Option Opcode}
    (hb : s.blocks.Innermost id b) (hop : IsBody b op)
    (h : Within s.blocks.blocks.size (after openContainer s) t) :
    Beside [.body (after (Gen.put .done 0 0 .none) (after (settle id op) t)).code] s
      (after (closeContainer s.container) (after (Gen.put .done 0 0 .none) (after (settle id op) t))) := by
  obtain ⟨b', hb', hshape⟩ := hb.congr h.shapes
  have anchored := h.opened.blocks id b' hb'.block hb'.reaches
  have hsettled := (hb'.settle op).block
  rw [anchored.settled (by rw [Block.hasAny_congr hshape]; exact hop.settles)] at hsettled
  have hfirst : b'.first = b.first := by
    have := h.firsts id (by rw [hb.size]; exact Nat.lt_succ_self id)
    rw [hb'.block, after_openContainer, hb.block] at this
    exact Option.some.inj this
  have hsame : { b' with pending := [] } = b :=
    Block.eq_of_shape hshape hfirst hop.pending.symm hop.deferred
  have hblocks : (after (settle id op) t).blocks = s.blocks := by
    refine BlockStack.ext_get? fun k => ?_
    by_cases hk : id = k
    · subst hk
      rw [hsettled, hsame, hb.block]
    · refine (BlockStack.get?_modify ..).trans ?_
      rw [if_neg hk]
      rcases Nat.lt_or_gt_of_ne hk with hk | hk
      · rw [BlockStack.get?, BlockStack.get?, Array.getElem?_eq_none, Array.getElem?_eq_none]
        · rw [hb.size]
          exact hk
        · rw [hb'.size]
          exact hk
      · refine h.below k (by rw [hb.size]; omega) fun hr => ?_
        exact absurd ((hr id b hk hb.block).symm.trans hop.isBoundary) (by decide)
  refine Beside.still hblocks rfl ?_ ?_
  · exact (h.filed.settle id op).congr rfl rfl rfl rfl
  · intro c hc
    rcases hc with hc | hc
    · cases List.mem_singleton.mp hc
    · cases List.mem_singleton.mp hc
      exact (h.opened.settle id op).jumps.whole 0 0 .none _

/-- A `break` or `continue` on a loop. -/
theorem Within.jumpOn {s : GenState} {id : Nat} {b : Block} (hs : Filed s) (ho : Open s) (jump : LoopJump)
    (hb : s.blocks.get? id = some b) (hr : s.blocks.Reaches id) (hloop : b.hasAny [.loop] = true) :
    Within s.blocks.blocks.size s (after (jumpOn jump id b) (after (recordJump id) s)) := by
  have hs' : Filed (after (recordJump id) s) := hs.congr rfl rfl rfl rfl
  have ho' : Open (after (recordJump id) s) := ⟨ho.jumps, ho.blocks⟩
  unfold Gen.jumpOn
  split
  · refine .modify (ho'.await .none fun c hc => .inl ?_) (hs'.await id .jmp .none) rfl hr (fun _ => rfl) fun _ _ => rfl
    rw [after_recordJump, hb] at hc
    cases hc
    exact Block.hasAny_mono (by decide) hloop
  · split
    · exact .modify ho'.awaitContinue (hs'.awaitContinue id) rfl hr (fun b => by simp [Block.shape]) fun _ _ => rfl
    · refine .still (ho'.put .jmp 0 b.first .none fun _ => ?_) (hs'.congr rfl rfl rfl rfl) rfl
      exact (ho.blocks id b hb hr).first

/-- Blocks above which no exception is caught can be reached: what keeps control flow inside also catches
exceptions. -/
theorem Open.reaches {s : GenState} (ho : Open s) {id : Nat}
    (hid : ∀ k b, id < k → s.blocks.get? k = some b → b.hasAny [.exception, .function] = false) :
    s.blocks.Reaches id := by
  -- From the innermost block outwards, each one is seen from inside.
  have outwards : ∀ n k, s.blocks.blocks.size - k ≤ n → id < k → ∀ b, s.blocks.get? k = some b →
      b.isBoundary = false := by
    intro n
    induction n with
    | zero =>
        intro k hk _ b hb
        have := (Array.getElem?_eq_some_iff.mp hb).1
        omega
    | succ n ih =>
        intro k hk hlt b hb
        have hr : s.blocks.Reaches k := by
          intro m c hm hc
          have := (Array.getElem?_eq_some_iff.mp hc).1
          exact ih m (by omega) (by omega) c hc
        refine Bool.not_eq_true _ ▸ fun hg => ?_
        have caught := (ho.blocks k b hb hr).guards hg
        exact absurd (caught.symm.trans (hid k b hlt hb)) (by decide)
  exact fun k b hk hb => outwards _ k (Nat.le_refl _) hk b hb

/-- What an exception waits on can be reached. -/
theorem Open.catches {s : GenState} (ho : Open s) (hs : Filed s) :
    s.blocks.Reaches (s.blocks.nearest [.exception, .function]) ∧
      ∃ b, s.blocks.get? (s.blocks.nearest [.exception, .function]) = some b ∧
        b.hasAny [.loop, .conditional, .exception, .function, .global] = true := by
  have hin : ∀ {k : Nat} {b : Block}, s.blocks.get? k = some b → k < s.blocks.blocks.size := by
    intro k b hb
    exact (Array.getElem?_eq_some_iff.mp hb).1
  have spec := s.blocks.nearestFrom_spec [.exception, .function] s.blocks.blocks.size
  unfold BlockStack.nearest
  cases hn : s.blocks.nearestFrom [.exception, .function] s.blocks.blocks.size with
  | none =>
      obtain ⟨root, hroot, hglobal⟩ := hs.root
      exact ⟨ho.reaches fun k b _ hb => spec.2 hn k b (hin hb) hb, root, hroot, Block.hasAny_mono (by decide) hglobal⟩
  | some id =>
      obtain ⟨⟨c, hc, hany⟩, habove⟩ := spec.1 id hn
      exact ⟨ho.reaches fun k b hk hb => habove k b hk (hin hb) hb, c, hc, Block.hasAny_mono (by decide) hany⟩

theorem Open.throw {s : GenState} (ho : Open s) (hs : Filed s) :
    Open (after (Gen.await (s.blocks.nearest [.exception, .function]) .throw .none) s) := by
  obtain ⟨-, b, hb, hany⟩ := ho.catches hs
  refine ho.await .none fun c hc => .inr ⟨rfl, ?_⟩
  obtain rfl : b = c := Option.some.inj (hb.symm.trans hc)
  exact hany

theorem Run.sound {k : Kind} {s t : GenState} (h : Run k s t) : Sound k s t := by
  induction h with
  | refl s => exact fun hs => Beside.refl hs
  | trans _ _ ih ih' => exact fun hs => (ih hs).trans (ih' (ih hs).filed)
  | quiet h => exact fun hs => Beside.quiet hs h
  | put s hop p1 p2 p3 _ _ => exact fun hs => Beside.put hs hop p1 p2 p3
  | rewrite _ _ hlast hop p1 p2 p3 _ _ ih => exact fun hs => (ih hs).rewrite hlast hop p1 p2 p3
  | mark _ _ ih => exact fun hs => (ih hs).mark
  | @skip _ _ _ op _ _ ih =>
      intro hs
      have jump := Beside.emit hs op 1 .none
      exact (jump.trans (ih jump.filed)).land (Nat.le_refl _)
  | choose _ _ ih ih' =>
      intro hs
      have jump := Beside.emit hs .jmpz 0 .none
      have yes := jump.trans (ih jump.filed)
      have out := (yes.trans (Beside.emit yes.filed .jmp 0 .none)).land (Nat.le_refl _)
      have all := (out.trans (ih' out.filed)).land yes.grows
      simpa using all
  | discard _ ih => exact fun hs => (ih hs).discard
  | thunk p1 _ ih => exact fun hs => (ih (hs.congr rfl rfl rfl rfl)).thunk p1
  | body hb hop _ ih =>
      intro hs
      exact Beside.body hb hop (ih (hs.congr rfl rfl rfl rfl) (open_body hb hop))
  | statics _ ih =>
      intro hs
      exact (ih ⟨hs.root, hs.thunks, hs.bodies, List.forall_mem_cons.mpr ⟨List.forall_mem_nil _, hs.statics⟩,
        hs.left⟩).statics
  | static _ hv hst ih => exact fun hs => (ih hs).static hv hst
  | owned tags first owner _ ih =>
      intro hs
      exact Beside.owned hs (ih (hs.enter tags first owner none))
  | file _ hq ih => exact fun hs => (ih hs).file hq
  | lost _ _ _ ih =>
      intro hs
      have h := ih hs
      exact ⟨h.blocks, h.grows, h.kept, h.fresh, h.filed.congr rfl rfl rfl rfl, fun c hc => by
        rcases hc with hc | hc <;> exact absurd hc (List.not_mem_nil)⟩
  | value _ ih =>
      intro hs ho
      exact .beside ho (ih hs)
  | seq _ _ ih ih' =>
      intro hs ho
      have w := ih hs ho
      exact w.seq (ih' w.filed w.opened) (Nat.le_refl _)
  | @wait s id b hb op hop =>
      intro hs ho
      refine .modify (ho.await .none fun c hc => .inl ?_) (hs.await id op .none) rfl hb.reaches (fun _ => rfl) fun _ _ => rfl
      rw [hb.block] at hc
      cases hc
      exact Block.hasAny_mono (by decide) hop.hasAny
  | @leap s b id _ jump hid hb =>
      intro hs ho
      obtain ⟨hr, c, hc, hloop⟩ := BlockStack.enclosing?_reaches hid
      rw [hb] at hc
      cases hc
      exact .jumpOn hs ho jump hb hr hloop
  | throw s =>
      intro hs ho
      refine .modify (ho.throw hs) (hs.await _ .throw .none) rfl (ho.catches hs).1 ?_ ?_
      · exact fun _ => rfl
      · exact fun _ _ => rfl
  | @settle s id b hb =>
      exact fun hs ho => .modify (ho.settle id _) (hs.settle id _) rfl hb.reaches (fun _ => rfl) fun _ _ => rfl
  | @settleContinue s id b hb =>
      exact fun hs ho => .modify (ho.settleContinue id) (hs.settleContinue id) rfl hb.reaches
        (fun b => by simp [Block.shape]) fun _ _ => rfl
  | block ht _ ih =>
      intro hs ho
      exact .exitBlock ((ih (hs.enter ..) (ho.construct ht)).mono (size_le_enter ..)) hs ht.hides
  | @loop s _ _ _ _ ht h ih =>
      intro hs ho
      have w := (ih (hs.enter ..) (ho.construct ht)).mono (size_le_enter ..)
      exact .exitBlock (w.put _ 0 s.code.size .none fun _ => h.frame.grows) hs ht.hides
  | @each s t u p3 _ h h' ih ih' =>
      intro hs ho
      have ho' := ho.construct .loop
      have source : Within s.blocks.blocks.size _ t := .beside ho' (ih (hs.enter ..))
      have restart := (source.await .foreachInit p3 (by decide) (Nat.le_refl _)).restartHere (Nat.le_refl _)
      have step := restart.await .foreachStep p3 (by decide) (Nat.le_refl _)
      have all := step.seq (ih' step.filed step.opened) (size_le_enter ..)
      refine .exitBlock (all.put .jmp 0 (t.code.size + 1) .none fun _ => ?_) hs ⟨by decide, by decide⟩
      have := h'.frame.grows
      simp only [after_await, after_restartHere, GenState.code, Array.size_push] at this ⊢
      omega
  | @braces s t _ ih =>
      intro hs ho
      have w := ih (hs.enter ..) (ho.enter _ (Nat.le_refl _) .none none rfl ⟨by decide, by decide⟩)
      exact (w.mono (size_le_enter ..)).braces hs
  | @try_ s t _ ih =>
      intro hs ho
      have hin := ho.enter [.exception] (Nat.le_refl _) .none none rfl
        ⟨by decide, by decide⟩
      have reserved : Within s.blocks.blocks.size (after (enter [.exception] s.code.size .none none) s)
          (after reserveException (after (enter [.exception] s.code.size .none none) s)) :=
        .still ⟨hin.jumps, hin.blocks⟩ ((hs.enter ..).reserveException) rfl
      have load := reserved.await .loadException (.exception s.program.exceptions.length) (by decide)
        (Nat.le_refl _)
      exact (load.seq (ih load.filed load.opened) (size_le_enter ..)).unprotect hs _
  | @switch s t u table _ _ ih ih' =>
      intro hs ho
      have subject : Within s.blocks.blocks.size _ t := .beside (ho.construct .switch) (ih (hs.enter ..))
      have reserved : Within s.blocks.blocks.size _ (after reserveSwitch t) :=
        subject.trans (.still ⟨subject.opened.jumps, subject.opened.blocks⟩ subject.filed.reserveSwitch rfl)
      have head := reserved.put .switch 0 0 (.switch t.program.switches.length) fun _ => Nat.zero_le _
      obtain ⟨body, hg⟩ := ih' head.filed head.opened fun e he => absurd he (List.not_mem_nil)
      have all := head.seq body (size_le_enter ..)
      refine .exitBlock (all.trans (.still ⟨all.opened.jumps, all.opened.blocks⟩ ?_ rfl)) hs
        ⟨by decide, by decide⟩
      exact all.filed.fillSwitch _ hg
  | aside table _ ih =>
      intro hs ho hg
      exact ⟨.beside ho (ih hs), hg⟩
  | join _ _ ih ih' =>
      intro hs ho hg
      obtain ⟨w, hg'⟩ := ih hs ho hg
      obtain ⟨w', hg''⟩ := ih' w.filed w.opened hg'
      exact ⟨w.seq w' (Nat.le_refl _), hg''⟩
  | case_ table _ _ ih ih' =>
      intro hs ho hg
      have beside := ih hs
      refine ⟨(Within.beside ho beside).seq (ih' beside.filed (ho.beside beside)) (Nat.le_refl _), fun e he => ?_⟩
      rcases List.mem_append.mp he with he | he
      · exact hg e he
      · rw [List.mem_singleton.mp he]
        exact beside.made _ (.inl (List.mem_singleton.mpr rfl))
  | default_ table _ _ ih ih' =>
      intro hs ho hg
      have beside := ih hs
      exact ⟨(Within.beside ho beside).seq (ih' beside.filed (ho.beside beside)) (Nat.le_refl _), hg⟩

/-! ### A whole compilation -/

theorem filed_initial (config : Config) : Filed (GenState.initial config) where
  root := ⟨{ tags := [.global], first := 0, owner := .none }, rfl, rfl⟩
  thunks := fun _ hc => absurd hc (List.not_mem_nil)
  bodies := fun _ hc => absurd hc (List.not_mem_nil)
  statics := fun _ hf => absurd hf (List.not_mem_nil)
  left := fun _ hb => absurd hb (List.not_mem_nil)

theorem open_initial (config : Config) : Open (GenState.initial config) where
  jumps := fun i x hx => by simp [GenState.initial, CodeBuffer.empty] at hx
  blocks := by
    intro id b hb _
    have hid : id < 1 := (Array.getElem?_eq_some_iff.mp hb).1
    obtain rfl : id = 0 := by omega
    cases hb
    exact ⟨Nat.le_refl _, fun j hj => absurd hj (List.not_mem_nil), fun i hi => absurd hi (List.not_mem_nil),
      fun _ => rfl, fun _ j hj => absurd hj (List.not_mem_nil),
      fun hg => absurd (show false = true from hg) (by decide)⟩

/-- Code generation finishes the main container and everything else. -/
theorem Finish.sound {config : Config} {t : GenState} (h : Finish (GenState.initial config) t) :
    Filed t ∧ Whole t.code := by
  cases h with
  | statements run =>
      have w := run.sound (filed_initial config) (open_initial config)
      exact ⟨(w.filed.settle 0 _).congr rfl rfl rfl rfl, (w.opened.settle 0 _).jumps.whole 0 0 .none _⟩
  | expression run p1 =>
      have beside := run.sound (filed_initial config)
      refine ⟨beside.filed.congr rfl rfl rfl rfl, ?_⟩
      exact (beside.bounded (open_initial config).jumps).whole p1 1 .none _

namespace Config

/-- Whatever a compilation returns, also one that reports errors, no jump leaves its container, every
container that is not empty ends by returning, and nothing was waiting on any block when it was left. -/
theorem jumps_inside (config : Config) (source : String) (c : Compilation)
    (h : (config.compile source).result = .ok c) :
    (∀ k ∈ c.program.containers, ∀ (i : Nat) (x : Instruction), k.code[i]? = some x → x.op.isJump = true →
      x.p2 < k.code.size) ∧
    (∀ k ∈ c.program.containers, k.code ≠ #[] → k.code.back?.map Instruction.op = some .done) ∧
    ∀ read, config.tokens? source = some read → ∀ b ∈ (config.generate source.utf8ByteSize read).left,
      b.pending = [] ∧ b.deferred.getD [] = [] := by
  obtain ⟨read, hread, hprogram, -⟩ := compile_ok h
  obtain ⟨filed, main⟩ := (config.finish_generate source.utf8ByteSize read).sound
  have whole : ∀ k ∈ c.program.containers, Whole k.code := by
    intro k hk
    rw [hprogram] at hk
    rcases (Program.lists_containers _ _).mp ⟨k, hk, rfl⟩ with hk | hk | hk
    · rw [hk]
      exact main
    · exact filed.bodies _ hk
    · exact filed.thunks _ hk
  refine ⟨fun k hk => (whole k hk).jumps, fun k hk hne => ?_, fun read' hread' => ?_⟩
  · rcases (whole k hk).ends with hempty | hends
    · exact absurd hempty hne
    · exact hends
  · rw [hread] at hread'
    cases hread'
    exact filed.left

/-- A compilation that reports an error: the second `break` has no loop to leave. -/
theorem jumps_inside_of_error :
    ∃ c, (({} : Config).compile "while ($a) { try { break; } catch (E $e) { throw $e; } } break;").result =
        .ok c ∧ 0 < c.errors ∧ ∀ k ∈ c.program.containers, ∀ (i : Nat) (x : Instruction),
          k.code[i]? = some x → x.op.isJump = true → x.p2 < k.code.size := by
  have errors : ((({} : Config).compile
      "while ($a) { try { break; } catch (E $e) { throw $e; } } break;").result.toOption.map
        Compilation.errors) = some 1 := by
    rw [compile_ofList rfl rfl]
    decide +kernel
  obtain ⟨c, hr, one⟩ := Outcome.ok_of_map errors
  refine ⟨c, hr, ?_, (jumps_inside _ _ c hr).1⟩
  rw [one]
  decide

end Config

end StackScript
