/-
What is there already stays as it was.

A statement adds code behind the code before it.  Of an earlier instruction it may fill in the target, if
the instruction waits on a block; and where an operand was reported and nothing came of it, an operator
may take the last instruction for what its operand has generated and replace it.  `Spares` says this of
code that computes values and `Touches` of statements, also in states no compilation comes to:
`Run.spares` needs no more of a state than that the root of its blocks is there.
-/
import StackScript.Proofs.Blocks
import StackScript.Proofs.Code
import StackScript.Proofs.Run.Script

namespace StackScript

open Gen

/-- The instruction at an index waits on a block for its target. -/
def Block.Pends (b : Block) (i : Nat) : Prop := (∃ j ∈ b.pending, j.index = i) ∨ i ∈ b.deferred.getD []

namespace Block

variable {b : Block} {i n : Nat}

/-- Where a jump is added, it is the only one that did not wait before. -/
theorem pends_await {j : PendingJump} (h : Pends { b with pending := b.pending ++ [j] } i) : b.Pends i ∨ i = j.index := by
  rcases h with ⟨k, hk, rfl⟩ | hi
  · rcases List.mem_append.mp hk with hk | hk
    · exact .inl (.inl ⟨k, hk, rfl⟩)
    · exact .inr (congrArg PendingJump.index (List.mem_singleton.mp hk))
  · exact .inl (.inr hi)

theorem pends_awaitContinue (h : Pends { b with deferred := b.deferred.map (· ++ [n]) } i) : b.Pends i ∨ i = n := by
  rcases h with hi | hi
  · exact .inl (.inl hi)
  · unfold Pends
    cases hd : b.deferred with
    | none => simp [hd] at hi
    | some js =>
        simp only [hd, Option.map_some, Option.getD_some, List.mem_append, List.mem_singleton] at hi ⊢
        exact hi.imp .inr id

/-- Where jumps are filled in, no more wait than before. -/
theorem pends_settle {p : PendingJump → Bool} (h : Pends { b with pending := b.pending.filter p } i) : b.Pends i := by
  rcases h with ⟨k, hk, rfl⟩ | hi
  · exact .inl ⟨k, (List.mem_filter.mp hk).1, rfl⟩
  · exact .inr hi

theorem pends_settleContinue (h : Pends { b with deferred := b.deferred.map fun _ => [] } i) : b.Pends i := by
  rcases h with hi | hi
  · exact .inl hi
  · cases hd : b.deferred <;> simp [hd] at hi

end Block

namespace BlockStack

/-- The instruction at an index waits on some block. -/
def Pends (bs : BlockStack) (i : Nat) : Prop := ∃ id b, bs.get? id = some b ∧ b.Pends i

theorem exists_pending {bs : BlockStack} {id : Nat} {j : PendingJump}
    (h : j ∈ ((bs.get? id).map Block.pending).getD []) : ∃ b, bs.get? id = some b ∧ b.Pends j.index := by
  cases hb : bs.get? id with
  | none => simp [hb] at h
  | some b =>
      rw [hb] at h
      exact ⟨b, rfl, .inl ⟨j, h, rfl⟩⟩

theorem exists_deferred {bs : BlockStack} {id i : Nat} (h : i ∈ ((bs.get? id).bind Block.deferred).getD []) :
    ∃ b, bs.get? id = some b ∧ b.Pends i := by
  cases hb : bs.get? id with
  | none => simp [hb] at h
  | some b =>
      rw [hb] at h
      exact ⟨b, rfl, .inr h⟩

/-- A block inside which neither a loop nor a handler further out is found. -/
def Hides (bs : BlockStack) (id : Nat) : Prop :=
  ∃ k b, id < k ∧ bs.get? k = some b ∧ b.isBoundary = true ∧ b.hasAny [.exception, .function] = true

variable {bs cs : BlockStack} {id : Nat} {b : Block}

theorem hides_congr (h : cs.shapes = bs.shapes) (hid : bs.Hides id) : cs.Hides id := by
  obtain ⟨k, b, hk, hb, hboundary, hany⟩ := hid
  obtain ⟨c, hc, hshape⟩ := get?_congr h hb
  refine ⟨k, c, hk, hc, ?_, ?_⟩
  · rw [Block.isBoundary, Block.hasAny_congr hshape]
    exact hboundary
  · rw [Block.hasAny_congr hshape]
    exact hany

theorem Reaches.not_hides (h : bs.Reaches id) : ¬bs.Hides id := by
  rintro ⟨k, b, hk, hb, hboundary, -⟩
  exact absurd ((h k b hk hb).symm.trans hboundary) (by decide)

/-- Nothing that catches exceptions is hidden from where they are thrown. -/
theorem not_hides_nearest (bs : BlockStack) : ¬bs.Hides (bs.nearest [.exception, .function]) := by
  rintro ⟨k, b, hk, hb, -, hany⟩
  have hlt : k < bs.blocks.size := (Array.getElem?_eq_some_iff.mp hb).1
  have spec := bs.nearestFrom_spec [.exception, .function] bs.blocks.size
  unfold nearest at hk
  cases hn : bs.nearestFrom [.exception, .function] bs.blocks.size with
  | none => exact absurd (hany.symm.trans (spec.2 hn k b hlt hb)) (by decide)
  | some id =>
      rw [hn] at hk
      exact absurd (hany.symm.trans ((spec.1 id hn).2 k b hk hlt hb)) (by decide)

/-- A block that is entered hides no more, and nothing waits on it. -/
theorem hides_push (hid : bs.Hides id) (b : Block) : (BlockStack.mk (bs.blocks.push b)).Hides id := by
  obtain ⟨k, c, hk, hc, h⟩ := hid
  have hlt : k < bs.blocks.size := (Array.getElem?_eq_some_iff.mp hc).1
  refine ⟨k, c, hk, ?_, h⟩
  rw [get?_push, if_neg (Nat.ne_of_lt hlt)]
  exact hc

theorem pends_push {i : Nat} (hpending : b.pending = []) (hdeferred : b.deferred.getD [] = [])
    (h : (BlockStack.mk (bs.blocks.push b)).Pends i) : bs.Pends i := by
  obtain ⟨k, c, hc, hw⟩ := h
  rw [get?_push] at hc
  split at hc
  · cases hc
    rcases hw with ⟨j, hj, -⟩ | hi
    · rw [hpending] at hj
      exact absurd hj (List.not_mem_nil)
    · rw [hdeferred] at hi
      exact absurd hi (List.not_mem_nil)
  · exact ⟨k, c, hc, hw⟩

end BlockStack

/-! ### Code that computes values -/

/-- The instruction at an index is safe from being replaced: it is not the last one, or there was no
error on the way. -/
def Safe (s t : GenState) (i : Nat) : Prop := i + 1 < s.code.size ∨ t.errors = s.errors

/-- Code that computes values leaves the code and the blocks before it as they were. -/
structure Spares (s t : GenState) : Prop where
  frame : Frame s t
  blocks : t.blocks = s.blocks
  kept : ∀ i < s.code.size, Safe s t i → t.code[i]? = s.code[i]?

/-- An instruction that is safe for the whole way is so for both parts of it. -/
theorem Safe.split {s t u : GenState} {i : Nat} (h : Safe s u i) (hst : Frame s t) (htu : Frame t u) :
    Safe s t i ∧ Safe t u i := by
  have hs := Grown.errors_le hst
  have ht := Grown.errors_le htu
  rcases h with h | h
  · exact ⟨.inl h, .inl (Nat.lt_of_lt_of_le h hst.grows)⟩
  · exact ⟨.inr (by omega), .inr (by omega)⟩

namespace Spares

variable {s t u : GenState}

theorem trans (h : Spares s t) (h' : Spares t u) : Spares s u where
  frame := h.frame.trans h'.frame
  blocks := h'.blocks.trans h.blocks
  kept := by
    intro i hi hsafe
    obtain ⟨first, second⟩ := hsafe.split h.frame h'.frame
    rw [h'.kept i (Nat.lt_of_lt_of_le hi h.frame.grows) second, h.kept i hi first]

theorem still (hf : Frame s t) (hb : t.blocks = s.blocks) (hc : t.code = s.code) : Spares s t :=
  ⟨hf, hb, fun i _ _ => by rw [hc]⟩

theorem put (op : Opcode) (p1 : Int) (p2 : Nat) (p3 : Operand) : Spares s (after (put op p1 p2 p3) s) :=
  ⟨.put op p1 p2 p3, rfl, fun i hi _ => (Extends.push s.code _).kept i hi⟩

/-- A step that changes no more than the last instruction of what has grown. -/
theorem last (h : Spares s t) (hg : Grown s t) (hf : Frame t u) (hb : u.blocks = t.blocks)
    (he : u.errors = t.errors) (hcode : ∀ i, i + 1 < t.code.size → u.code[i]? = t.code[i]?) : Spares s u where
  frame := h.frame.trans hf
  blocks := hb.trans h.blocks
  kept := by
    intro i hi hsafe
    have hsafe' : Safe s t i := by rwa [Safe, he] at hsafe
    have hgrows := h.frame.grows
    rw [hcode i, h.kept i hi hsafe']
    rcases hsafe with hlt | herr
    · omega
    · rcases hg with hg | hg
      · omega
      · omega

/-- A jump among what was added is filled in. -/
theorem land (h : Spares s t) {i : Nat} (hi : s.code.size ≤ i) : Spares s (after (landHere i) t) where
  frame := h.frame.trans (.landHere i)
  blocks := h.blocks
  kept := by
    intro k hk hsafe
    rw [after_landHere]
    show (t.code.patch i t.code.size)[k]? = _
    rw [Code.getElem?_patch, if_neg (by omega)]
    exact h.kept k hk hsafe

theorem discard (h : Spares s t)
    (hf : Frame s { t with buffer := { t.buffer with code := t.code.take s.code.size } }) :
    Spares s { t with buffer := { t.buffer with code := t.code.take s.code.size } } where
  frame := hf
  blocks := h.blocks
  kept := by
    intro i hi hsafe
    have := h.frame.grows
    show (t.code.take s.code.size)[i]? = _
    rw [Array.take_eq_extract, Array.getElem?_extract, if_pos (by omega), Nat.zero_add]
    exact h.kept i hi hsafe

/-- Something inside a block of its own, which is left as it was entered. -/
theorem inside {tags : List BlockTag} {first : Nat} {owner : BlockOwner} {deferred : Option (List Nat)}
    (h : Spares (after (enter tags first owner deferred) s) t) (hs : 0 < s.blocks.blocks.size) :
    Spares s (after leave t) where
  frame := h.frame.inside
  blocks := by
    rw [after_leave]
    show t.blocks.leave = s.blocks
    rw [h.blocks, after_enter]
    unfold BlockStack.leave
    rw [if_neg (by rw [Array.size_push]; omega), Array.pop_push]
  kept := h.kept

end Spares

/-! ### Statements -/

/-- What statements do to a block around them: they wait on it with instructions of their own, and with
thrown exceptions only where the block makes no jumps itself. -/
structure Gains (start stop : Nat) (b c : Block) : Prop where
  first : b.hasAny [.loop] = false → c.first = b.first
  pending : ∀ j ∈ c.pending, j ∈ b.pending ∨ start ≤ j.index ∧ j.index < stop ∧
    (j.op = .throw ∨ b.hasAny [.loop, .conditional, .exception] = true)
  deferred : ∀ i ∈ c.deferred.getD [], i ∈ b.deferred.getD [] ∨ start ≤ i ∧ i < stop

theorem Gains.refl (m n : Nat) (b : Block) : Gains m n b b :=
  ⟨fun _ => rfl, fun _ hj => .inl hj, fun _ hi => .inl hi⟩

theorem Gains.trans {l m n : Nat} {b c d : Block} (h : Gains l m b c) (h' : Gains m n c d) (hlm : l ≤ m)
    (hmn : m ≤ n) (hshape : c.shape = b.shape) : Gains l n b d where
  first := by
    intro hb
    rw [h'.first (by rw [Block.hasAny_congr hshape]; exact hb), h.first hb]
  pending := by
    intro j hj
    rcases h'.pending j hj with hj | ⟨hstart, hstop, hop⟩
    · rcases h.pending j hj with hj | ⟨hstart, hstop, hop⟩
      · exact .inl hj
      · exact .inr ⟨hstart, Nat.lt_of_lt_of_le hstop hmn, hop⟩
    · rw [Block.hasAny_congr hshape] at hop
      exact .inr ⟨Nat.le_trans hlm hstart, hstop, hop⟩
  deferred := by
    intro i hi
    rcases h'.deferred i hi with hi | ⟨hstart, hstop⟩
    · rcases h.deferred i hi with hi | ⟨hstart, hstop⟩
      · exact .inl hi
      · exact .inr ⟨hstart, Nat.lt_of_lt_of_le hstop hmn⟩
    · exact .inr ⟨Nat.le_trans hlm hstart, hstop⟩

/-- What was there before and waits now waited already. -/
theorem Gains.pends {m n i : Nat} {b c : Block} (h : Gains m n b c) (hi : i < m) (hw : c.Pends i) :
    b.Pends i := by
  rcases hw with ⟨j, hj, rfl⟩ | hd
  · rcases h.pending j hj with hj | ⟨hstart, -⟩
    · exact .inl ⟨j, hj, rfl⟩
    · omega
  · rcases h.deferred i hd with hd | ⟨hstart, -⟩
    · exact .inr hd
    · omega

/-- Statements fill in the targets of instructions that wait, and touch nothing else of what was there. -/
structure Touches (s t : GenState) : Prop where
  frame : Frame s t
  kept : ∀ (i : Nat) (x : Instruction), s.code[i]? = some x → Safe s t i →
    ∃ p2, t.code[i]? = some { x with p2 := p2 } ∧ (p2 = x.p2 ∨ s.blocks.Pends i)
  hidden : ∀ id, s.blocks.Hides id → t.blocks.get? id = s.blocks.get? id
  gains : ∀ id b c, s.blocks.get? id = some b → t.blocks.get? id = some c →
    Gains s.code.size t.code.size b c

namespace Touches

variable {s t u : GenState} {id : Nat} {b : Block}

theorem of_spares (h : Spares s t) : Touches s t where
  frame := h.frame
  kept := by
    intro i x hx hsafe
    refine ⟨x.p2, ?_, .inl rfl⟩
    rw [h.kept i (Array.getElem?_eq_some_iff.mp hx).1 hsafe]
    exact hx
  hidden := fun id _ => by rw [h.blocks]
  gains := by
    intro id b c hb hc
    rw [h.blocks, hb] at hc
    cases hc
    exact Gains.refl _ _ b

theorem trans (h : Touches s t) (h' : Touches t u) (hs : 0 < s.blocks.blocks.size) : Touches s u where
  frame := h.frame.trans h'.frame
  kept := by
    intro i x hx hsafe
    obtain ⟨first, second⟩ := hsafe.split h.frame h'.frame
    obtain ⟨p, hp, hwaits⟩ := h.kept i x hx first
    obtain ⟨q, hq, hwaits'⟩ := h'.kept i _ hp second
    refine ⟨q, hq, ?_⟩
    rcases hwaits' with rfl | ⟨id, c, hc, hw⟩
    · exact hwaits
    · obtain ⟨b, hb, -⟩ := BlockStack.get?_congr (h.frame.shapes hs).symm hc
      exact .inr ⟨id, b, hb, (h.gains id b c hb hc).pends (Array.getElem?_eq_some_iff.mp hx).1 hw⟩
  hidden := by
    intro id hid
    rw [h'.hidden id (BlockStack.hides_congr (h.frame.shapes hs) hid), h.hidden id hid]
  gains := by
    intro id b d hb hd
    obtain ⟨c, hc, hshape⟩ := BlockStack.get?_congr (h.frame.shapes hs) hb
    exact (h.gains id b c hb hc).trans (h'.gains id c d hc hd) h.frame.grows h'.frame.grows hshape

theorem put (h : Touches s t) (op : Opcode) (p1 : Int) (p2 : Nat) (p3 : Operand)
    (hs : 0 < s.blocks.blocks.size) : Touches s (after (put op p1 p2 p3) t) :=
  h.trans (of_spares (.put op p1 p2 p3)) hs

/-- A step that changes one block, which is not hidden, and the targets of what waits on it. -/
theorem modify {f : Block → Block} (hf : Frame s t) (hb : t.blocks = s.blocks.modify id f)
    (hid : ¬s.blocks.Hides id)
    (hg : ∀ b, s.blocks.get? id = some b → Gains s.code.size t.code.size b (f b))
    (hkept : ∀ (i : Nat) (x : Instruction), s.code[i]? = some x →
      ∃ p2, t.code[i]? = some { x with p2 := p2 } ∧ (p2 = x.p2 ∨ s.blocks.Pends i)) : Touches s t where
  frame := hf
  kept := fun i x hx _ => hkept i x hx
  hidden := by
    intro k hk
    rw [hb, BlockStack.get?_modify, if_neg]
    rintro rfl
    exact hid hk
  gains := by
    intro k b c hk hc
    rw [hb, BlockStack.get?_modify] at hc
    split at hc
    · rename_i hik
      subst hik
      rw [hk] at hc
      cases hc
      exact hg b hk
    · rw [hk] at hc
      cases hc
      exact Gains.refl _ _ b

theorem await (id : Nat) (op : Opcode) (p3 : Operand) (hid : ¬s.blocks.Hides id)
    (hop : ∀ b, s.blocks.get? id = some b →
      op = .throw ∨ b.hasAny [.loop, .conditional, .exception] = true) :
    Touches s (after (await id op p3) s) := by
  refine modify (.await id op p3) rfl hid (fun b hb => ⟨fun _ => rfl, fun j hj => ?_, fun i hi => .inl hi⟩)
    fun i x hx => ?_
  · rcases List.mem_append.mp hj with hj | hj
    · exact .inl hj
    · rw [List.mem_singleton.mp hj]
      exact .inr ⟨Nat.le_refl _, by simp [after_await, CodeBuffer.size], hop b hb⟩
  · refine ⟨x.p2, ?_, .inl rfl⟩
    exact ((Extends.push s.code _).kept i (Array.getElem?_eq_some_iff.mp hx).1).trans hx

theorem awaitContinue (id : Nat) (hid : ¬s.blocks.Hides id) : Touches s (after (awaitContinue id) s) := by
  refine modify ?_ rfl hid (fun b hb => ⟨fun _ => rfl, fun j hj => .inl hj, fun i hi => ?_⟩) fun i x hx => ?_
  · exact .awaitContinue _
  · cases hd : b.deferred with
    | none =>
        rw [hd] at hi
        exact absurd hi (List.not_mem_nil)
    | some is =>
        rw [hd] at hi
        rcases List.mem_append.mp hi with hi | hi
        · exact .inl hi
        · rw [List.mem_singleton.mp hi]
          exact .inr ⟨Nat.le_refl _, by simp [after_awaitContinue, CodeBuffer.size]⟩
  · refine ⟨x.p2, ?_, .inl rfl⟩
    exact ((Extends.push s.code _).kept i (Array.getElem?_eq_some_iff.mp hx).1).trans hx

/-- Filling in the targets of instructions that wait. -/
theorem filled {α : Type} (index : α → Nat) (js : List α) (target : Nat)
    (hw : ∀ j ∈ js, s.blocks.Pends (index j)) {i : Nat} {x : Instruction} (hx : s.code[i]? = some x) :
    ∃ p2, (js.foldl (fun code j => code.patch (index j) target) s.code)[i]? = some { x with p2 := p2 } ∧
      (p2 = x.p2 ∨ s.blocks.Pends i) := by
  rw [getElem?_foldl_patch, hx]
  split
  · rename_i hi
    obtain ⟨j, hj, rfl⟩ := List.mem_map.mp hi
    exact ⟨target, rfl, .inr (hw j hj)⟩
  · exact ⟨x.p2, rfl, .inl rfl⟩

theorem settle (op : Option Opcode) (hid : ¬s.blocks.Hides id) : Touches s (after (settle id op) s) := by
  refine modify (.settle id op) rfl hid
    (fun b hb => ⟨fun _ => rfl, fun j hj => .inl (List.mem_filter.mp hj).1, fun i hi => .inl hi⟩)
    fun i x hx => filled PendingJump.index _ _ (fun j hj => ?_) hx
  exact ⟨id, BlockStack.exists_pending (List.mem_filter.mp hj).1⟩

theorem settleContinue (hid : ¬s.blocks.Hides id) : Touches s (after (settleContinue id) s) := by
  refine modify (.settleContinue id) rfl hid (fun b hb => ⟨fun _ => rfl, fun j hj => .inl hj, fun i hi => ?_⟩)
    fun i x hx => filled (fun i => i) _ _ (fun k hk => ⟨id, BlockStack.exists_deferred hk⟩) hx
  cases hd : b.deferred <;> rw [hd] at hi <;> exact absurd hi (List.not_mem_nil)

end Touches

/-! ### Statements inside a block of their own -/

theorem stack_enter (tags : List BlockTag) (first : Nat) (owner : BlockOwner) (deferred : Option (List Nat))
    (s : GenState) : 0 < (after (enter tags first owner deferred) s).blocks.blocks.size := by
  rw [after_enter, Array.size_push]
  exact Nat.succ_pos _

namespace Touches

variable {s t : GenState} {tags : List BlockTag} {first : Nat} {owner : BlockOwner}
  {deferred : Option (List Nat)}

/-- The block that was entered can be seen from inside. -/
theorem seen (h : Touches (after (enter tags first owner deferred) s) t) :
    ¬t.blocks.Hides s.blocks.blocks.size ∧ ∀ b, t.blocks.get? s.blocks.blocks.size = some b → b.tags = tags := by
  obtain ⟨b, hb, hshape⟩ := h.frame.innermost (innermost_enter tags first owner deferred s)
  refine ⟨hb.reaches.not_hides, fun c hc => ?_⟩
  obtain rfl : c = b := Option.some.inj (hc.symm.trans hb.block)
  exact congrArg Prod.fst hshape

/-- A construct may wait on its own block. -/
theorem wait (h : Touches (after (enter tags first owner deferred) s) t)
    (ht : tags.any [.loop, .conditional, .exception].contains = true) (op : Opcode) (p3 : Operand) :
    Touches (after (enter tags first owner deferred) s) (after (Gen.await s.blocks.blocks.size op p3) t) := by
  obtain ⟨hseen, htags⟩ := h.seen
  exact h.trans (await _ op p3 hseen fun b hb => .inr (Block.hasAny_of_tags (htags b hb) ht)) (stack_enter ..)

/-- A loop may move its start. -/
theorem restart (h : Touches (after (enter tags first owner deferred) s) t) (ht : tags.contains .loop = true) :
    Touches (after (enter tags first owner deferred) s) (after (Gen.restartHere s.blocks.blocks.size) t) := by
  obtain ⟨hseen, htags⟩ := h.seen
  refine h.trans (modify (.restartHere _) rfl hseen (fun b hb => ⟨fun hnone => ?_, fun j hj => .inl hj,
    fun i hi => .inl hi⟩) fun i x hx => ⟨x.p2, hx, .inl rfl⟩) (stack_enter ..)
  have hloop : b.hasAny [.loop] = true := by
    rw [Block.hasAny, htags b hb]
    simpa using ht
  exact absurd (hloop.symm.trans hnone) (by decide)

theorem inside (h : Touches (after (enter tags first owner deferred) s) t) (hd : deferred.getD [] = [])
    (hs : 0 < s.blocks.blocks.size) : Touches s (after leave t) := by
  obtain ⟨b, hb, -⟩ := h.frame.innermost (innermost_enter tags first owner deferred s)
  have hsize := hb.size
  have hleave := BlockStack.get?_leave t.blocks (by omega)
  have hentered : ∀ k < s.blocks.blocks.size,
      (after (enter tags first owner deferred) s).blocks.get? k = s.blocks.get? k := by
    intro k hk
    rw [after_enter, BlockStack.get?_push, if_neg (Nat.ne_of_lt hk)]
  refine ⟨h.frame.inside, fun i x hx hsafe => ?_, fun k hk => ?_, fun k b c hk hc => ?_⟩
  · obtain ⟨p2, hp, hw⟩ := h.kept i x hx hsafe
    exact ⟨p2, hp, hw.imp id (BlockStack.pends_push rfl hd)⟩
  · have hlt : k < s.blocks.blocks.size := by
      obtain ⟨m, c, hkm, hc, -⟩ := hk
      exact Nat.lt_trans hkm (Array.getElem?_eq_some_iff.mp hc).1
    rw [after_leave, hleave, if_pos (by omega), h.hidden k (BlockStack.hides_push hk _), hentered k hlt]
  · rw [after_leave, hleave] at hc
    split at hc
    · refine h.gains k b c ?_ hc
      rw [hentered k (by omega)]
      exact hk
    · cases hc

theorem exitBlock (h : Touches (after (enter tags first owner deferred) s) t) (hd : deferred.getD [] = [])
    (hs : 0 < s.blocks.blocks.size) : Touches s (t.exitBlock s.blocks.blocks.size) := by
  have settled := h.trans (.settle none h.seen.1) (stack_enter ..)
  have continued := settled.trans (.settleContinue settled.seen.1) (stack_enter ..)
  exact continued.inside hd hs

end Touches

/-- Statements in a container of their own leave the blocks as they were. -/
theorem Spares.body {s t : GenState} {id : Nat} {b : Block} {op : Option Opcode}
    (hb : s.blocks.Innermost id b) (hop : IsBody b op) (h : Touches (after openContainer s) t) :
    Spares s (after (closeContainer s.container) (after (Gen.put .done 0 0 .none) (after (settle id op) t))) := by
  refine .still (Frame.aside ((h.frame.trans (.settle ..)).trans (.put ..))) ?_ rfl
  obtain ⟨c, hc, hshape⟩ := h.frame.innermost (s := after openContainer s) hb
  have gains : Gains 0 t.code.size b c := h.gains id b c hb.block hc.block
  have hnone : (c.pending.filter fun j => !BlockStack.settles op t.code j) = [] := by
    refine List.filter_eq_nil_iff.mpr fun j hj => ?_
    rcases gains.pending j hj with hj | ⟨-, hlt, hthrow⟩
    · rw [hop.pending] at hj
      exact absurd hj (List.not_mem_nil)
    · rcases hop.settles with rfl | ⟨rfl, hany⟩
      · simp [BlockStack.settles, hlt]
      · rw [hany] at hthrow
        simp [BlockStack.settles, hlt, hthrow.resolve_right (by decide)]
  have hfirst : c.first = b.first := by
    refine gains.first ?_
    rcases hop.tags with ⟨htags, -⟩ | ⟨htags, -⟩ <;> rw [Block.hasAny, htags] <;> rfl
  have hsettled := (hc.settle op).block
  rw [hnone, show { c with pending := [] } = b from
    Block.eq_of_shape hshape hfirst hop.pending.symm hop.deferred] at hsettled
  refine BlockStack.ext_get? fun k => ?_
  show (after (settle id op) t).blocks.get? k = s.blocks.get? k
  by_cases hk : id = k
  · subst hk
    rw [hsettled, hb.block]
  · refine (BlockStack.get?_modify ..).trans ?_
    rw [if_neg hk]
    rcases Nat.lt_or_gt_of_ne hk with hk | hk
    · have hin := hb.size
      have hin' := hc.size
      rw [BlockStack.get?, BlockStack.get?, Array.getElem?_eq_none (by omega), Array.getElem?_eq_none (by omega)]
    · refine h.hidden k ⟨id, b, hk, hb.block, hop.isBoundary, ?_⟩
      rcases hop.tags with ⟨htags, -⟩ | ⟨htags, -⟩ <;> rw [Block.hasAny, htags] <;> rfl

/-! ### A whole run -/

/-- What a run of a kind does to what was there, in any state with a root. -/
def Sparing : Kind → GenState → GenState → Prop
  | .value _, s, t => 0 < s.blocks.blocks.size → Spares s t
  | .flow, s, t => 0 < s.blocks.blocks.size → Touches s t
  | .sections _ _, s, t => 0 < s.blocks.blocks.size → Touches s t

theorem Run.spares {k : Kind} {s t : GenState} (h : Run k s t) : Sparing k s t := by
  induction h with
  | refl s => exact fun _ => .still (Frame.same rfl (Nat.le_refl _) rfl rfl) rfl rfl
  | trans _ _ ih ih' =>
      intro hs
      exact (ih hs).trans (ih' (by rw [(ih hs).blocks]; exact hs))
  | quiet h => exact fun _ => .still (Run.quiet h).frame h.blocks h.code
  | put s hop p1 p2 p3 _ _ => exact fun _ => .put _ p1 p2 p3
  | @rewrite _ s t h hg last hlast op hop p1 p2 p3 _ _ ih =>
      intro hs
      refine (ih hs).last hg (.rewrite op p1 p2 p3) rfl rfl fun i hi => ?_
      rw [after_put, after_takeBack]
      show (t.code.pop.push _)[i]? = _
      rw [Array.getElem?_push, Array.size_pop, if_neg (by omega), Array.getElem?_pop, if_pos (by omega)]
  | @mark _ s t h hg ih =>
      intro hs
      refine (ih hs).last hg .mark rfl rfl fun i hi => ?_
      unfold markCallee
      rw [after_modifyLast]
      show (t.code.modify _ _)[i]? = _
      rw [Array.getElem?_modify, if_neg (by omega)]
  | @skip _ s _ jump _ h ih => exact fun hs => ((Spares.put jump 1 0 .none).trans (ih hs)).land (Nat.le_refl _)
  | @choose _ _ s t _ _ _ ih ih' =>
      intro hs
      have yes := (Spares.put .jmpz 0 0 .none).trans (ih hs)
      have out : Spares s (after (landHere s.code.size) (after (emit .jmp 0 0 .none) t)) :=
        (yes.trans (Spares.put .jmp 0 0 .none)).land (Nat.le_refl _)
      exact (out.trans (ih' (by rw [out.blocks]; exact hs))).land yes.frame.grows
  | discard h ih => exact fun hs => (ih hs).discard (Run.discard h).frame
  | thunk p1 h ih => exact fun hs => .still (Run.thunk p1 h).frame (ih hs).blocks rfl
  | body hb hop _ ih => exact fun hs => .body hb hop (ih hs)
  | statics h ih => exact fun hs => ⟨(Run.statics h).frame, (ih hs).blocks, (ih hs).kept⟩
  | static h hv hst ih => exact fun hs => ⟨(Run.static h hv hst).frame, (ih hs).blocks, (ih hs).kept⟩
  | owned tags first owner _ ih => exact fun hs => (ih (stack_enter ..)).inside hs
  | file h hq ih => exact fun hs => ⟨(Run.file h hq).frame, (ih hs).blocks, (ih hs).kept⟩
  | lost h line hp ih =>
      intro hs
      refine (ih hs).trans (.still ⟨?_, Nat.le_refl _, fun _ => rfl, Nat.le_refl _⟩ rfl rfl)
      exact List.prefix_append _ _
  | value _ ih => exact fun hs => .of_spares (ih hs)
  | seq h _ ih ih' =>
      intro hs
      exact (ih hs).trans (ih' (by rw [h.frame.size hs]; exact hs)) hs
  | @wait s id b hb op hop =>
      intro _
      refine .await id op .none hb.reaches.not_hides fun c hc => .inr ?_
      rw [hb.block] at hc
      cases hc
      exact Block.hasAny_mono (by decide) hop.hasAny
  | @leap s b id level jump hid hb =>
      intro hs
      obtain ⟨hr, c, hc, hloop⟩ := BlockStack.enclosing?_reaches hid
      obtain rfl : c = b := Option.some.inj (hc.symm.trans hb)
      have record : Touches s (after (recordJump id) s) := .of_spares (.still (.recordJump id) rfl rfl)
      unfold jumpOn
      split
      · refine record.trans (.await id .jmp .none hr.not_hides fun d hd => .inr ?_) hs
        rw [after_recordJump, hb] at hd
        cases hd
        exact Block.hasAny_mono (by decide) hloop
      · split
        · exact record.trans (.awaitContinue id hr.not_hides) hs
        · exact record.put _ _ _ _ hs
  | throw s => exact fun _ => .await _ .throw .none s.blocks.not_hides_nearest fun _ _ => .inl rfl
  | settle hb => exact fun _ => .settle _ hb.reaches.not_hides
  | settleContinue hb => exact fun _ => .settleContinue hb.reaches.not_hides
  | block ht _ ih => exact fun hs => (ih (stack_enter ..)).exitBlock ht.undeferred hs
  | loop _ ht _ ih =>
      exact fun hs => ((ih (stack_enter ..)).put _ _ _ _ (stack_enter ..)).exitBlock ht.undeferred hs
  | @each _ _ _ p3 _ _ _ ih ih' =>
      intro hs
      have init := (Touches.of_spares (ih (stack_enter ..))).wait (by decide) .foreachInit p3
      have step := (init.restart (by decide)).wait (by decide) .foreachStep p3
      have body := step.trans (ih' (by rw [step.frame.size (stack_enter ..)]; exact stack_enter ..)) (stack_enter ..)
      exact (body.put _ _ _ _ (stack_enter ..)).exitBlock rfl hs
  | braces _ ih => exact fun hs => (ih (stack_enter ..)).inside rfl hs
  | @try_ s t _ ih =>
      intro hs
      have reserve : Touches (after (enter [.exception] s.code.size .none none) s)
          (after reserveException (after (enter [.exception] s.code.size .none none) s)) :=
        .of_spares (.still .reserveException rfl rfl)
      have load := reserve.wait (by decide) .loadException (.exception s.program.exceptions.length)
      have body := load.trans (ih (by rw [load.frame.size (stack_enter ..)]; exact stack_enter ..)) (stack_enter ..)
      have settled := body.trans (.settle none body.seen.1) (stack_enter ..)
      exact (settled.put _ _ _ _ (stack_enter ..)).inside rfl hs
  | @switch s t u table _ _ ih ih' =>
      intro hs
      have reserve : Touches t (after reserveSwitch t) := .of_spares (.still .reserveSwitch rfl rfl)
      have subject := (Touches.of_spares (ih (stack_enter ..))).trans reserve (stack_enter ..)
      have head := subject.put .switch 0 0 (.switch t.program.switches.length) (stack_enter ..)
      have body := head.trans (ih' (by rw [head.frame.size (stack_enter ..)]; exact stack_enter ..)) (stack_enter ..)
      have fill : Touches u
          (after (fillSwitch t.program.switches.length { table with out := u.code.size }) u) :=
        .of_spares (.still (.fillSwitch _ _) rfl rfl)
      exact (body.trans fill (stack_enter ..)).exitBlock rfl hs
  | aside _ _ ih => exact fun hs => .of_spares (ih hs)
  | join h _ ih ih' =>
      intro hs
      exact (ih hs).trans (ih' (by rw [h.frame.size hs]; exact hs)) hs
  | case_ _ h _ ih ih' =>
      intro hs
      exact (Touches.of_spares (ih hs)).trans (ih' (by rw [h.frame.size hs]; exact hs)) hs
  | default_ _ h _ ih ih' =>
      intro hs
      exact (Touches.of_spares (ih hs)).trans (ih' (by rw [h.frame.size hs]; exact hs)) hs

/-! ### Statements of a script -/

/-- A statement adds its code behind what is there.  An earlier instruction stays where it is with the same
operation, numbers and line; its target may be filled in if it waits on a block.  Only the last one can be
replaced, and only by a statement that reports an error. -/
theorem Stmt.earlier_code_kept (statement : Stmt) (s : GenState) (hs : 0 < s.blocks.blocks.size) :
    s.code.size ≤ (after statement.gen s).code.size ∧
    ∀ (i : Nat) (x : Instruction), s.code[i]? = some x →
      i + 1 < s.code.size ∨ (after statement.gen s).errors = s.errors →
      ∃ p2, (after statement.gen s).code[i]? = some { x with p2 := p2 } ∧ (p2 = x.p2 ∨ s.blocks.Pends i) := by
  have touches : Touches s (after statement.gen s) := (Stmt.flows_gen statement s).spares hs
  exact ⟨touches.frame.grows, touches.kept⟩

/-- The last instruction can indeed be lost: with nothing to store and nowhere to store it, an assignment
takes the `POP` of the statement before it for its own target. -/
theorem Stmt.last_instruction_replaced :
    let place : Place := ⟨0, 0, 1⟩
    let blank : Tree Leaf := .leaf place (.blankVariable 1 1)
    let load : Stmt := .expression (.tree (.leaf place (.variable 1 "a" 0)))
    let store : Stmt := .expression (.tree (.assign place .assign blank blank))
    let s := after load.gen (GenState.initial {})
    s.code = #[⟨.load, 0, 0, .name "a", 1⟩, ⟨.pop, 1, 0, .none, 1⟩] ∧
    (after store.gen s).code =
      #[⟨.load, 0, 0, .name "a", 1⟩, ⟨.store, 0, 0, .none, 1⟩, ⟨.pop, 1, 0, .none, 1⟩] ∧
    (after store.gen s).errors = 2 ∧
    (s.code.size ≤ (after store.gen s).code.size ∧
      ∀ (i : Nat) (x : Instruction), s.code[i]? = some x →
        i + 1 < s.code.size ∨ (after store.gen s).errors = s.errors →
        ∃ p2, (after store.gen s).code[i]? = some { x with p2 := p2 } ∧ (p2 = x.p2 ∨ s.blocks.Pends i)) := by
  intro place blank load store s
  exact ⟨by decide +kernel, by decide +kernel, by decide +kernel, Stmt.earlier_code_kept store s (by decide +kernel)⟩

end StackScript
