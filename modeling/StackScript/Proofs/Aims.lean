/-
Handlers and jumps.

A jump that waits on a block will land where as many handlers are installed as there were when the block
was entered: the handlers at its own place, less those of the protected bodies it jumps out of.  This
number is known when the jump is emitted, long before its target.  `Aimed` keeps it for every jump of the
container being filled, whether it still waits or not, so that at the end of the container the jump is
seen to be balanced exactly when it leaves no protected body.
-/
import StackScript.Proofs.Handlers
import StackScript.Proofs.Jumps

namespace StackScript

open Gen

/-- The handlers that are installed where the code ends. -/
def GenState.depth (s : GenState) : Nat := handlers s.code s.code.size

/-- A `try` or the body of a `catch`. -/
def Block.isProtected (b : Block) : Bool := b.hasAny [.exception]

/-- A jump at an index waits on the block. -/
def Block.Waits (b : Block) (i : Nat) : Prop :=
  (∃ j ∈ b.pending, j.op.isEdge = true ∧ j.index = i) ∨ i ∈ b.deferred.getD []

namespace BlockStack

variable {bs cs : BlockStack} {id i : Nat} {b : Block}

/-- How many protected bodies stand inside a block. -/
def guards (bs : BlockStack) (id : Nat) : Nat := (bs.inside id).countP Block.isProtected

/-- A jump at an index waits on a block. -/
def Waits (bs : BlockStack) (id i : Nat) : Prop := ∃ b, bs.get? id = some b ∧ b.Waits i

theorem guards_push (bs : BlockStack) (b : Block) (hid : id < bs.blocks.size) :
    (BlockStack.mk (bs.blocks.push b)).guards id = bs.guards id + b.isProtected.toNat := by
  unfold guards inside
  rw [Array.toList_push, List.drop_append_of_le_length (by rw [Array.length_toList]; exact hid),
    List.countP_append]
  cases hb : b.isProtected <;> simp [hb]

theorem guards_innermost (h : bs.Innermost id b) : bs.guards id = 0 := by
  unfold guards inside
  rw [List.drop_eq_nil_of_le (Nat.le_of_eq (by rw [Array.length_toList, h.size]))]
  rfl

/-- The tags of the blocks decide. -/
theorem guards_congr (h : cs.shapes = bs.shapes) (id : Nat) : cs.guards id = bs.guards id := by
  have tags : ∀ ds : BlockStack, ds.guards id =
      (ds.shapes.toList.drop (id + 1)).countP fun shape => [BlockTag.exception].any shape.1.contains := by
    intro ds
    unfold guards inside shapes
    rw [Array.toList_map, ← List.map_drop, List.countP_map]
    rfl
  rw [tags, tags, h]

/-- A stack is what is left of it with its innermost block. -/
theorem leave_push (h : bs.Innermost id b) (hid : 0 < id) : BlockStack.mk (bs.leave.blocks.push b) = bs := by
  have hsize := h.size
  refine ext_get? fun k => ?_
  have hleave : bs.leave.blocks.size = id := by
    unfold leave
    rw [if_neg (by omega)]
    show bs.blocks.pop.size = id
    rw [Array.size_pop, hsize]
    rfl
  rw [get?_push, hleave]
  split
  · rename_i hk
    rw [hk, h.block]
  · rw [get?_leave bs (by omega)]
    split
    · rfl
    · rw [get?, Array.getElem?_eq_none (by omega)]

theorem guards_leave (h : bs.Innermost id b) (hid : 0 < id) {k : Nat} (hk : k < id) :
    bs.guards k = bs.leave.guards k + b.isProtected.toNat := by
  have hpush := leave_push h hid
  have hsize : bs.leave.blocks.size = id := by
    have := congrArg (fun bs : BlockStack => bs.blocks.size) hpush
    simp only [Array.size_push] at this
    have hsize := h.size
    omega
  rw [← guards_push bs.leave b (by rw [hsize]; exact hk), hpush]

end BlockStack

/-- What is known about the jumps of the container being filled, where `depth` handlers are installed.  The
handlers at the target of the jump at `i` are `E i`. -/
structure Aimed (E : Nat → Nat) (depth : Nat) (s : GenState) : Prop where
  /-- A jump has its target, or waits for it. -/
  edges : ∀ (i : Nat) (x : Instruction), s.code[i]? = some x → x.op.isEdge = true →
    handlers s.code x.p2 = E i ∨ ∃ id, s.blocks.Reaches id ∧ s.blocks.Waits id i
  /-- Between a jump and the block it waits on stand the protected bodies that it leaves. -/
  waits : ∀ id i, s.blocks.Reaches id → s.blocks.Waits id i → E i + s.blocks.guards id = depth
  firsts : ∀ id b, s.blocks.get? id = some b → s.blocks.Reaches id → b.hasAny [.loop] = true →
    handlers s.code b.first + s.blocks.guards id = depth
  /-- What else waits is no jump. -/
  others : ∀ id b, s.blocks.get? id = some b → s.blocks.Reaches id → ∀ j ∈ b.pending, j.op.isEdge = false →
    ∀ x : Instruction, s.code[j.index]? = some x → x.op.isEdge = false
  /-- Jumps wait on loops and conditionals only. -/
  own : ∀ id b, s.blocks.get? id = some b → s.blocks.Reaches id →
    b.hasAny [.loop, .conditional] = false → ∀ i, ¬s.blocks.Waits id i

/-- The aims with one more jump. -/
def aim (E : Nat → Nat) (i e : Nat) : Nat → Nat := fun k => if k = i then e else E k

theorem aim_self (E : Nat → Nat) (i e : Nat) : aim E i e i = e := if_pos rfl

theorem aim_of_ne {k i : Nat} (h : k ≠ i) (E : Nat → Nat) (e : Nat) : aim E i e k = E k := if_neg h

/-- What waits on a block that can be reached lies in the code. -/
theorem Open.waits_lt {s : GenState} (h : Open s) {id i : Nat} (hr : s.blocks.Reaches id)
    (hw : s.blocks.Waits id i) : i < s.code.size := by
  obtain ⟨b, hb, hi⟩ := hw
  have anchored := h.blocks id b hb hr
  rcases hi with ⟨j, hj, -, rfl⟩ | hi
  · exact anchored.pending j hj
  · exact anchored.deferred i hi

/-- Filling in targets installs no handler. -/
theorem handlers_fill {α : Type} (index : α → Nat) (target : Nat) (js : List α) (code : Code) (i : Nat) :
    handlers (js.foldl (fun code j => code.patch (index j) target) code) i = handlers code i := by
  refine handlers_congr (fun k _ => ?_) i (Nat.le_refl i)
  rw [getElem?_foldl_patch]
  split
  · rw [Option.map_map]
    rfl
  · rfl

namespace Aimed

variable {E : Nat → Nat} {d : Nat} {s : GenState} {id : Nat} {b : Block}

/-- The next jump may have any aim. -/
theorem next (h : Aimed E d s) (ho : Open s) (e : Nat) : Aimed (aim E s.code.size e) d s where
  edges := by
    intro i x hx he
    rw [aim_of_ne (Nat.ne_of_lt (Array.getElem?_eq_some_iff.mp hx).1)]
    exact h.edges i x hx he
  waits := by
    intro id i hr hw
    rw [aim_of_ne (Nat.ne_of_lt (ho.waits_lt hr hw))]
    exact h.waits id i hr hw
  firsts := h.firsts
  others := h.others
  own := h.own

/-- One more instruction: a jump has its target in the code or waits already. -/
theorem push (h : Aimed E d s) (hj : Bounded s.code s.code.size)
    (hf : ∀ id b, s.blocks.get? id = some b → s.blocks.Reaches id → b.first ≤ s.code.size) (x : Instruction)
    (hx : x.op.isEdge = true → handlers s.code x.p2 = E s.code.size ∧ x.p2 ≤ s.code.size ∨
      ∃ id, s.blocks.Reaches id ∧ s.blocks.Waits id s.code.size)
    (hw : ∀ id b, s.blocks.get? id = some b → s.blocks.Reaches id → ∀ j ∈ b.pending, j.op.isEdge = false →
      j.index = s.code.size → x.op.isEdge = false) :
    Aimed E d { s with buffer := { s.buffer with code := s.code.push x } } := by
  have counted : ∀ i ≤ s.code.size, handlers (s.code.push x) i = handlers s.code i :=
    fun i hi => (Extends.push s.code x).handlers hi
  refine ⟨fun i y hy he => ?_, h.waits, fun id b hb hr hloop => ?_, fun id b hb hr j hmem hop y hy => ?_, h.own⟩
  · have hy' : (s.code.push x)[i]? = some y := hy
    show handlers (s.code.push x) y.p2 = _ ∨ _
    rw [Array.getElem?_push] at hy'
    split at hy'
    · rename_i hi
      subst hi
      cases hy'
      rcases hx he with ⟨hp, hle⟩ | hwait
      · rw [counted _ hle]
        exact .inl hp
      · exact .inr hwait
    · rcases h.edges i y hy' he with hp | hwait
      · rw [counted _ (hj i y hy' (Opcode.isJump_of_isEdge he))]
        exact .inl hp
      · exact .inr hwait
  · show handlers (s.code.push x) b.first + _ = _
    rw [counted _ (hf id b hb hr)]
    exact h.firsts id b hb hr hloop
  · have hy' : (s.code.push x)[j.index]? = some y := hy
    rw [Array.getElem?_push] at hy'
    split at hy'
    · rename_i hi
      cases hy'
      exact hw id b hb hr j hmem hop hi
    · exact h.others id b hb hr j hmem hop y hy'

/-- An instruction that waits on nothing. -/
theorem put (h : Aimed E d s) (ho : Open s) (op : Opcode) (p1 : Int) (p2 : Nat) (p3 : Operand) (e : Nat)
    (hop : op.isEdge = true → handlers s.code p2 = e ∧ p2 ≤ s.code.size) :
    Aimed (aim E s.code.size e) d (after (put op p1 p2 p3) s) := by
  refine (h.next ho e).push ho.jumps (fun id b hb hr => (ho.blocks id b hb hr).first) _ (fun he => .inl ?_) ?_
  · rw [aim_self]
    exact hop he
  · intro id b hb hr j hmem _ hi
    have := (ho.blocks id b hb hr).pending j hmem
    omega

/-- A change to what waits on a block: what is new there waits rightly, and what is gone has its target. -/
theorem modify (h : Aimed E d s) (hb : s.blocks.get? id = some b) (f : Block → Block)
    (hshape : ∀ b, (f b).shape = b.shape)
    (hfirst : b.hasAny [.loop] = true → handlers s.code (f b).first = handlers s.code b.first)
    (hnew : ∀ i, (f b).Waits i → b.Waits i ∨ E i + s.blocks.guards id = d ∧ b.hasAny [.loop, .conditional] = true)
    (hgone : ∀ i, b.Waits i → (f b).Waits i ∨ ∀ x : Instruction, s.code[i]? = some x → handlers s.code x.p2 = E i)
    (hothers : ∀ j ∈ (f b).pending, j ∈ b.pending ∨
      (j.op.isEdge = false → ∀ x : Instruction, s.code[j.index]? = some x → x.op.isEdge = false)) :
    Aimed E d { s with blocks := s.blocks.modify id f } := by
  have hshapes := s.blocks.shapes_modify id f hshape
  have hreach : ∀ k, (s.blocks.modify id f).Reaches k ↔ s.blocks.Reaches k := BlockStack.reaches_congr hshapes
  have hguards := BlockStack.guards_congr hshapes
  have hget : ∀ k c, (s.blocks.modify id f).get? k = some c →
      k = id ∧ c = f b ∨ k ≠ id ∧ s.blocks.get? k = some c := by
    intro k c hc
    rw [BlockStack.get?_modify] at hc
    split at hc
    · rename_i hk
      subst hk
      rw [hb] at hc
      cases hc
      exact .inl ⟨rfl, rfl⟩
    · exact .inr ⟨fun hk => by simp_all, hc⟩
  have hwaits : ∀ k i, (s.blocks.modify id f).Waits k i → s.blocks.Waits k i ∨
      k = id ∧ E i + s.blocks.guards id = d ∧ b.hasAny [.loop, .conditional] = true := by
    rintro k i ⟨c, hc, hw⟩
    rcases hget k c hc with ⟨rfl, rfl⟩ | ⟨-, hc⟩
    · rcases hnew i hw with hw | hw
      · exact .inl ⟨b, hb, hw⟩
      · exact .inr ⟨rfl, hw⟩
    · exact .inl ⟨c, hc, hw⟩
  refine ⟨fun i x hx he => ?_, fun k i hr hw => ?_, fun k c hc hr hloop => ?_, fun k c hc hr j hj hop x hx => ?_,
    fun k c hc hr hnone i hw => ?_⟩
  · rcases h.edges i x hx he with hp | ⟨k, hr, c, hc, hw⟩
    · exact .inl hp
    · by_cases hk : id = k
      · subst hk
        rw [hb] at hc
        cases hc
        rcases hgone i hw with hw | hp
        · refine .inr ⟨id, (hreach id).mpr hr, f b, ?_, hw⟩
          rw [BlockStack.get?_modify, if_pos rfl, hb]
          rfl
        · exact .inl (hp x hx)
      · refine .inr ⟨k, (hreach k).mpr hr, c, ?_, hw⟩
        rw [BlockStack.get?_modify, if_neg hk, hc]
  · show E i + (s.blocks.modify id f).guards k = d
    rw [hguards k]
    rcases hwaits k i hw with hw | ⟨rfl, hw, -⟩
    · exact h.waits k i ((hreach k).mp hr) hw
    · exact hw
  · show handlers s.code c.first + (s.blocks.modify id f).guards k = d
    rw [hguards k]
    rcases hget k c hc with ⟨rfl, rfl⟩ | ⟨-, hc⟩
    · rw [Block.hasAny_congr (hshape b)] at hloop
      rw [hfirst hloop]
      exact h.firsts k b hb ((hreach k).mp hr) hloop
    · exact h.firsts k c hc ((hreach k).mp hr) hloop
  · rcases hget k c hc with ⟨rfl, rfl⟩ | ⟨-, hc⟩
    · rcases hothers j hj with hj | hj
      · exact h.others k b hb ((hreach k).mp hr) j hj hop x hx
      · exact hj hop x hx
    · exact h.others k c hc ((hreach k).mp hr) j hj hop x hx
  · rcases hwaits k i hw with hold | ⟨rfl, -, hany⟩
    · rcases hget k c hc with ⟨rfl, rfl⟩ | ⟨-, hc⟩
      · rw [Block.hasAny_congr (hshape b)] at hnone
        exact h.own k b hb ((hreach k).mp hr) hnone i hold
      · exact h.own k c hc ((hreach k).mp hr) hnone i hold
    · rcases hget k c hc with ⟨-, rfl⟩ | ⟨hne, -⟩
      · rw [Block.hasAny_congr (hshape b), hany] at hnone
        cases hnone
      · exact hne rfl

/-- Filling in jumps that aim at the end of the code. -/
theorem fill {α : Type} (h : Aimed E d s) (index : α → Nat) (js : List α)
    (hjs : ∀ j ∈ js, ∀ x : Instruction, s.code[index j]? = some x → x.op.isEdge = true → E (index j) = s.depth) :
    Aimed E d { s with buffer := { s.buffer with
      code := js.foldl (fun code j => code.patch (index j) s.code.size) s.code } } := by
  have hget := getElem?_foldl_patch index s.code.size js s.code
  have counted := handlers_fill index s.code.size js s.code
  refine ⟨fun i x hx he => ?_, h.waits, fun id b hb hr hloop => ?_, fun id b hb hr j hj hop x hx => ?_, h.own⟩
  · show handlers (js.foldl _ _) x.p2 = _ ∨ _
    have hx' : (js.foldl (fun code j => code.patch (index j) s.code.size) s.code)[i]? = some x := hx
    rw [counted]
    rw [hget] at hx'
    split at hx'
    · obtain ⟨y, hy, rfl⟩ := Option.map_eq_some_iff.mp hx'
      obtain ⟨j, hj, rfl⟩ := List.mem_map.mp ‹_›
      exact .inl (hjs j hj y hy he).symm
    · exact h.edges i x hx' he
  · show handlers (js.foldl _ _) b.first + _ = _
    rw [counted]
    exact h.firsts id b hb hr hloop
  · have hx' : (js.foldl (fun code j => code.patch (index j) s.code.size) s.code)[j.index]? = some x := hx
    rw [hget] at hx'
    split at hx'
    · obtain ⟨y, hy, rfl⟩ := Option.map_eq_some_iff.mp hx'
      exact h.others id b hb hr j hj hop y hy
    · exact h.others id b hb hr j hj hop x hx'

/-- What waits on the innermost block aims at the end of the code. -/
theorem lands (h : Aimed E d s) (hb : s.blocks.Innermost id b) (hd : d = s.depth) {i : Nat} (hw : b.Waits i) :
    E i = s.depth := by
  have := h.waits id i hb.reaches ⟨b, hb.block, hw⟩
  rw [BlockStack.guards_innermost hb] at this
  exact this.trans hd

/-- The jumps that wait on the innermost block are filled in. -/
theorem settle (h : Aimed E d s) (hb : s.blocks.Innermost id b) (hd : d = s.depth) (op : Option Opcode) :
    Aimed E d (after (settle id op) s) := by
  have here := fun i => h.lands hb hd (i := i)
  have filled := h.fill PendingJump.index (b.pending.filter (BlockStack.settles op s.code)) fun j hj x hx he => by
    have hmem := (List.mem_filter.mp hj).1
    cases hop : j.op.isEdge with
    | true => exact here _ (.inl ⟨j, hmem, hop, rfl⟩)
    | false => exact absurd (he.symm.trans (h.others id b hb.block hb.reaches j hmem hop x hx)) (by decide)
  have step := filled.modify hb.block (fun b =>
      { b with pending := b.pending.filter fun j => !BlockStack.settles op s.code j })
    (fun _ => rfl) (fun _ => rfl) (fun i hw => ?_) (fun i hw => ?_) fun j hj => .inl (List.mem_filter.mp hj).1
  · rw [after_settle]
    unfold BlockStack.settle
    rw [hb.block]
    exact step
  · rcases hw with ⟨j, hj, hop, rfl⟩ | hw
    · exact .inl (.inl ⟨j, (List.mem_filter.mp hj).1, hop, rfl⟩)
    · exact .inl (.inr hw)
  · rcases hw with ⟨j, hj, hop, rfl⟩ | hw
    · cases hsettled : BlockStack.settles op s.code j with
      | false => exact .inl (.inl ⟨j, List.mem_filter.mpr ⟨hj, by rw [hsettled]; rfl⟩, hop, rfl⟩)
      | true =>
          refine .inr fun x hx => ?_
          have hx' : (List.foldl _ s.code _)[j.index]? = some x := hx
          rw [getElem?_foldl_patch, if_pos] at hx'
          · obtain ⟨y, -, rfl⟩ := Option.map_eq_some_iff.mp hx'
            show handlers (List.foldl _ _ _) _ = _
            rw [handlers_fill, here _ (.inl ⟨j, hj, hop, rfl⟩)]
            rfl
          · exact List.mem_map.mpr ⟨j, List.mem_filter.mpr ⟨hj, hsettled⟩, rfl⟩
    · exact .inl (.inr hw)

/-- The jumps of `continue` that wait on the innermost block are filled in. -/
theorem settleContinue (h : Aimed E d s) (hb : s.blocks.Innermost id b) (hd : d = s.depth) :
    Aimed E d (after (settleContinue id) s) := by
  have here := fun i => h.lands hb hd (i := i)
  have filled := h.fill (fun i => i) (b.deferred.getD []) fun i hi x _ _ => here i (.inr hi)
  have step := filled.modify hb.block (fun b => { b with deferred := b.deferred.map fun _ => [] })
    (fun b => by simp [Block.shape]) (fun _ => rfl) (fun i hw => ?_) (fun i hw => ?_) fun j hj => .inl hj
  · rw [after_settleContinue]
    unfold BlockStack.settleContinue
    rw [hb.block]
    exact step
  · rcases hw with hw | hw
    · exact .inl (.inl hw)
    · refine absurd hw ?_
      cases hdef : b.deferred <;> exact List.not_mem_nil
  · rcases hw with hw | hi
    · exact .inl (.inl hw)
    · refine .inr fun x hx => ?_
      have hx' : (List.foldl _ s.code _)[i]? = some x := hx
      rw [getElem?_foldl_patch, if_pos] at hx'
      · obtain ⟨y, -, rfl⟩ := Option.map_eq_some_iff.mp hx'
        show handlers (List.foldl _ _ _) _ = _
        rw [handlers_fill, here i (.inr hi)]
        rfl
      · exact List.mem_map.mpr ⟨i, hi, rfl⟩

/-- One more instruction, which waits on a block. -/
theorem waiting (h : Aimed E d s) (ho : Open s) (hb : s.blocks.get? id = some b) (hr : s.blocks.Reaches id)
    (x : Instruction) (e : Nat) (f : Block → Block) (hshape : ∀ b, (f b).shape = b.shape)
    (hfirst : ∀ b, (f b).first = b.first)
    (hnew : ∀ i, (f b).Waits i → b.Waits i ∨
      i = s.code.size ∧ e + s.blocks.guards id = d ∧ b.hasAny [.loop, .conditional] = true)
    (hkept : ∀ i, b.Waits i → (f b).Waits i) (hx : x.op.isEdge = true → (f b).Waits s.code.size)
    (hpending : ∀ j ∈ (f b).pending, j ∈ b.pending ∨
      j.index = s.code.size ∧ (j.op.isEdge = false → x.op.isEdge = false)) :
    Aimed (aim E s.code.size e) d
      { s with buffer := { s.buffer with code := s.code.push x }, blocks := s.blocks.modify id f } := by
  have hshapes := s.blocks.shapes_modify id f hshape
  have hget : (s.blocks.modify id f).get? id = some (f b) := by
    rw [BlockStack.get?_modify, if_pos rfl, hb]
    rfl
  have waits := (h.next ho e).modify hb f hshape (fun _ => by rw [hfirst])
    (fun i hw => ?_) (fun i hw => .inl (hkept i hw)) fun j hj => ?_
  · refine waits.push ho.jumps (fun k c hc hr => ?_) x (fun he => .inr ?_) fun k c hc hr j hj hop (hi : j.index = s.code.size) => ?_
    · have hr' := (BlockStack.reaches_congr hshapes k).mp hr
      rw [BlockStack.get?_modify] at hc
      split at hc
      · obtain ⟨c', hc', rfl⟩ := Option.map_eq_some_iff.mp hc
        rw [hfirst]
        exact (ho.blocks k c' hc' hr').first
      · exact (ho.blocks k c hc hr').first
    · exact ⟨id, (BlockStack.reaches_congr hshapes id).mpr hr, f b, hget, hx he⟩
    · by_cases hk : id = k
      · subst hk
        rw [hget] at hc
        cases hc
        rcases hpending j hj with hj | ⟨-, hj⟩
        · have := (ho.blocks id b hb ‹_›).pending j hj
          omega
        · exact hj hop
      · rw [BlockStack.get?_modify, if_neg hk] at hc
        have := (ho.blocks k c hc ((BlockStack.reaches_congr hshapes k).mp hr)).pending j hj
        omega
  · rcases hnew i hw with hw | ⟨rfl, hright⟩
    · exact .inl hw
    · rw [aim_self]
      exact .inr hright
  · rcases hpending j hj with hj | ⟨hj, -⟩
    · exact .inl hj
    · refine .inr fun _ y hy => ?_
      rw [hj, Array.getElem?_eq_none (Nat.le_refl _)] at hy
      cases hy

/-- An instruction that waits on a block: a jump does so on a loop or a conditional. -/
theorem await (h : Aimed E d s) (ho : Open s) (hb : s.blocks.get? id = some b) (hr : s.blocks.Reaches id)
    (op : Opcode) (p3 : Operand) (e : Nat)
    (hop : op.isEdge = true → e + s.blocks.guards id = d ∧ b.hasAny [.loop, .conditional] = true) :
    Aimed (aim E s.code.size e) d (after (await id op p3) s) := by
  rw [after_await]
  refine h.waiting ho hb hr _ e _ (fun _ => rfl) (fun _ => rfl) (fun i hw => ?_) (fun i hw => ?_)
    (fun he => .inl ⟨⟨op, s.code.size⟩, List.mem_append_right _ (List.mem_singleton.mpr rfl), he, rfl⟩) fun j hj => ?_
  · rcases hw with ⟨j, hj, hedge, rfl⟩ | hw
    · rcases List.mem_append.mp hj with hj | hj
      · exact .inl (.inl ⟨j, hj, hedge, rfl⟩)
      · rw [List.mem_singleton.mp hj] at hedge ⊢
        exact .inr ⟨rfl, hop hedge⟩
    · exact .inl (.inr hw)
  · rcases hw with ⟨j, hj, hedge⟩ | hw
    · exact .inl ⟨j, List.mem_append_left _ hj, hedge⟩
    · exact .inr hw
  · rcases List.mem_append.mp hj with hj | hj
    · exact .inl hj
    · rw [List.mem_singleton.mp hj]
      exact .inr ⟨rfl, fun hedge => hedge⟩

/-- The jump of a `continue` waits on a loop. -/
theorem awaitContinue (h : Aimed E d s) (ho : Open s) (hb : s.blocks.get? id = some b) (hr : s.blocks.Reaches id)
    (hdeferred : b.deferred.isSome = true) (e : Nat) (he : e + s.blocks.guards id = d)
    (hloop : b.hasAny [.loop, .conditional] = true) :
    Aimed (aim E s.code.size e) d (after (awaitContinue id) s) := by
  obtain ⟨is, his⟩ := Option.isSome_iff_exists.mp hdeferred
  have hdef : (b.deferred.map (· ++ [s.code.size])).getD [] = is ++ [s.code.size] := by
    rw [his]
    rfl
  rw [after_awaitContinue]
  refine h.waiting ho hb hr _ e _ (fun b => by simp [Block.shape]) (fun _ => rfl) (fun i hw => ?_) (fun i hw => ?_)
    (fun _ => .inr ?_) fun j hj => .inl hj
  · rcases hw with hw | hw
    · exact .inl (.inl hw)
    · rw [hdef] at hw
      rcases List.mem_append.mp hw with hw | hw
      · refine .inl (.inr ?_)
        rw [his]
        exact hw
      · exact .inr ⟨List.mem_singleton.mp hw, he, hloop⟩
  · rcases hw with hw | hw
    · exact .inl hw
    · refine .inr ?_
      rw [hdef]
      rw [his] at hw
      exact List.mem_append_left _ hw
  · rw [hdef]
    exact List.mem_append_right _ (List.mem_singleton.mpr rfl)

theorem restartHere (h : Aimed E d s) (hb : s.blocks.Innermost id b) (hd : d = s.depth) :
    Aimed E d (after (restartHere id) s) := by
  rw [after_restartHere]
  refine h.modify hb.block _ (fun _ => rfl) (fun hloop => ?_) (fun i hw => .inl hw) (fun i hw => .inl hw)
    fun j hj => .inl hj
  have := h.firsts id b hb.block hb.reaches hloop
  rw [BlockStack.guards_innermost hb] at this
  exact hd.symm.trans this.symm

/-- A block is entered, one handler deeper if it is a protected body. -/
theorem enter (h : Aimed E d s) (tags : List BlockTag) (first : Nat) (owner : BlockOwner)
    (deferred : Option (List Nat)) (hdeferred : deferred.getD [] = [])
    (ht : tags.contains .guarded = false ∧ tags.contains .function = false)
    (hfirst : tags.contains .loop = true → handlers s.code first = d + (tags.contains .exception).toNat) :
    Aimed E (d + (tags.contains .exception).toNat) (after (enter tags first owner deferred) s) := by
  rw [after_enter]
  have hin : ∀ {k : Nat} {c : Block}, s.blocks.get? k = some c → k < s.blocks.blocks.size :=
    fun hc => (Array.getElem?_eq_some_iff.mp hc).1
  -- The new block hides none of the others, and nothing waits on it.
  have hreach : ∀ {k : Nat}, k < s.blocks.blocks.size →
      ((BlockStack.mk (s.blocks.blocks.push ⟨tags, first, owner, [], deferred⟩)).Reaches k ↔ s.blocks.Reaches k) := by
    intro k hk
    rw [s.blocks.reaches_push _ hk]
    refine ⟨And.right, fun hr => ⟨?_, hr⟩⟩
    simp [Block.isBoundary, Block.hasAny]
    simpa using ht
  have hget : ∀ {k : Nat} {c : Block},
      (BlockStack.mk (s.blocks.blocks.push ⟨tags, first, owner, [], deferred⟩)).get? k = some c →
        k = s.blocks.blocks.size ∧ c = ⟨tags, first, owner, [], deferred⟩ ∨ s.blocks.get? k = some c := by
    intro k c hc
    rw [BlockStack.get?_push] at hc
    split at hc
    · cases hc
      exact .inl ⟨‹_›, rfl⟩
    · exact .inr hc
  have hnone : ∀ i, ¬(Block.mk tags first owner [] deferred).Waits i := by
    rintro i (⟨j, hj, -⟩ | hi)
    · exact absurd hj (List.not_mem_nil)
    · have hi' : i ∈ deferred.getD [] := hi
      rw [hdeferred] at hi'
      exact absurd hi' (List.not_mem_nil)
  have hguards : ∀ {k : Nat}, k < s.blocks.blocks.size →
      (BlockStack.mk (s.blocks.blocks.push ⟨tags, first, owner, [], deferred⟩)).guards k =
        s.blocks.guards k + (tags.contains .exception).toNat := by
    intro k hk
    rw [s.blocks.guards_push _ hk]
    simp [Block.isProtected, Block.hasAny]
  refine ⟨fun i x hx he => ?_, fun k i hr hw => ?_, fun k c hc hr hloop => ?_, fun k c hc hr j hj hop x hx => ?_,
    fun k c hc hr hnot i hw => ?_⟩
  · rcases h.edges i x hx he with hp | ⟨k, hr, c, hc, hw⟩
    · exact .inl hp
    · refine .inr ⟨k, (hreach (hin hc)).mpr hr, c, ?_, hw⟩
      rw [BlockStack.get?_push, if_neg (Nat.ne_of_lt (hin hc))]
      exact hc
  · obtain ⟨c, hc, hw⟩ := hw
    rcases hget hc with ⟨-, rfl⟩ | hc
    · exact absurd hw (hnone i)
    · show E i + BlockStack.guards _ k = _
      rw [hguards (hin hc), ← Nat.add_assoc, h.waits k i ((hreach (hin hc)).mp hr) ⟨c, hc, hw⟩]
  · show handlers s.code c.first + BlockStack.guards _ k = _
    rcases hget hc with ⟨rfl, rfl⟩ | hc
    · have hzero := BlockStack.guards_innermost (innermost_enter tags first owner deferred s)
      rw [after_enter] at hzero
      rw [hzero]
      refine hfirst ?_
      simpa [Block.hasAny] using hloop
    · rw [hguards (hin hc), ← Nat.add_assoc, h.firsts k c hc ((hreach (hin hc)).mp hr) hloop]
  · rcases hget hc with ⟨-, rfl⟩ | hc
    · exact absurd hj (List.not_mem_nil)
    · exact h.others k c hc ((hreach (hin hc)).mp hr) j hj hop x hx
  · obtain ⟨c', hc', hw⟩ := hw
    obtain rfl : c' = c := Option.some.inj (hc'.symm.trans hc)
    rcases hget hc with ⟨-, rfl⟩ | hc
    · exact hnone i hw
    · exact h.own k c' hc ((hreach (hin hc)).mp hr) hnot i ⟨c', hc, hw⟩

/-- A block is left on which nothing waits. -/
theorem leave {k : Nat} (h : Aimed E d s) (hb : s.blocks.Innermost id b) (hid : 0 < id) (hn : b.isBoundary = false)
    (hk : d = k + b.isProtected.toNat) (hw : ∀ i, ¬b.Waits i) : Aimed E k (after leave s) := by
  have hsize := hb.size
  rw [after_leave]
  have hget : ∀ {m : Nat} {c : Block}, s.blocks.leave.get? m = some c → m < id ∧ s.blocks.get? m = some c := by
    intro m c hc
    rw [BlockStack.get?_leave _ (by omega)] at hc
    split at hc
    · exact ⟨by omega, hc⟩
    · cases hc
  have hreach : ∀ {m : Nat}, m < id → s.blocks.leave.Reaches m → s.blocks.Reaches m := by
    intro m hm hr n c hn' hc
    by_cases hlast : n = id
    · rw [hlast, hb.block] at hc
      cases hc
      exact hn
    · have := (Array.getElem?_eq_some_iff.mp hc).1
      refine hr n c hn' ?_
      rw [BlockStack.get?_leave _ (by omega), if_pos (by omega)]
      exact hc
  have hguards : ∀ {m e : Nat}, m < id → e + s.blocks.guards m = d → e + s.blocks.leave.guards m = k := by
    intro m e hm he
    rw [BlockStack.guards_leave hb hid hm] at he
    omega
  refine ⟨fun i x hx he => ?_, fun m i hr hwait => ?_, fun m c hc hr hloop => ?_, fun m c hc hr j hj hop x hx => ?_,
    fun m c hc hr hnot i hwait => ?_⟩
  · rcases h.edges i x hx he with hp | ⟨m, hr, c, hc, hwait⟩
    · exact .inl hp
    · have hm : m < id := by
        have := (Array.getElem?_eq_some_iff.mp hc).1
        refine Nat.lt_of_le_of_ne (by omega) fun hm => ?_
        rw [hm, hb.block] at hc
        cases hc
        exact hw i hwait
      have hget' : ∀ n < id, s.blocks.leave.get? n = s.blocks.get? n := by
        intro n hn'
        rw [BlockStack.get?_leave _ (by omega), if_pos (by omega)]
      refine .inr ⟨m, fun n c' hn' hc' => hr n c' hn' (hget hc').2, c, ?_, hwait⟩
      rw [hget' m hm]
      exact hc
  · obtain ⟨c, hc, hwait⟩ := hwait
    exact hguards (hget hc).1 (h.waits m i (hreach (hget hc).1 hr) ⟨c, (hget hc).2, hwait⟩)
  · exact hguards (hget hc).1 (h.firsts m c (hget hc).2 (hreach (hget hc).1 hr) hloop)
  · exact h.others m c (hget hc).2 (hreach (hget hc).1 hr) j hj hop x hx
  · obtain ⟨c', hc', hwait⟩ := hwait
    obtain rfl : c' = c := Option.some.inj (hc'.symm.trans hc)
    exact h.own m c' (hget hc).2 (hreach (hget hc).1 hr) hnot i ⟨c', (hget hc).2, hwait⟩

end Aimed

end StackScript
