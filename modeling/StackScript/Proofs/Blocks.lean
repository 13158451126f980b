/-
The stack of blocks, and the code that waiting jumps are filled into.

Statements may jump on the blocks around them, but only up to the innermost one that control flow may not
leave.  The blocks they `Reach` are those at or above it: a search for an enclosing loop finds a block that
can be reached, and so does the search for what catches an exception.
-/
import StackScript.Proofs.Run

namespace StackScript

/-! ### Filling in targets -/

/-- Filling in one target for some jumps changes no more than that. -/
theorem getElem?_foldl_patch {α : Type} (index : α → Nat) (target : Nat) (js : List α) (code : Code) (i : Nat) :
    (js.foldl (fun code j => code.patch (index j) target) code)[i]? =
      if i ∈ js.map index then code[i]?.map fun x => { x with p2 := target } else code[i]? := by
  induction js generalizing code with
  | nil => rw [List.map_nil, if_neg (List.not_mem_nil), List.foldl_nil]
  | cons j js ih =>
      rw [List.foldl_cons, ih, Code.getElem?_patch, List.map_cons]
      by_cases hi : index j = i
      · rw [if_pos hi, if_pos (List.mem_cons.mpr (.inl hi.symm))]
        by_cases hmem : i ∈ js.map index
        · rw [if_pos hmem, Option.map_map]
          rfl
        · rw [if_neg hmem]
      · rw [if_neg hi]
        by_cases hmem : i ∈ js.map index
        · rw [if_pos hmem, if_pos (List.mem_cons_of_mem _ hmem)]
        · rw [if_neg hmem, if_neg]
          rw [List.mem_cons]
          rintro (h | h)
          · exact hi h.symm
          · exact hmem h

/-- A block that has one of some tags has one of any tags these are among. -/
theorem Block.hasAny_mono {b : Block} {tags more : List BlockTag} (hsub : tags ⊆ more) (h : b.hasAny tags = true) :
    b.hasAny more = true := by
  obtain ⟨tag, hmem, hb⟩ := List.any_eq_true.mp h
  exact List.any_eq_true.mpr ⟨tag, hsub hmem, hb⟩

theorem Block.hasAny_anti {b : Block} {tags more : List BlockTag} (hsub : tags ⊆ more) (h : b.hasAny more = false) :
    b.hasAny tags = false :=
  Bool.eq_false_iff.mpr fun hany => Bool.eq_false_iff.mp h (hasAny_mono hsub hany)

theorem Block.hasAny_of_tags {b : Block} {tags more : List BlockTag} (htags : b.tags = tags)
    (h : tags.any more.contains = true) : b.hasAny more = true := by
  obtain ⟨tag, hmem, hmore⟩ := List.any_eq_true.mp h
  rw [Block.hasAny, htags]
  exact List.any_eq_true.mpr ⟨tag, List.contains_iff_mem.mp hmore, List.contains_iff_mem.mpr hmem⟩

/-- A construct jumps on its own block where that is one of a loop or of a conditional. -/
theorem OwnJump.hasAny {b : Block} {op : Opcode} (h : OwnJump b op) : b.hasAny [.loop, .conditional] = true := by
  cases h with
  | out hany => exact hany
  | past hany => exact Block.hasAny_mono (by decide) hany

/-- The tags of a block decide what it has. -/
theorem Block.hasAny_congr {b c : Block} (h : c.shape = b.shape) (tags : List BlockTag) :
    c.hasAny tags = b.hasAny tags := by
  have htags : c.tags = b.tags := congrArg Prod.fst h
  unfold Block.hasAny
  rw [htags]

/-- So does what it defers. -/
theorem Block.undeferred_congr {b c : Block} (h : c.shape = b.shape) (hdeferred : b.deferred = none) :
    c.deferred = none := by
  have hsome : c.deferred.isSome = b.deferred.isSome := congrArg (fun shape => shape.2.2) h
  rw [hdeferred] at hsome
  exact Option.not_isSome_iff_eq_none.mp (by rw [hsome]; decide)

/-- A block on which nothing may wait is known by its shape and its start. -/
theorem Block.eq_of_shape {b c : Block} (h : c.shape = b.shape) (hfirst : c.first = b.first)
    (hpending : c.pending = b.pending) (hdeferred : b.deferred = none) : c = b := by
  obtain ⟨tags, owner, -⟩ : c.tags = b.tags ∧ c.owner = b.owner ∧ c.deferred.isSome = b.deferred.isSome := by
    simpa [Block.shape] using h
  have : c.deferred = b.deferred := (Block.undeferred_congr h hdeferred).trans hdeferred.symm
  cases b
  cases c
  simp_all

/-- The blocks inside one that has just been entered. -/
theorem shapes_entered {s : GenState} {bs : BlockStack} {tags : List BlockTag} {first : Nat} {owner : BlockOwner}
    {deferred : Option (List Nat)} {b : Block} (hs : s.blocks.shapes = bs.shapes)
    (hb : b.shape = (tags, owner, deferred.isSome)) :
    (Gen.after (Gen.enter tags first owner deferred) s).blocks.shapes = (BlockStack.mk (bs.blocks.push b)).shapes := by
  rw [Gen.after_enter]
  unfold BlockStack.shapes at hs ⊢
  rw [Array.map_push, Array.map_push, hs, hb]
  rfl

namespace BlockStack

variable {bs : BlockStack} {id k : Nat} {b : Block}

theorem get?_modify (bs : BlockStack) (id k : Nat) (f : Block → Block) :
    (bs.modify id f).get? k = if id = k then (bs.get? k).map f else bs.get? k := by
  unfold modify get?
  exact Array.getElem?_modify

theorem ext_get? {cs : BlockStack} (h : ∀ k, bs.get? k = cs.get? k) : bs = cs := by
  cases bs
  cases cs
  exact congrArg mk (Array.ext_getElem? h)

theorem size_modify (bs : BlockStack) (id : Nat) (f : Block → Block) :
    (bs.modify id f).blocks.size = bs.blocks.size := Array.size_modify ..

/-- No block further inside keeps control flow from leaving. -/
def Reaches (bs : BlockStack) (id : Nat) : Prop :=
  ∀ k b, id < k → bs.get? k = some b → b.isBoundary = false

theorem size_congr {cs : BlockStack} (h : cs.shapes = bs.shapes) : cs.blocks.size = bs.blocks.size := by
  have := congrArg Array.size h
  simpa [shapes] using this

/-- Stacks of one shape have their blocks in the same places. -/
theorem get?_congr {cs : BlockStack} (h : cs.shapes = bs.shapes) (hb : bs.get? id = some b) :
    ∃ c, cs.get? id = some c ∧ c.shape = b.shape := by
  have hshape : cs.shapes[id]? = bs.shapes[id]? := by rw [h]
  simp only [shapes, Array.getElem?_map] at hshape
  have hb' : bs.blocks[id]? = some b := hb
  rw [hb'] at hshape
  exact Option.map_eq_some_iff.mp hshape

/-- Which blocks can be reached depends on their tags only. -/
theorem reaches_congr {cs : BlockStack} (h : cs.shapes = bs.shapes) (id : Nat) :
    cs.Reaches id ↔ bs.Reaches id := by
  have imp : ∀ {bs cs : BlockStack}, cs.shapes = bs.shapes → bs.Reaches id → cs.Reaches id := by
    intro bs cs h hr k c hk hc
    obtain ⟨b, hb, hshape⟩ := get?_congr h.symm hc
    have htags : b.tags = c.tags := congrArg Prod.fst hshape
    have := hr k b hk hb
    unfold Block.isBoundary Block.hasAny at this ⊢
    rwa [← htags]
  exact ⟨imp h.symm, imp h⟩

theorem Innermost.reaches (h : bs.Innermost id b) : bs.Reaches id := by
  intro k c hk hc
  have : bs.blocks.size ≤ k := by
    rw [h.size]
    exact hk
  rw [get?, Array.getElem?_eq_none this] at hc
  cases hc

theorem Innermost.settle {t : GenState} (h : t.blocks.Innermost id b) (op : Option Opcode) :
    (Gen.after (Gen.settle id op) t).blocks.Innermost id
      { b with pending := b.pending.filter fun j => !settles op t.code j } := by
  refine ⟨(size_modify ..).trans h.size, (get?_modify ..).trans ?_⟩
  rw [if_pos rfl, h.block]
  rfl

theorem Innermost.settleContinue {t : GenState} (h : t.blocks.Innermost id b) :
    (Gen.after (Gen.settleContinue id) t).blocks.Innermost id { b with deferred := b.deferred.map fun _ => [] } := by
  refine ⟨(size_modify ..).trans h.size, (get?_modify ..).trans ?_⟩
  rw [if_pos rfl, h.block]
  rfl

/-! ### Searches -/

theorem enclosingFrom_reaches {tags : List BlockTag} {n count : Nat}
    (hn : ∀ k b, n ≤ k → bs.get? k = some b → b.isBoundary = false)
    (h : bs.enclosingFrom tags n count = some id) :
    bs.Reaches id ∧ ∃ b, bs.get? id = some b ∧ b.hasAny tags = true := by
  induction n generalizing count with
  | zero => cases h
  | succ n ih =>
      unfold enclosingFrom at h
      cases hb : bs.get? n with
      | none =>
          rw [hb] at h
          cases h
      | some b =>
          rw [hb] at h
          dsimp only at h
          split at h
          · cases h
            rename_i hfound
            rw [Bool.and_eq_true] at hfound
            exact ⟨fun k c hk hc => hn k c hk hc, b, hb, hfound.1⟩
          · split at h
            · cases h
            · rename_i hboundary
              refine ih ?_ h
              intro k c hk hc
              by_cases hkn : k = n
              · rw [hkn, hb] at hc
                cases hc
                exact Bool.not_eq_true _ ▸ hboundary
              · exact hn k c (by omega) hc

/-- A search for an enclosing block stays where control flow may go. -/
theorem enclosing?_reaches {tags : List BlockTag} {level : Nat} (h : bs.enclosing? tags level = some id) :
    bs.Reaches id ∧ ∃ b, bs.get? id = some b ∧ b.hasAny tags = true := by
  refine enclosingFrom_reaches (fun k b hk hb => ?_) h
  rw [get?, Array.getElem?_eq_none hk] at hb
  cases hb

/-- The innermost block with some tags has them, and no block further inside does. -/
theorem nearestFrom_spec (bs : BlockStack) (tags : List BlockTag) (n : Nat) :
    (∀ id, bs.nearestFrom tags n = some id → (∃ b, bs.get? id = some b ∧ b.hasAny tags = true) ∧
      ∀ k b, id < k → k < n → bs.get? k = some b → b.hasAny tags = false) ∧
    (bs.nearestFrom tags n = none → ∀ k b, k < n → bs.get? k = some b → b.hasAny tags = false) := by
  induction n with
  | zero =>
      refine ⟨fun id h => ?_, fun _ k b hk _ => absurd hk (Nat.not_lt_zero k)⟩
      cases h
  | succ n ih =>
      unfold nearestFrom
      cases hb : (bs.get? n).any (·.hasAny tags) with
      | true =>
          refine ⟨fun id h => ?_, fun h => ?_⟩
          · cases h
            obtain ⟨b, hget, hany⟩ := (Option.any_eq_true _ _).mp hb
            exact ⟨⟨b, hget, hany⟩, fun k c hk hk' _ => by omega⟩
          · cases h
      | false =>
          have hn : ∀ c, bs.get? n = some c → c.hasAny tags = false := by
            intro c hc
            rw [hc] at hb
            exact hb
          refine ⟨fun id h => ?_, fun h k c hk hc => ?_⟩
          · obtain ⟨hfound, habove⟩ := ih.1 id h
            refine ⟨hfound, fun k c hk hk' hc => ?_⟩
            by_cases hkn : k = n
            · exact hn c (hkn ▸ hc)
            · exact habove k c hk (by omega) hc
          · by_cases hkn : k = n
            · exact hn c (hkn ▸ hc)
            · exact ih.2 h k c (by omega) hc

/-! ### Entering and leaving -/

theorem get?_push (bs : BlockStack) (b : Block) (k : Nat) :
    (BlockStack.mk (bs.blocks.push b)).get? k = if k = bs.blocks.size then some b else bs.get? k :=
  Array.getElem?_push

/-- A block that keeps control flow inside hides the ones around it; any other block hides none. -/
theorem reaches_push (bs : BlockStack) (b : Block) (hid : id < bs.blocks.size) :
    (BlockStack.mk (bs.blocks.push b)).Reaches id ↔ b.isBoundary = false ∧ bs.Reaches id := by
  constructor
  · intro h
    refine ⟨h bs.blocks.size b hid (by rw [get?_push, if_pos rfl]), fun k c hk hc => ?_⟩
    refine h k c hk ?_
    rw [get?_push, if_neg, hc]
    rintro rfl
    rw [get?, Array.getElem?_eq_none (Nat.le_refl _)] at hc
    cases hc
  · rintro ⟨hb, h⟩ k c hk hc
    rw [get?_push] at hc
    split at hc
    · cases hc
      exact hb
    · exact h k c hk hc

theorem get?_leave (bs : BlockStack) (h : 1 < bs.blocks.size) (k : Nat) :
    bs.leave.get? k = if k < bs.blocks.size - 1 then bs.get? k else none := by
  unfold leave get?
  rw [if_neg (by omega)]
  exact Array.getElem?_pop

theorem leaving?_eq (h : bs.Innermost id b) (hid : 0 < id) : bs.leaving? = some b := by
  have hsize := h.size
  unfold leaving?
  rw [if_neg (by omega), Array.back?_eq_getElem?, hsize]
  exact h.block

end BlockStack

/-! ### The blocks of constructs and bodies -/

namespace IsConstruct

variable {tags : List BlockTag} {deferred : Option (List Nat)}

/-- A construct keeps no jump inside. -/
theorem hides (h : IsConstruct tags deferred) :
    tags.contains .guarded = false ∧ tags.contains .function = false := by
  cases h <;> decide

theorem unprotected (h : IsConstruct tags deferred) : tags.contains .exception = false := by
  cases h <;> decide

theorem undeferred (h : IsConstruct tags deferred) : deferred.getD [] = [] := by
  cases h <;> rfl

end IsConstruct

namespace IsBody

variable {b : Block} {op : Option Opcode}

theorem isBoundary (h : IsBody b op) : b.isBoundary = true := by
  rcases h.tags with ⟨htags, -⟩ | ⟨htags, -⟩ <;> rw [Block.isBoundary, Block.hasAny, htags] <;> rfl

/-- A body cannot be left, so no other block is reached from it. -/
theorem reached (h : IsBody b op) {bs : BlockStack} {id k : Nat} {c : Block} (hb : bs.Innermost id b)
    (hc : bs.get? k = some c) (hr : bs.Reaches k) : k = id ∧ c = b := by
  have hsize := hb.size
  have hlt : k < bs.blocks.size := (Array.getElem?_eq_some_iff.mp hc).1
  obtain rfl : k = id := by
    refine Nat.le_antisymm (by omega) (Nat.le_of_not_lt fun hk => ?_)
    exact absurd ((hr id b hk hb.block).symm.trans h.isBoundary) (by decide)
  exact ⟨rfl, Option.some.inj (hc.symm.trans hb.block)⟩

/-- What waits on a body when it ends is what is settled there. -/
theorem settles (h : IsBody b op) :
    op = none ∨ op = some .throw ∧ b.hasAny [.loop, .conditional, .exception] = false := by
  rcases h.tags with ⟨htags, hop⟩ | ⟨-, hop⟩
  · refine .inr ⟨hop, ?_⟩
    rw [Block.hasAny, htags]
    rfl
  · exact .inl hop

end IsBody

end StackScript
