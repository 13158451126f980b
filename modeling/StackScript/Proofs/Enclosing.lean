/-
Blocks kept with links.

The running stack knows a block by its depth, so the block around it needs no name.  A `BlockArena` keeps the same
blocks the long way: every block names the one around it, a cursor names the innermost one, and leaving a block
follows its link and drops everything from the block on.  Whatever is done to the two, they hold the same blocks in
the same places, and a link always leads one place down.

The search for an enclosing block, which walks along the links and counts what it passes, therefore finds what the
running stack finds: on the way out from the innermost block, the block with so many matches up to it, if no block
inside it keeps control flow from leaving.
-/
import StackScript.Proofs.Layout

namespace StackScript

/-! ### The arena -/

/-- A block that names the block around it. -/
structure LinkedBlock where
  block : Block
  parent : Option Nat

/-- Blocks with their links, and the innermost one. -/
structure BlockArena where
  links : Array LinkedBlock
  current : Nat

namespace BlockArena

def root : BlockArena := ⟨#[⟨{ tags := [.global], first := 0, owner := .none }, none⟩], 0⟩

def get? (a : BlockArena) (id : Nat) : Option LinkedBlock := a.links[id]?

/-- Enters a block inside the current one. -/
def enter (a : BlockArena) (b : Block) : BlockArena := ⟨a.links.push ⟨b, some a.current⟩, a.links.size⟩

/-- Goes back to the block around the current one, and drops the current one and what is behind it. -/
def leave (a : BlockArena) : BlockArena :=
  match (a.get? a.current).bind LinkedBlock.parent with
  | none => a
  | some parent => ⟨a.links.take a.current, parent⟩

def modify (a : BlockArena) (id : Nat) (f : Block → Block) : BlockArena :=
  { a with links := a.links.modify id fun l => { l with block := f l.block } }

/-- Whether a block has any of the tags. -/
def has (a : BlockArena) (tags : List BlockTag) (id : Nat) : Bool := (a.get? id).any (·.block.hasAny tags)

/-- Whether control flow may not leave past a block. -/
def bounds (a : BlockArena) (id : Nat) : Bool := (a.get? id).any (·.block.isBoundary)

/-- The blocks met from a block outwards, as the links lead. -/
inductive Path (a : BlockArena) : Nat → List Nat → Prop
  | outermost {id : Nat} {l : LinkedBlock} (hl : a.get? id = some l) (hp : l.parent = none) : Path a id [id]
  | outward {id p : Nat} {l : LinkedBlock} {path : List Nat} (hl : a.get? id = some l) (hp : l.parent = some p)
      (h : Path a p path) : Path a id (id :: path)

/-- What the search for a block with any of the tags finds from a block on, with so many matches to go. -/
inductive Search (a : BlockArena) (tags : List BlockTag) : Nat → Int → Option Nat → Prop
  | found {id : Nat} {count : Int} (hm : a.has tags id = true) (hc : count - 1 < 1) :
      Search a tags id count (some id)
  | bounded {id : Nat} {count : Int} (hm : a.has tags id = true → 1 ≤ count - 1) (hb : a.bounds id = true) :
      Search a tags id count none
  | outermost {id : Nat} {count : Int} {l : LinkedBlock} (hl : a.get? id = some l)
      (hm : a.has tags id = true → 1 ≤ count - 1) (hb : a.bounds id = false) (hp : l.parent = none) :
      Search a tags id count none
  | outward {id p : Nat} {count : Int} {l : LinkedBlock} {r : Option Nat} (hl : a.get? id = some l)
      (hm : a.has tags id = true → 1 ≤ count - 1) (hb : a.bounds id = false) (hp : l.parent = some p)
      (h : Search a tags p (if a.has tags id then count - 1 else count) r) : Search a tags id count r

/-- The count a search starts with. -/
def startCount (level : Nat) : Int := if level < 2 then 0 else level

/-- Block `id` is the `n`-th one on a path with any of the tags, and no block before it on the path keeps control
flow from leaving. -/
def Encloses (a : BlockArena) (tags : List BlockTag) (n : Nat) (path : List Nat) (id : Nat) : Prop :=
  ∃ inner outer, path = inner ++ id :: outer ∧ a.has tags id = true ∧ inner.countP (a.has tags) + 1 = n ∧
    ∀ k ∈ inner, a.bounds k = false

end BlockArena

namespace BlockArena

variable {a : BlockArena} {tags : List BlockTag}

/-- A search finds one thing. -/
theorem Search.unique {id : Nat} {count : Int} {r r' : Option Nat} (h : a.Search tags id count r)
    (h' : a.Search tags id count r') : r = r' := by
  induction h with
  | found hm hc =>
      cases h' with
      | found => rfl
      | bounded hm' | outermost _ hm' | outward _ hm' => exact absurd (hm' hm) (by omega)
  | bounded hm hb =>
      cases h' with
      | found hm' => exact absurd (hm hm') (by omega)
      | bounded | outermost => rfl
      | outward _ _ hb' => exact absurd (hb.symm.trans hb') (by decide)
  | outermost hl hm hb hp =>
      cases h' with
      | found hm' => exact absurd (hm hm') (by omega)
      | bounded | outermost => rfl
      | outward hl' _ _ hp' =>
          cases hl.symm.trans hl'
          exact absurd (hp.symm.trans hp') nofun
  | outward hl hm hb hp _ ih =>
      cases h' with
      | found hm' => exact absurd (hm hm') (by omega)
      | bounded _ hb' => exact absurd (hb.symm.trans hb') (by decide)
      | outermost hl' _ _ hp' =>
          cases hl.symm.trans hl'
          exact absurd (hp.symm.trans hp') nofun
      | outward hl' _ _ hp' h' =>
          cases hl.symm.trans hl'
          cases hp.symm.trans hp'
          exact ih h'

theorem not_encloses_nil (n id : Nat) : ¬a.Encloses tags n [] id := by
  rintro ⟨inner, outer, hpath, -⟩
  exact absurd hpath (by simp)

/-- The block asked for is the first one of the path, or is found behind it. -/
theorem encloses_cons (n k : Nat) (path : List Nat) (id : Nat) :
    a.Encloses tags n (k :: path) id ↔
      (id = k ∧ a.has tags k = true ∧ n = 1) ∨
      (a.bounds k = false ∧ ∃ m, a.Encloses tags m path id ∧ n = m + if a.has tags k then 1 else 0) := by
  constructor
  · rintro ⟨inner, outer, hpath, hm, hn, hopen⟩
    cases inner with
    | nil =>
        obtain ⟨rfl, rfl⟩ := List.cons.inj hpath
        exact .inl ⟨rfl, hm, hn.symm⟩
    | cons j inner =>
        obtain ⟨rfl, rfl⟩ := List.cons.inj hpath
        rw [List.countP_cons] at hn
        exact .inr ⟨hopen _ (List.mem_cons_self ..), _,
          ⟨inner, outer, rfl, hm, rfl, fun i hi => hopen i (List.mem_cons_of_mem _ hi)⟩, by omega⟩
  · rintro (⟨rfl, hm, rfl⟩ | ⟨hb, m, ⟨inner, outer, rfl, hm, rfl, hopen⟩, rfl⟩)
    · exact ⟨[], path, rfl, hm, rfl, fun _ hi => absurd hi (List.not_mem_nil)⟩
    · refine ⟨k :: inner, outer, rfl, hm, ?_, fun i hi => ?_⟩
      · rw [List.countP_cons]
        omega
      · rcases List.mem_cons.mp hi with rfl | hi
        · exact hb
        · exact hopen i hi

theorem Encloses.pos {n : Nat} {path : List Nat} {id : Nat} (h : a.Encloses tags n path id) : 0 < n := by
  obtain ⟨inner, outer, -, -, rfl, -⟩ := h
  exact Nat.succ_pos _

end BlockArena

/-! ### What is done to blocks -/

/-- A change of the enclosing blocks. -/
inductive BlockOp where
  | enter (tags : List BlockTag) (first : Nat) (owner : BlockOwner)
  /-- Enters a loop that defers the jumps of `continue`. -/
  | enterDeferring (tags : List BlockTag) (first : Nat)
  | leave
  | await (id : Nat) (op : Opcode) (index : Nat)
  | awaitContinue (id index : Nat)
  | settle (id : Nat) (op : Option Opcode) (target : Nat) (code : Code)
  | settleContinue (id target : Nat) (code : Code)

def BlockStack.apply (s : BlockStack) : BlockOp → BlockStack
  | .enter tags first owner => (s.enter { tags := tags, first := first, owner := owner }).2
  | .enterDeferring tags first =>
    (s.enter { tags := tags, first := first, owner := .none, deferred := some [] }).2
  | .leave => s.leave
  | .await id op index => s.await id op index
  | .awaitContinue id index => s.awaitContinue id index
  | .settle id op target code => (s.settle id op target code).2.1
  | .settleContinue id target code => (s.settleContinue id target code).2.1

def BlockArena.apply (a : BlockArena) : BlockOp → BlockArena
  | .enter tags first owner => a.enter { tags := tags, first := first, owner := owner }
  | .enterDeferring tags first => a.enter { tags := tags, first := first, owner := .none, deferred := some [] }
  | .leave => a.leave
  | .await id op index => a.modify id fun b => { b with pending := b.pending ++ [⟨op, index⟩] }
  | .awaitContinue id index => a.modify id fun b => { b with deferred := b.deferred.map (· ++ [index]) }
  | .settle id op _ code =>
    a.modify id fun b => { b with pending := b.pending.filter fun j => !BlockStack.settles op code j }
  | .settleContinue id _ _ => a.modify id fun b => { b with deferred := b.deferred.map fun _ => [] }

/-- The stack after changes from the start of a compilation on. -/
def BlockStack.run (ops : List BlockOp) : BlockStack := ops.foldl BlockStack.apply BlockStack.root

/-- The arena after the same changes. -/
def BlockArena.run (ops : List BlockOp) : BlockArena := ops.foldl BlockArena.apply BlockArena.root

/-! ### An arena holds the blocks of the stack -/

/-- The arena holds the blocks of the stack, its cursor is on the last one, and a link leads one place down. -/
structure BlockArena.Links (a : BlockArena) (s : BlockStack) : Prop where
  blocks : s.blocks = a.links.map LinkedBlock.block
  current : a.current + 1 = a.links.size
  parent : ∀ i l, a.get? i = some l → l.parent = BlockStack.parent? i

theorem BlockStack.parent?_eq_none {id : Nat} : BlockStack.parent? id = none ↔ id = 0 := by
  unfold BlockStack.parent?
  split <;> simp [*]

theorem BlockStack.parent?_eq_some {id p : Nat} : BlockStack.parent? id = some p ↔ id = p + 1 := by
  unfold BlockStack.parent?
  split
  · simp [*]
  · rw [Option.some.injEq]
    omega

namespace BlockArena.Links

variable {a : BlockArena} {s : BlockStack}

theorem size (h : Links a s) : s.blocks.size = a.links.size := by
  rw [h.blocks, Array.size_map]

theorem get? (h : Links a s) (id : Nat) : s.get? id = (a.get? id).map LinkedBlock.block := by
  unfold BlockStack.get?
  rw [h.blocks, Array.getElem?_map]
  rfl

theorem current_eq (h : Links a s) : s.current = a.current := by
  have := h.size
  have := h.current
  unfold BlockStack.current
  omega

theorem root : Links BlockArena.root BlockStack.root := by
  refine ⟨by rw [BlockArena.root, List.map_toArray]; rfl, rfl, fun i l hl => ?_⟩
  obtain ⟨hi, rfl⟩ := Array.getElem?_eq_some_iff.mp hl
  obtain rfl : i = 0 := Nat.lt_one_iff.mp hi
  rfl

theorem enter (h : Links a s) (b : Block) : Links (a.enter b) (s.enter b).2 where
  blocks := by
    show s.blocks.push b = (a.links.push _).map LinkedBlock.block
    rw [Array.map_push, h.blocks]
  current := (Array.size_push _).symm
  parent := by
    intro i l hl
    have hl' : (a.links.push ⟨b, some a.current⟩)[i]? = some l := hl
    rw [Array.getElem?_push] at hl'
    split at hl'
    · rename_i hi
      cases hl'
      have := h.current
      rw [BlockStack.parent?, if_neg (by omega)]
      exact congrArg some (by omega)
    · exact h.parent i l hl'

/-- The link of the current block leads to the last block before it, so leaving drops one block. -/
theorem leave (h : Links a s) : Links a.leave s.leave := by
  have hcurrent := h.current
  obtain ⟨l, hl⟩ : ∃ l, a.get? a.current = some l := ⟨_, Array.getElem?_eq_getElem (by omega)⟩
  unfold BlockArena.leave BlockStack.leave
  rw [hl, Option.bind_some, h.parent _ _ hl, BlockStack.parent?]
  by_cases hroot : a.current = 0
  · rw [if_pos hroot, if_pos (by rw [h.size]; omega)]
    exact h
  · rw [if_neg hroot, if_neg (by rw [h.size]; omega)]
    have htake : a.links.take a.current = a.links.pop := Array.extract_eq_pop (by omega)
    refine ⟨?_, ?_, fun i k hk => ?_⟩
    · show s.blocks.pop = Array.map _ (a.links.take a.current)
      rw [htake, h.blocks, Array.map_pop]
    · show a.current - 1 + 1 = (a.links.take a.current).size
      rw [htake, Array.size_pop]
      omega
    · have hk' : (a.links.take a.current)[i]? = some k := hk
      rw [htake, Array.getElem?_pop] at hk'
      split at hk'
      · exact h.parent i k hk'
      · cases hk'

theorem modify (h : Links a s) (id : Nat) (f : Block → Block) : Links (a.modify id f) (s.modify id f) where
  blocks := by
    refine Array.ext_getElem? fun i => ?_
    show (s.blocks.modify id f)[i]? = ((a.links.modify id fun l => { l with block := f l.block }).map LinkedBlock.block)[i]?
    rw [Array.getElem?_map, Array.getElem?_modify, Array.getElem?_modify, h.blocks, Array.getElem?_map]
    split <;> simp only [Option.map_map] <;> rfl
  current := h.current.trans (Array.size_modify ..).symm
  parent := by
    intro i l hl
    have hl' : (a.links.modify id _)[i]? = some l := hl
    rw [Array.getElem?_modify] at hl'
    split at hl'
    · obtain ⟨k, hk, rfl⟩ := Option.map_eq_some_iff.mp hl'
      exact h.parent i k hk
    · exact h.parent i l hl'

/-- Every change keeps an arena and a stack together. -/
theorem apply (h : Links a s) (op : BlockOp) : Links (a.apply op) (s.apply op) := by
  unfold BlockArena.apply BlockStack.apply
  cases op with
  | enter tags first owner => exact h.enter _
  | enterDeferring tags first => exact h.enter _
  | leave => exact h.leave
  | await id op index => exact h.modify id _
  | awaitContinue id index => exact h.modify id _
  | settle id op target code => exact h.modify id _
  | settleContinue id target code => exact h.modify id _

theorem foldl (h : Links a s) (ops : List BlockOp) :
    Links (ops.foldl BlockArena.apply a) (ops.foldl BlockStack.apply s) := by
  induction ops generalizing a s with
  | nil => exact h
  | cons op ops ih => exact ih (h.apply op)

/-- They are together from the start on. -/
theorem run (ops : List BlockOp) : Links (BlockArena.run ops) (BlockStack.run ops) := root.foldl ops

/-! ### Searches along the links -/

theorem has_of_get? {tags : List BlockTag} {id : Nat} {l : LinkedBlock} (hl : a.get? id = some l) :
    a.has tags id = l.block.hasAny tags := by
  rw [has, hl, Option.any_some]

theorem bounds_of_get? {id : Nat} {l : LinkedBlock} (hl : a.get? id = some l) :
    a.bounds id = l.block.isBoundary := by
  rw [bounds, hl, Option.any_some]

/-- The links lead through every block further out. -/
theorem path (h : Links a s) {n : Nat} (hn : n < a.links.size) : a.Path n (List.range (n + 1)).reverse := by
  induction n with
  | zero =>
      have hl : a.get? 0 = some a.links[0] := Array.getElem?_eq_getElem hn
      exact .outermost hl (h.parent _ _ hl)
  | succ n ih =>
      have hl : a.get? (n + 1) = some a.links[n + 1] := Array.getElem?_eq_getElem hn
      rw [List.range_succ, List.reverse_append]
      exact .outward hl (h.parent _ _ hl) (ih (Nat.lt_of_succ_lt hn))

/-- One look at a block: what the running stack does there, in terms of the arena. -/
theorem enclosingFrom_succ (h : Links a s) (tags : List BlockTag) {n : Nat} (hn : n < a.links.size) (count : Nat) :
    s.enclosingFrom tags (n + 1) count =
      if a.has tags n && count ≤ 1 then some n
      else if a.bounds n then none
      else s.enclosingFrom tags n (if a.has tags n then count - 1 else count) := by
  have hl : a.get? n = some a.links[n] := Array.getElem?_eq_getElem hn
  rw [BlockStack.enclosingFrom, h.get?, hl, has_of_get? hl, bounds_of_get? hl]
  rfl

/-- The search along the links finds what the running stack finds.  The two counts agree where it matters: both
ask for the next match, or they are equal. -/
theorem search (h : Links a s) (tags : List BlockTag) {n : Nat} (hn : n < a.links.size) {count : Nat} {c : Int}
    (hc : max c 1 = max (count : Int) 1) : a.Search tags n c (s.enclosingFrom tags (n + 1) count) := by
  induction n using Nat.strongRecOn generalizing count c with
  | ind n ih =>
      have hl : a.get? n = some a.links[n] := Array.getElem?_eq_getElem hn
      have hlink := h.parent _ _ hl
      rw [h.enclosingFrom_succ tags hn]
      split
      · rename_i hfound
        obtain ⟨hm, hcount⟩ := by simpa using hfound
        exact .found hm (by omega)
      · rename_i hfound
        have hm : a.has tags n = true → 1 ≤ c - 1 := by
          intro hm
          have : ¬count ≤ 1 := by simpa [hm] using hfound
          omega
        split
        · exact .bounded hm ‹_›
        · rename_i hopen
          have hb : a.bounds n = false := Bool.eq_false_iff.mpr hopen
          cases n with
          | zero => exact .outermost hl hm hb hlink
          | succ n =>
              refine .outward hl hm hb hlink (ih n (Nat.lt_succ_self n) (Nat.lt_of_succ_lt hn) ?_)
              split
              · have := hm ‹_›
                omega
              · exact hc

/-- What is known of the path behind a block extends to the block. -/
theorem enclosingFrom_cons (h : Links a s) (tags : List BlockTag) {n : Nat} (hn : n < a.links.size)
    {path : List Nat} {id : Nat}
    (hpath : ∀ count, s.enclosingFrom tags n count = some id ↔ a.Encloses tags (max count 1) path id) (count : Nat) :
    s.enclosingFrom tags (n + 1) count = some id ↔ a.Encloses tags (max count 1) (n :: path) id := by
  rw [h.enclosingFrom_succ tags hn, encloses_cons]
  by_cases hfound : a.has tags n = true ∧ count ≤ 1
  · rw [if_pos (by simpa using hfound)]
    constructor
    · rintro ⟨rfl⟩
      exact .inl ⟨rfl, hfound.1, by omega⟩
    · rintro (⟨rfl, -⟩ | ⟨-, m, hm, hcount⟩)
      · rfl
      · rw [if_pos hfound.1] at hcount
        have := hm.pos
        omega
  · have hnext : max (if a.has tags n then count - 1 else count) 1 + (if a.has tags n then 1 else 0) = max count 1 := by
      split
      · have : ¬count ≤ 1 := fun hcount => hfound ⟨‹_›, hcount⟩
        omega
      · rfl
    rw [if_neg (by simpa using hfound)]
    cases hb : a.bounds n with
    | true =>
        refine ⟨nofun, ?_⟩
        rintro (⟨-, hm, hcount⟩ | ⟨hopen, -⟩)
        · exact absurd ⟨hm, by omega⟩ hfound
        · cases hopen
    | false =>
        rw [if_neg (by decide), hpath]
        constructor
        · exact fun hid => .inr ⟨rfl, _, hid, hnext.symm⟩
        · rintro (⟨-, hm, hcount⟩ | ⟨-, m, hid, hcount⟩)
          · exact absurd ⟨hm, by omega⟩ hfound
          · obtain rfl : m = max (if a.has tags n then count - 1 else count) 1 := by omega
            exact hid

/-- A block is found exactly if it is the one asked for on the path outwards. -/
theorem enclosingFrom_iff (h : Links a s) (tags : List BlockTag) {n : Nat} {path : List Nat} (hp : a.Path n path)
    (count id : Nat) :
    s.enclosingFrom tags (n + 1) count = some id ↔ a.Encloses tags (max count 1) path id := by
  induction hp generalizing count with
  | outermost hl hnone =>
      obtain rfl := BlockStack.parent?_eq_none.mp ((h.parent _ _ hl).symm.trans hnone)
      refine h.enclosingFrom_cons tags (Array.getElem?_eq_some_iff.mp hl).1 (fun count => ?_) count
      exact ⟨nofun, fun hid => absurd hid (not_encloses_nil _ _)⟩
  | outward hl hsome _ ih =>
      obtain rfl := BlockStack.parent?_eq_some.mp ((h.parent _ _ hl).symm.trans hsome)
      exact h.enclosingFrom_cons tags (Array.getElem?_eq_some_iff.mp hl).1 ih count

end BlockArena.Links

/-! ### What is found -/

/-- Whatever is done to the blocks of a compilation, the current block is the last one and every other block lies
inside the one before it.  A search along the links and the search of the running stack find the same: the block that
is the `level`-th one with any of the tags on the way out, levels below two meaning the first, if control flow may
leave every block inside it; nothing, if there is no such block. -/
theorem enclosing?_along_links (ops : List BlockOp) :
    let a := BlockArena.run ops
    let s := BlockStack.run ops
    s.blocks = a.links.map LinkedBlock.block ∧
    s.current = a.current ∧ a.current + 1 = a.links.size ∧
    (∀ id l, a.get? id = some l → l.parent = BlockStack.parent? id) ∧
    ∃ path, a.Path a.current path ∧ ∀ tags level,
      (∀ r, a.Search tags a.current (BlockArena.startCount level) r ↔ r = s.enclosing? tags level) ∧
      (∀ id, s.enclosing? tags level = some id ↔ a.Encloses tags (max level 1) path id) ∧
      (s.enclosing? tags level = none ↔ ∀ id, ¬a.Encloses tags (max level 1) path id) := by
  intro a s
  have h : a.Links s := BlockArena.Links.run ops
  have hcurrent : a.current < a.links.size := by
    have := h.current
    omega
  have hpath := h.path hcurrent
  refine ⟨h.blocks, h.current_eq, h.current, h.parent, _, hpath, fun tags level => ?_⟩
  have hstart : max (BlockArena.startCount level) 1 = max (level : Int) 1 := by
    unfold BlockArena.startCount
    split <;> omega
  have hsearch := h.search tags hcurrent hstart
  have hfound := h.enclosingFrom_iff tags hpath level
  unfold BlockStack.enclosing?
  rw [h.size, ← h.current]
  refine ⟨fun r => ⟨fun hr => hr.unique hsearch, fun hr => hr ▸ hsearch⟩, hfound, ?_⟩
  rw [Option.eq_none_iff_forall_ne_some]
  exact forall_congr' fun id => not_congr (hfound id)

/-- From a loop in the body of a function, the loops around the function are out of reach. -/
example :
    let s := BlockStack.run [.enter [.loop] 0 .none, .enter [.function] 0 .none, .enterDeferring [.loop] 0]
    s.enclosing? [.loop] 1 = some 3 ∧ s.enclosing? [.loop] 2 = none := by decide

end StackScript
