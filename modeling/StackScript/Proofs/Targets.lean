/-
Code on the way to what it becomes.

A stage of a container has all its instructions already, but some jumps still wait on a block and have no
target yet.  `Leads` compares such a stage with the finished code: every instruction is there, and what
waits goes where `Aims` says, which gives a target for each block and each kind of jump on it.  The
comparison is made backwards.  When the jumps of a block are filled in their target is known, so what
`Leads` to the finished code behind that step does so before it as well, with one more target given.

No jump waits twice (`Tidy`); otherwise the target it is given first need not be the one it keeps.
-/
import StackScript.Proofs.Kept

namespace StackScript

open Gen

/-! ### What waits -/

/-- A jump at an index waits on the block: one of some kind, or the jump of a `continue`. -/
def Block.Awaits (b : Block) : Option Opcode → Nat → Prop
  | some op, i => ⟨op, i⟩ ∈ b.pending
  | none, i => i ∈ b.deferred.getD []

namespace BlockStack

variable {bs : BlockStack} {id : Nat} {b : Block}

/-- A jump at an index waits on a block. -/
def Awaits (bs : BlockStack) (id : Nat) (kind : Option Opcode) (i : Nat) : Prop :=
  ∃ b, bs.get? id = some b ∧ b.Awaits kind i

theorem awaits_modify (hb : bs.get? id = some b) (f : Block → Block) (k : Nat) (kind : Option Opcode) (i : Nat) :
    (bs.modify id f).Awaits k kind i ↔ if k = id then (f b).Awaits kind i else bs.Awaits k kind i := by
  unfold Awaits
  rw [get?_modify]
  by_cases hk : k = id
  · subst hk
    simp [hb]
  · rw [if_neg hk, if_neg (Ne.symm hk)]

/-- Nothing waits on a block that has just been entered. -/
theorem awaits_push (hp : b.pending = []) (hd : b.deferred.getD [] = []) (k : Nat) (kind : Option Opcode) (i : Nat) :
    (BlockStack.mk (bs.blocks.push b)).Awaits k kind i ↔ bs.Awaits k kind i := by
  unfold Awaits
  rw [get?_push]
  by_cases hk : k = bs.blocks.size
  · subst hk
    have hnone : bs.get? bs.blocks.size = none := Array.getElem?_eq_none (Nat.le_refl _)
    cases kind <;> simp [hnone, Block.Awaits, hp, hd]
  · rw [if_neg hk]

/-- A block on which nothing waits may be left. -/
theorem awaits_leave (hb : bs.Innermost id b) (hid : 0 < id) (hnone : ∀ kind i, ¬b.Awaits kind i) (k : Nat)
    (kind : Option Opcode) (i : Nat) : bs.leave.Awaits k kind i ↔ bs.Awaits k kind i := by
  have hsize := hb.size
  unfold Awaits
  rw [get?_leave bs (by omega)]
  by_cases hk : k < bs.blocks.size - 1
  · rw [if_pos hk]
  · rw [if_neg hk]
    constructor
    · rintro ⟨c, hc, -⟩
      cases hc
    · rintro ⟨c, hc, hw⟩
      have hlt : k < bs.blocks.size := (Array.getElem?_eq_some_iff.mp hc).1
      obtain rfl : k = id := by omega
      obtain rfl : c = b := Option.some.inj (hc.symm.trans hb.block)
      exact absurd hw (hnone kind i)

end BlockStack

/-- A state in which every waiting jump is in the code and waits for one target only. -/
structure Tidy (s : GenState) : Prop where
  root : 0 < s.blocks.blocks.size
  inside : ∀ id kind i, s.blocks.Awaits id kind i → i < s.code.size
  sole : ∀ id id' kind kind' i, s.blocks.Awaits id kind i → s.blocks.Awaits id' kind' i → id' = id ∧ kind' = kind

/-- The targets of what waits, for each block and each kind of jump.  A `continue` goes to the same place
whether it waits for it or not. -/
abbrev Aims := Nat → Option Opcode → Nat

/-- A target for some kinds of jumps on a block. -/
def Aims.set (A : Aims) (id : Nat) (kinds : Option Opcode → Bool) (target : Nat) : Aims := fun k kind =>
  if k = id ∧ kinds kind = true then target else A k kind

/-- A stage of the code `F`, in which the jumps that still wait have the targets `A`. -/
structure Leads (F : Code) (A : Aims) (s : GenState) : Prop where
  kept : ∀ (i : Nat) (x : Instruction), s.code[i]? = some x →
    ∃ p2, F[i]? = some { x with p2 := p2 } ∧ (p2 = x.p2 ∨ ∃ id kind, s.blocks.Awaits id kind i)
  aimed : ∀ (id : Nat) (kind : Option Opcode) (i : Nat) (x : Instruction), s.blocks.Awaits id kind i →
    F[i]? = some x → x.p2 = A id kind
  firsts : ∀ (id : Nat) (b : Block), s.blocks.get? id = some b → b.hasAny [.loop] = true → b.deferred = none →
    b.first = A id none

/-! ### Code that computes values -/

section Spares

variable {F : Code} {A : Aims} {s t : GenState}

theorem Tidy.spares (h : Tidy s) (hs : Spares s t) : Tidy t where
  root := by
    rw [hs.blocks]
    exact h.root
  inside := by
    intro id kind i hw
    rw [hs.blocks] at hw
    exact Nat.lt_of_lt_of_le (h.inside id kind i hw) hs.frame.grows
  sole := by
    rw [hs.blocks]
    exact h.sole

theorem Leads.spares (h : Leads F A t) (hs : Spares s t) (he : t.errors = s.errors) : Leads F A s where
  kept := by
    intro i x hx
    have hlt : i < s.code.size := (Array.getElem?_eq_some_iff.mp hx).1
    rw [← hs.kept i hlt (.inr he)] at hx
    have := h.kept i x hx
    rwa [hs.blocks] at this
  aimed := by
    intro id kind i x hw
    rw [← hs.blocks] at hw
    exact h.aimed id kind i x hw
  firsts := by
    intro id b hb
    rw [← hs.blocks] at hb
    exact h.firsts id b hb

/-- Nothing that was added waits. -/
theorem Leads.added (h : Leads F A t) (tidy : Tidy s) (hs : Spares s t) : Holds F s.code.size t.code := by
  intro i hi hlt
  obtain ⟨p2, hp, rfl | ⟨id, kind, hw⟩⟩ := h.kept i t.code[i] (Array.getElem?_eq_getElem hlt)
  · rw [hp, Array.getElem?_eq_getElem hlt]
  · rw [hs.blocks] at hw
    have := tidy.inside id kind i hw
    omega

end Spares

/-! ### A jump that waits -/

/-- A step that adds an instruction and lets it wait on a block. -/
structure Waiting (id : Nat) (kind : Option Opcode) (x : Instruction) (s t : GenState) : Prop where
  code : t.code = s.code.push x
  size : t.blocks.blocks.size = s.blocks.blocks.size
  awaits : ∀ k other i, t.blocks.Awaits k other i ↔
    s.blocks.Awaits k other i ∨ k = id ∧ other = kind ∧ i = s.code.size
  firsts : ∀ k b, s.blocks.get? k = some b → ∃ c, t.blocks.get? k = some c ∧ c.shape = b.shape ∧ c.first = b.first

namespace Waiting

variable {F : Code} {A : Aims} {s t : GenState} {id : Nat} {kind : Option Opcode} {x : Instruction} {b : Block}

theorem modify {f : Block → Block} (hb : s.blocks.get? id = some b) (hcode : t.code = s.code.push x)
    (hblocks : t.blocks = s.blocks.modify id f)
    (hf : ∀ other i, (f b).Awaits other i ↔ b.Awaits other i ∨ other = kind ∧ i = s.code.size)
    (hshape : (f b).shape = b.shape) (hfirst : (f b).first = b.first) : Waiting id kind x s t where
  code := hcode
  size := by rw [hblocks, BlockStack.size_modify]
  awaits := by
    intro k other i
    rw [hblocks, BlockStack.awaits_modify hb]
    by_cases hk : k = id
    · subst hk
      simp [hf, BlockStack.Awaits, hb]
    · simp [hk]
  firsts := by
    intro k c hc
    rw [hblocks, BlockStack.get?_modify]
    by_cases hk : id = k
    · subst hk
      obtain rfl : c = b := Option.some.inj (hc.symm.trans hb)
      rw [if_pos rfl, hc]
      exact ⟨f c, rfl, hshape, hfirst⟩
    · rw [if_neg hk, hc]
      exact ⟨c, rfl, rfl, rfl⟩

theorem await (hb : s.blocks.get? id = some b) (op : Opcode) (p3 : Operand) :
    Waiting id (some op) ⟨op, 0, 0, p3, s.buffer.line⟩ s (after (Gen.await id op p3) s) := by
  refine modify hb rfl rfl (fun other i => ?_) rfl rfl
  cases other with
  | none => simp [Block.Awaits]
  | some o =>
      simp only [Block.Awaits, List.mem_append, List.mem_singleton, PendingJump.mk.injEq, Option.some.injEq]
      exact Iff.rfl

theorem awaitContinue (hb : s.blocks.get? id = some b) (hd : b.deferred.isSome = true) :
    Waiting id none ⟨.jmp, 0, 0, .none, s.buffer.line⟩ s (after (Gen.awaitContinue id) s) := by
  refine modify hb rfl rfl (fun other i => ?_) (by simp [Block.shape]) rfl
  obtain ⟨is, his⟩ := Option.isSome_iff_exists.mp hd
  cases other with
  | none =>
      simp only [Block.Awaits, his, Option.map_some, Option.getD_some, List.mem_append, List.mem_singleton, true_and]
      exact Iff.rfl
  | some o => simp [Block.Awaits]

theorem tidy (hw : Waiting id kind x s t) (h : Tidy s) : Tidy t where
  root := by
    rw [hw.size]
    exact h.root
  inside := by
    intro k other i ha
    rw [hw.code, Array.size_push]
    rcases (hw.awaits k other i).mp ha with ha | ⟨-, -, rfl⟩
    · exact Nat.lt_succ_of_lt (h.inside k other i ha)
    · exact Nat.lt_succ_self _
  sole := by
    intro k k' other other' i ha ha'
    rcases (hw.awaits k other i).mp ha with ha | ⟨rfl, rfl, hi⟩ <;>
      rcases (hw.awaits k' other' i).mp ha' with ha' | ⟨rfl, rfl, hi'⟩
    · exact h.sole k k' other other' i ha ha'
    · have := h.inside k other i ha
      omega
    · have := h.inside k' other' i ha'
      omega
    · exact ⟨rfl, rfl⟩

theorem leads (hw : Waiting id kind x s t) (h : Leads F A t) : Leads F A s where
  kept := by
    intro i y hy
    have hlt : i < s.code.size := (Array.getElem?_eq_some_iff.mp hy).1
    have hy' : t.code[i]? = some y := by
      rw [hw.code, Array.getElem?_push, if_neg (Nat.ne_of_lt hlt)]
      exact hy
    obtain ⟨p2, hp, hp2 | ⟨k, other, ha⟩⟩ := h.kept i y hy'
    · exact ⟨p2, hp, .inl hp2⟩
    · rcases (hw.awaits k other i).mp ha with ha | ⟨-, -, rfl⟩
      · exact ⟨p2, hp, .inr ⟨k, other, ha⟩⟩
      · exact absurd hlt (Nat.lt_irrefl _)
  aimed := fun k other i y ha => h.aimed k other i y ((hw.awaits k other i).mpr (.inl ha))
  firsts := by
    intro k b hb hloop hd
    obtain ⟨c, hc, hshape, hfirst⟩ := hw.firsts k b hb
    rw [← hfirst]
    exact h.firsts k c hc (by rw [Block.hasAny_congr hshape]; exact hloop) (Block.undeferred_congr hshape hd)

/-- The instruction itself, with its target. -/
theorem instruction (hw : Waiting id kind x s t) (h : Leads F A t) :
    F[s.code.size]? = some { x with p2 := A id kind } := by
  have hx : t.code[s.code.size]? = some x := by
    rw [hw.code]
    exact Array.getElem?_push_size
  obtain ⟨p2, hp, -⟩ := h.kept _ x hx
  have := h.aimed id kind _ _ ((hw.awaits id kind _).mpr (.inr ⟨rfl, rfl, rfl⟩)) hp
  rw [hp]
  exact congrArg (fun p2 => some { x with p2 := p2 }) this

end Waiting

/-! ### Jumps that are filled in -/

/-- A step that gives the jumps of some kinds on a block their target. -/
structure Filling (id : Nat) (kinds : Option Opcode → Bool) (target : Nat) (s t : GenState) : Prop where
  size : t.blocks.blocks.size = s.blocks.blocks.size
  length : t.code.size = s.code.size
  awaits : ∀ k kind i, t.blocks.Awaits k kind i ↔ s.blocks.Awaits k kind i ∧ ¬(k = id ∧ kinds kind = true)
  filled : ∀ i kind, kinds kind = true → s.blocks.Awaits id kind i →
    t.code[i]? = s.code[i]?.map fun x => { x with p2 := target }
  others : ∀ i, (∀ kind, kinds kind = true → ¬s.blocks.Awaits id kind i) → t.code[i]? = s.code[i]?
  firsts : ∀ k b, s.blocks.get? k = some b → ∃ c, t.blocks.get? k = some c ∧ c.shape = b.shape ∧ c.first = b.first

namespace Filling

variable {F : Code} {A : Aims} {s t : GenState} {id target : Nat} {kinds : Option Opcode → Bool} {b : Block}

theorem tidy (hf : Filling id kinds target s t) (h : Tidy s) : Tidy t where
  root := by
    rw [hf.size]
    exact h.root
  inside := by
    intro k kind i ha
    rw [hf.length]
    exact h.inside k kind i ((hf.awaits k kind i).mp ha).1
  sole := fun k k' kind kind' i ha ha' =>
    h.sole k k' kind kind' i ((hf.awaits k kind i).mp ha).1 ((hf.awaits k' kind' i).mp ha').1

theorem leads (hf : Filling id kinds target s t) (tidy : Tidy s)
    (hnone : kinds none = true → ∀ b, s.blocks.get? id = some b → b.deferred.isSome = true)
    (h : Leads F A t) : Leads F (A.set id kinds target) s where
  kept := by
    intro i x hx
    by_cases hset : ∃ kind, kinds kind = true ∧ s.blocks.Awaits id kind i
    · obtain ⟨kind, hkind, ha⟩ := hset
      have hx' := hf.filled i kind hkind ha
      rw [hx] at hx'
      obtain ⟨p2, hp, -⟩ := h.kept i _ hx'
      exact ⟨p2, hp, .inr ⟨id, kind, ha⟩⟩
    · rw [← hf.others i fun kind hkind ha => hset ⟨kind, hkind, ha⟩] at hx
      obtain ⟨p2, hp, hp2⟩ := h.kept i x hx
      refine ⟨p2, hp, hp2.imp_right ?_⟩
      rintro ⟨k, kind, ha⟩
      exact ⟨k, kind, ((hf.awaits k kind i).mp ha).1⟩
  aimed := by
    intro k kind i y ha hy
    unfold Aims.set
    split
    · rename_i hset
      obtain ⟨rfl, hkind⟩ := hset
      have hlt := tidy.inside k kind i ha
      have hx' := hf.filled i kind hkind ha
      rw [Array.getElem?_eq_getElem hlt] at hx'
      obtain ⟨p2, hp, hp2⟩ := h.kept i _ hx'
      rw [hy] at hp
      cases hp
      -- A jump that has been given its target does not wait on another block.
      rcases hp2 with hp2 | ⟨k', kind', ha'⟩
      · exact hp2
      · obtain ⟨ha', hnot⟩ := (hf.awaits k' kind' i).mp ha'
        obtain ⟨rfl, rfl⟩ := tidy.sole k k' kind kind' i ha ha'
        exact absurd ⟨rfl, hkind⟩ hnot
    · rename_i hset
      exact h.aimed k kind i y ((hf.awaits k kind i).mpr ⟨ha, hset⟩) hy
  firsts := by
    intro k b hb hloop hd
    obtain ⟨c, hc, hshape, hfirst⟩ := hf.firsts k b hb
    rw [← hfirst, h.firsts k c hc (by rw [Block.hasAny_congr hshape]; exact hloop) (Block.undeferred_congr hshape hd)]
    unfold Aims.set
    rw [if_neg]
    rintro ⟨rfl, hkind⟩
    have := hnone hkind b hb
    rw [hd] at this
    cases this

/-- Some of what waits on a block is filled in, and that is what waits there no more. -/
theorem modify {α : Type} {index : α → Nat} {js : List α} {f : Block → Block} (hb : s.blocks.get? id = some b)
    (hcode : t.code = js.foldl (fun code j => code.patch (index j) target) s.code)
    (hblocks : t.blocks = s.blocks.modify id f) (hshape : ∀ c, (f c).shape = c.shape) (hfirst : ∀ c, (f c).first = c.first)
    (hjs : ∀ i, i ∈ js.map index ↔ ∃ kind, kinds kind = true ∧ b.Awaits kind i)
    (hf : ∀ kind i, (f b).Awaits kind i ↔ b.Awaits kind i ∧ ¬kinds kind = true) : Filling id kinds target s t := by
  have here : ∀ kind i, s.blocks.Awaits id kind i ↔ b.Awaits kind i := by
    intro kind i
    refine ⟨?_, fun ha => ⟨b, hb, ha⟩⟩
    rintro ⟨c, hc, ha⟩
    obtain rfl : c = b := Option.some.inj (hc.symm.trans hb)
    exact ha
  refine ⟨by rw [hblocks, BlockStack.size_modify], ?_, fun k kind i => ?_, fun i kind hkind ha => ?_, fun i hnone => ?_,
    fun k c hc => ?_⟩
  · rw [hcode]
    exact BlockStack.size_foldl_patch ..
  · rw [hblocks, BlockStack.awaits_modify hb]
    by_cases hk : k = id
    · subst hk
      rw [if_pos rfl, hf, here]
      simp
    · simp [hk]
  · rw [hcode, getElem?_foldl_patch, if_pos ((hjs i).mpr ⟨kind, hkind, (here kind i).mp ha⟩)]
  · rw [hcode, getElem?_foldl_patch, if_neg]
    intro hi
    obtain ⟨kind, hkind, ha⟩ := (hjs i).mp hi
    exact hnone kind hkind ((here kind i).mpr ha)
  · rw [hblocks, BlockStack.get?_modify]
    split
    · rw [hc]
      exact ⟨_, rfl, hshape c, hfirst c⟩
    · exact ⟨c, hc, rfl, rfl⟩

/-- The jumps of one kind, or of all kinds. -/
def kindsOf (op : Option Opcode) (kind : Option Opcode) : Bool := kind.any fun o => op.all (· == o)

theorem settle (h : Tidy s) (hb : s.blocks.get? id = some b) (op : Option Opcode) :
    Filling id (kindsOf op) s.code.size s (after (Gen.settle id op) s) := by
  have code : (after (Gen.settle id op) s).code = (b.pending.filter (BlockStack.settles op s.code)).foldl
      (fun code j => code.patch j.index s.code.size) s.code := by
    rw [after_settle]
    unfold BlockStack.settle
    rw [hb]
    rfl
  -- Whatever waits is in the code, so the kind of a jump alone decides.
  have settles : ∀ j ∈ b.pending, BlockStack.settles op s.code j = kindsOf op (some j.op) := by
    intro j hj
    have hlt := h.inside id (some j.op) j.index ⟨b, hb, hj⟩
    have hlt' : j.index < Array.size s.buffer.code := hlt
    simp [BlockStack.settles, kindsOf, hlt']
  refine modify hb code rfl (fun _ => rfl) (fun _ => rfl) (fun i => ?_) fun kind i => ?_
  · simp only [List.mem_map, List.mem_filter]
    constructor
    · rintro ⟨j, ⟨hj, hset⟩, rfl⟩
      exact ⟨some j.op, by rw [← settles j hj]; exact hset, hj⟩
    · rintro ⟨kind, hkind, ha⟩
      cases kind with
      | none => cases hkind
      | some o => exact ⟨⟨o, i⟩, ⟨ha, by rw [settles _ ha]; exact hkind⟩, rfl⟩
  · cases kind with
    | none => exact ⟨fun ha => ⟨ha, Bool.false_ne_true⟩, And.left⟩
    | some o =>
        refine List.mem_filter.trans (and_congr_right fun hj => ?_)
        rw [← settles _ hj, Bool.not_eq_true', Bool.not_eq_true]

/-- A block that does not defer `continue` is left alone. -/
theorem settleContinue (hb : s.blocks.get? id = some b) :
    Filling id (fun kind => kind.isNone && b.deferred.isSome) s.code.size s (after (Gen.settleContinue id) s) := by
  have code : (after (Gen.settleContinue id) s).code =
      (b.deferred.getD []).foldl (fun code i => code.patch i s.code.size) s.code := by
    rw [after_settleContinue]
    unfold BlockStack.settleContinue
    rw [hb]
    rfl
  have defers : ∀ i, b.Awaits none i → b.deferred.isSome = true := by
    intro i ha
    unfold Block.Awaits at ha
    cases hd : b.deferred with
    | none => simp [hd] at ha
    | some is => rfl
  refine modify hb code rfl (fun c => by simp [Block.shape]) (fun _ => rfl) (fun i => ?_) fun kind i => ?_
  · rw [List.map_id']
    refine ⟨fun hi => ⟨none, defers i hi, hi⟩, ?_⟩
    rintro ⟨kind, hkind, ha⟩
    cases kind with
    | none => exact ha
    | some o => cases hkind
  · cases kind with
    | none =>
        refine iff_of_false ?_ fun h => h.2 (defers i h.1)
        unfold Block.Awaits
        cases hd : b.deferred <;> simp
    | some o => exact ⟨fun ha => ⟨ha, Bool.false_ne_true⟩, And.left⟩

end Filling

/-! ### Entering and leaving a block -/

section Inside

variable {F : Code} {A : Aims} {s t : GenState} {tags : List BlockTag} {first : Nat} {owner : BlockOwner}
  {deferred : Option (List Nat)} {id : Nat} {b : Block}

theorem Tidy.enter (h : Tidy s) (hd : deferred.getD [] = []) : Tidy (after (enter tags first owner deferred) s) where
  root := stack_enter ..
  inside := by
    intro k kind i ha
    exact h.inside k kind i ((BlockStack.awaits_push rfl hd ..).mp ha)
  sole := by
    intro k k' kind kind' i ha ha'
    exact h.sole k k' kind kind' i ((BlockStack.awaits_push rfl hd ..).mp ha) ((BlockStack.awaits_push rfl hd ..).mp ha')

/-- Where the jumps on a block go does not matter before it is entered. -/
theorem Leads.enter {B : Aims} (h : Leads F B (after (enter tags first owner deferred) s))
    (hd : deferred.getD [] = []) (hAB : ∀ k < s.blocks.blocks.size, B k = A k) : Leads F A s where
  kept := by
    intro i x hx
    obtain ⟨p2, hp, hp2⟩ := h.kept i x hx
    refine ⟨p2, hp, hp2.imp_right ?_⟩
    rintro ⟨k, kind, ha⟩
    exact ⟨k, kind, (BlockStack.awaits_push rfl hd ..).mp ha⟩
  aimed := by
    intro k kind i x ha hx
    rw [h.aimed k kind i x ((BlockStack.awaits_push rfl hd ..).mpr ha) hx, hAB]
    obtain ⟨b, hb, -⟩ := ha
    exact (Array.getElem?_eq_some_iff.mp hb).1
  firsts := by
    intro k b hb hloop hnone
    have hlt : k < s.blocks.blocks.size := (Array.getElem?_eq_some_iff.mp hb).1
    rw [← hAB k hlt]
    refine h.firsts k b ?_ hloop hnone
    rw [after_enter, BlockStack.get?_push, if_neg (Nat.ne_of_lt hlt)]
    exact hb

theorem Tidy.leave (h : Tidy s) (hb : s.blocks.Innermost id b) (hid : 0 < id) (hnone : ∀ kind i, ¬b.Awaits kind i) :
    Tidy (after leave s) where
  root := by
    have := hb.size
    rw [after_leave]
    show 0 < s.blocks.leave.blocks.size
    unfold BlockStack.leave
    rw [if_neg (by omega), Array.size_pop]
    omega
  inside := fun k kind i ha => h.inside k kind i ((BlockStack.awaits_leave hb hid hnone ..).mp ha)
  sole := fun k k' kind kind' i ha ha' => h.sole k k' kind kind' i ((BlockStack.awaits_leave hb hid hnone ..).mp ha)
    ((BlockStack.awaits_leave hb hid hnone ..).mp ha')

theorem Leads.leave (h : Leads F A (after leave s)) (hb : s.blocks.Innermost id b) (hid : 0 < id)
    (hnone : ∀ kind i, ¬b.Awaits kind i) : Leads F (A.set id Option.isNone b.first) s where
  kept := by
    intro i x hx
    obtain ⟨p2, hp, hp2⟩ := h.kept i x hx
    refine ⟨p2, hp, hp2.imp_right ?_⟩
    rintro ⟨k, kind, ha⟩
    exact ⟨k, kind, (BlockStack.awaits_leave hb hid hnone ..).mp ha⟩
  aimed := by
    intro k kind i x ha hx
    rw [h.aimed k kind i x ((BlockStack.awaits_leave hb hid hnone ..).mpr ha) hx]
    unfold Aims.set
    rw [if_neg]
    rintro ⟨rfl, -⟩
    obtain ⟨c, hc, ha⟩ := ha
    obtain rfl : c = b := Option.some.inj (hc.symm.trans hb.block)
    exact hnone kind i ha
  firsts := by
    intro k c hc hloop hd
    unfold Aims.set
    by_cases hk : k = id
    · subst hk
      obtain rfl : c = b := Option.some.inj (hc.symm.trans hb.block)
      rw [if_pos ⟨rfl, rfl⟩]
    · have hsize := hb.size
      have hlt : k < s.blocks.blocks.size := (Array.getElem?_eq_some_iff.mp hc).1
      rw [if_neg (fun hset => hk hset.1)]
      refine h.firsts k c ?_ hloop hd
      rw [after_leave, BlockStack.get?_leave s.blocks (by omega), if_pos (by omega)]
      exact hc

end Inside

end StackScript
