/-
Waiting jumps get their targets once.

A pass over a block fills in the waiting jumps of its kind that are inside the code, and takes them off the block; what
is not of the kind, or behind the end of the code, goes on waiting for a later pass.  `Ledger` takes nothing off: it keeps
every jump that was ever recorded, and lists by block and position those that have been filled in, in the order in which
it was done.  The jumps that wait are those not listed yet (`Ledger.Tracks`), whatever passes are mixed and whatever code
they are given, and no jump is listed twice.
-/
import Mathlib.Data.List.Nodup
import StackScript.Proofs.Blocks

namespace StackScript

/-- A call that concerns waiting jumps.  A pass is given the code it fills targets in. -/
inductive JumpCall where
  | await (id : Nat) (op : Opcode) (index : Nat)
  | awaitContinue (id : Nat) (index : Nat)
  | settle (id : Nat) (op : Option Opcode) (target : Nat) (code : Code)
  | settleContinue (id : Nat) (target : Nat) (code : Code)

/-- The jumps of `continue` that a block defers after some calls: those recorded since they last got a target. -/
def JumpCall.continued (id : Nat) : List Nat → List JumpCall → List Nat
  | deferred, [] => deferred
  | deferred, .awaitContinue id' index :: cs => continued id (if id' = id then deferred ++ [index] else deferred) cs
  | deferred, .settleContinue id' _ _ :: cs => continued id (if id' = id then [] else deferred) cs
  | deferred, .await .. :: cs | deferred, .settle .. :: cs => continued id deferred cs

namespace BlockStack

variable {s : BlockStack}

def perform (s : BlockStack) : JumpCall → BlockStack
  | .await id op index => s.await id op index
  | .awaitContinue id index => s.awaitContinue id index
  | .settle id op target code => (s.settle id op target code).2.1
  | .settleContinue id target code => (s.settleContinue id target code).2.1

/-- The blocks after some calls. -/
def performAll (s : BlockStack) : List JumpCall → BlockStack
  | [] => s
  | c :: cs => (s.perform c).performAll cs

/-- The jumps that wait on a block. -/
def pendingOn (s : BlockStack) (id : Nat) : List PendingJump := ((s.get? id).map Block.pending).getD []

/-- The jumps of `continue` that wait on a block, if it defers them. -/
def deferredOn (s : BlockStack) (id : Nat) : Option (List Nat) := (s.get? id).bind Block.deferred

theorem modify_eq_self {id : Nat} {f : Block → Block} (h : ∀ b, s.get? id = some b → f b = b) : s.modify id f = s := by
  have blocks : s.blocks.modify id f = s.blocks := by
    refine Array.ext_getElem? fun k => ?_
    rw [Array.getElem?_modify]
    split
    · rename_i hk
      subst hk
      cases hb : s.blocks[id]? with
      | none => rfl
      | some b => exact congrArg some (h b hb)
    · rfl
  rw [modify, blocks]

theorem pendingOn_modify (s : BlockStack) (id k : Nat) (f : Block → Block) :
    (s.modify id f).pendingOn k =
      if id = k then ((s.get? k).map fun b => (f b).pending).getD [] else s.pendingOn k := by
  unfold pendingOn
  rw [get?_modify]
  split
  · rw [Option.map_map]
    rfl
  · rfl

theorem pendingOn_await (s : BlockStack) (id k : Nat) (op : Opcode) (index : Nat) :
    (s.await id op index).pendingOn k =
      if id = k ∧ k < s.blocks.size then s.pendingOn k ++ [⟨op, index⟩] else s.pendingOn k := by
  rw [await, pendingOn_modify, pendingOn, get?]
  by_cases hk : k < s.blocks.size
  · by_cases hid : id = k <;> simp [hid, hk]
  · by_cases hid : id = k <;> simp [hid, hk]

theorem pendingOn_awaitContinue (s : BlockStack) (id k index : Nat) :
    (s.awaitContinue id index).pendingOn k = s.pendingOn k := by
  rw [awaitContinue, pendingOn_modify]
  split <;> rfl

theorem pendingOn_settle (s : BlockStack) (id k : Nat) (op : Option Opcode) (target : Nat) (code : Code) :
    (s.settle id op target code).2.1.pendingOn k =
      if id = k then (s.pendingOn k).filter (fun j => !settles op code j) else s.pendingOn k := by
  rw [settle, pendingOn_modify, pendingOn]
  cases s.get? k <;> rfl

theorem pendingOn_settleContinue (s : BlockStack) (id k target : Nat) (code : Code) :
    (s.settleContinue id target code).2.1.pendingOn k = s.pendingOn k := by
  rw [settleContinue, pendingOn_modify]
  split <;> rfl

end BlockStack

/-! ### Ledger -/

/-- Every jump recorded on a block, and those that have been filled in, by their blocks and positions. -/
structure Ledger where
  recorded : Array (List PendingJump)
  applied : List (Nat × Nat) := []

namespace Ledger

open BlockStack (settles)

variable {l : Ledger} {s : BlockStack} {id : Nat}

/-- The ledger of some blocks; what waits on them counts as recorded. -/
def of (s : BlockStack) : Ledger := { recorded := s.blocks.map Block.pending }

def recordedOn (l : Ledger) (id : Nat) : List PendingJump := l.recorded[id]?.getD []

/-- The jumps of a block that have not been filled in, with their positions. -/
def remaining (l : Ledger) (id : Nat) : List (PendingJump × Nat) :=
  (l.recordedOn id).zipIdx.filter fun x => (id, x.2) ∉ l.applied

/-- Whether a jump of the kind waits for the target of an instruction. -/
def Awaits (l : Ledger) (id : Nat) (op : Option Opcode) (i : Nat) : Prop :=
  ∃ x ∈ l.remaining id, op.all (· == x.1.op) = true ∧ x.1.index = i

/-- No instruction has been recorded on the block twice. -/
def Single (l : Ledger) (id : Nat) : Prop := ((l.recordedOn id).map PendingJump.index).Nodup

/-- The jumps that a pass over a block has to fill in. -/
def due (l : Ledger) (id : Nat) (op : Option Opcode) (code : Code) : List (PendingJump × Nat) :=
  (l.remaining id).filter fun x => settles op code x.1

def perform (l : Ledger) : JumpCall → Ledger
  | .await id op index => { l with recorded := l.recorded.modify id (· ++ [⟨op, index⟩]) }
  | .settle id op _ code => { l with applied := l.applied ++ (l.due id op code).map fun x => (id, x.2) }
  | .awaitContinue .. | .settleContinue .. => l

/-- The ledger after some calls. -/
def performAll (l : Ledger) : List JumpCall → Ledger
  | [] => l
  | c :: cs => (l.perform c).performAll cs

theorem mem_remaining {x : PendingJump × Nat} :
    x ∈ l.remaining id ↔ (l.recordedOn id)[x.2]? = some x.1 ∧ (id, x.2) ∉ l.applied := by
  rw [remaining, List.mem_filter, List.mem_zipIdx_iff_getElem?, decide_eq_true_iff]

theorem mem_due {op : Option Opcode} {code : Code} {x : PendingJump × Nat} :
    x ∈ l.due id op code ↔
      (l.recordedOn id)[x.2]? = some x.1 ∧ (id, x.2) ∉ l.applied ∧ settles op code x.1 = true := by
  rw [due, List.mem_filter, mem_remaining, and_assoc]

theorem recordedOn_await (l : Ledger) (id k : Nat) (op : Opcode) (index : Nat) :
    (l.perform (.await id op index)).recordedOn k =
      if id = k ∧ k < l.recorded.size then l.recordedOn k ++ [⟨op, index⟩] else l.recordedOn k := by
  simp only [perform, recordedOn, Array.getElem?_modify]
  by_cases hk : k < l.recorded.size
  · by_cases hid : id = k <;> simp [hid, hk]
  · by_cases hid : id = k <;> simp [hid, hk]

/-- A position is filled in at most once by one pass. -/
theorem nodup_due (l : Ledger) (id : Nat) (op : Option Opcode) (code : Code) :
    ((l.due id op code).map Prod.snd).Nodup := by
  have part : (l.due id op code).Sublist (l.recordedOn id).zipIdx := List.filter_sublist.trans List.filter_sublist
  refine (part.map Prod.snd).nodup ?_
  rw [List.zipIdx_map_snd]
  exact List.nodup_range'

theorem remaining_settle (l : Ledger) (id : Nat) (op : Option Opcode) (target : Nat) (code : Code) :
    (l.perform (.settle id op target code)).remaining id = (l.remaining id).filter fun x => !settles op code x.1 := by
  rw [remaining, remaining, List.filter_filter]
  refine List.filter_congr fun x hx => ?_
  have hx : (l.recordedOn id)[x.2]? = some x.1 := List.mem_zipIdx_iff_getElem?.mp hx
  have now : (id, x.2) ∈ (l.due id op code).map (fun y => (id, y.2)) ↔ x ∈ l.due id op code := by
    refine ⟨fun h => ?_, fun h => List.mem_map.mpr ⟨x, h, rfl⟩⟩
    obtain ⟨y, hy, heq⟩ := List.mem_map.mp h
    have hposition : y.2 = x.2 := (Prod.mk.inj heq).2
    have hjump := (mem_due.mp hy).1
    rw [hposition, hx, Option.some.injEq] at hjump
    rwa [← Prod.ext hjump.symm hposition]
  have new : (id, x.2) ∈ (l.perform (.settle id op target code)).applied ↔
      (id, x.2) ∈ l.applied ∨ settles op code x.1 = true := by
    rw [perform, List.mem_append, now, mem_due]
    by_cases happlied : (id, x.2) ∈ l.applied <;> simp [happlied, hx]
  rw [Bool.eq_iff_iff, decide_eq_true_iff, new, Bool.and_eq_true, decide_eq_true_iff, Bool.not_eq_true', not_or,
    Bool.not_eq_true, and_comm]

theorem remaining_settle_of_ne {k : Nat} (h : k ≠ id) (op : Option Opcode) (target : Nat) (code : Code) :
    (l.perform (.settle id op target code)).remaining k = l.remaining k := by
  refine List.filter_congr fun x _ => decide_eq_decide.mpr (not_congr ?_)
  have other : (k, x.2) ∉ (l.due id op code).map fun y => (id, y.2) := by
    intro hmem
    obtain ⟨y, -, heq⟩ := List.mem_map.mp hmem
    exact h (Prod.mk.inj heq).1.symm
  rw [perform, List.mem_append, or_iff_left other]

/-- The jumps that wait are those not filled in yet, and none has been filled in twice. -/
structure Tracks (l : Ledger) (s : BlockStack) : Prop where
  size : l.recorded.size = s.blocks.size
  pending : ∀ id, s.pendingOn id = (l.remaining id).map Prod.fst
  once : l.applied.Nodup
  recorded : ∀ x ∈ l.applied, x.2 < (l.recordedOn x.1).length

namespace Tracks

theorem of (s : BlockStack) : (Ledger.of s).Tracks s where
  size := by simp [Ledger.of]
  pending id := by
    have all : (Ledger.of s).remaining id = ((Ledger.of s).recordedOn id).zipIdx :=
      List.filter_eq_self.mpr fun _ _ => decide_eq_true List.not_mem_nil
    rw [all, List.zipIdx_map_fst]
    simp [recordedOn, Ledger.of, BlockStack.pendingOn, BlockStack.get?]
  once := List.nodup_nil
  recorded := nofun

theorem await (h : l.Tracks s) (id : Nat) (op : Opcode) (index : Nat) :
    (l.perform (.await id op index)).Tracks (s.await id op index) := by
  have kept (k : Nat) : (l.recordedOn k).length ≤ ((l.perform (.await id op index)).recordedOn k).length := by
    rw [recordedOn_await]
    split
    · simp
    · exact Nat.le_refl _
  refine ⟨?_, fun k => ?_, h.once, fun x hx => Nat.lt_of_lt_of_le (h.recorded x hx) (kept x.1)⟩
  · simp [Ledger.perform, BlockStack.await, BlockStack.modify, h.size]
  · rw [BlockStack.pendingOn_await, remaining, recordedOn_await, h.size, h.pending k]
    split
    · -- the new jump is behind every position in the list of those filled in
      have new : (k, (l.recordedOn k).length) ∉ l.applied := fun hmem => Nat.lt_irrefl _ (h.recorded _ hmem)
      rw [List.zipIdx_append, List.filter_append, List.map_append, List.zipIdx_singleton, Nat.zero_add]
      refine congrArg _ ?_
      simp [Ledger.perform, new]
    · rfl

theorem settle (h : l.Tracks s) (id : Nat) (op : Option Opcode) (target : Nat) (code : Code) :
    (l.perform (.settle id op target code)).Tracks (s.settle id op target code).2.1 := by
  refine ⟨?_, fun k => ?_, ?_, fun x hx => ?_⟩
  · simp [Ledger.perform, BlockStack.settle, BlockStack.modify, h.size]
  · rw [BlockStack.pendingOn_settle, h.pending k]
    split
    · rename_i hid
      subst hid
      rw [remaining_settle, List.filter_map]
      rfl
    · rename_i hid
      rw [remaining_settle_of_ne (Ne.symm hid)]
  · refine List.nodup_append.mpr ⟨h.once, ?_, fun x hx y hy => ?_⟩
    · have positions := (l.nodup_due id op code).map (f := fun k => (id, k)) fun _ _ heq => (Prod.mk.inj heq).2
      rwa [List.map_map] at positions
    · rintro rfl
      obtain ⟨z, hz, rfl⟩ := List.mem_map.mp hy
      exact (mem_due.mp hz).2.1 hx
  · rcases List.mem_append.mp hx with hx | hx
    · exact h.recorded x hx
    · obtain ⟨z, hz, rfl⟩ := List.mem_map.mp hx
      exact (List.getElem?_eq_some_iff.mp (mem_due.mp hz).1).1

theorem perform (h : l.Tracks s) (c : JumpCall) : (l.perform c).Tracks (s.perform c) := by
  cases c with
  | await id op index => exact h.await id op index
  | settle id op target code => exact h.settle id op target code
  | awaitContinue id index =>
      exact ⟨h.size.trans (BlockStack.size_modify ..).symm, fun k => (s.pendingOn_awaitContinue ..).trans (h.pending k),
        h.once, h.recorded⟩
  | settleContinue id target code =>
      exact ⟨h.size.trans (BlockStack.size_modify ..).symm, fun k => (s.pendingOn_settleContinue ..).trans (h.pending k),
        h.once, h.recorded⟩

/-- Calls take from the waiting jumps what they fill in, and nothing twice. -/
theorem performAll (h : l.Tracks s) (cs : List JumpCall) : (l.performAll cs).Tracks (s.performAll cs) := by
  induction cs generalizing l s with
  | nil => exact h
  | cons c cs ih => exact ih (h.perform c)

end Tracks

end Ledger

/-! ### Passes -/

namespace BlockStack

variable {s : BlockStack}

theorem settle_eq (s : BlockStack) (id : Nat) (op : Option Opcode) (target : Nat) (code : Code) :
    s.settle id op target code =
      (((s.pendingOn id).filter (settles op code)).length,
        s.modify id fun b => { b with pending := b.pending.filter fun j => !settles op code j },
        ((s.pendingOn id).filter (settles op code)).foldl (fun code j => code.patch j.index target) code) := rfl

/-- A pass that finds nothing to fill in leaves everything as it is. -/
theorem settle_of_forall {id : Nat} {op : Option Opcode} {code : Code}
    (h : ∀ j ∈ s.pendingOn id, settles op code j = false) (target : Nat) :
    s.settle id op target code = (0, s, code) := by
  have none : (s.pendingOn id).filter (settles op code) = [] :=
    List.filter_eq_nil_iff.mpr fun j hj => by rw [h j hj]; decide
  have same : (s.modify id fun b => { b with pending := b.pending.filter fun j => !settles op code j }) = s := by
    refine modify_eq_self fun b hb => ?_
    have waiting : s.pendingOn id = b.pending := by rw [pendingOn, hb]; rfl
    have all : b.pending.filter (fun j => !settles op code j) = b.pending :=
      List.filter_eq_self.mpr fun j hj => by rw [h j (waiting ▸ hj)]; rfl
    rw [all]
  rw [settle_eq, none, same]
  rfl

/-- What a pass has filled in it does not find again, whatever the target and as long as the code has not grown. -/
theorem settle_again (s : BlockStack) (id : Nat) (op : Option Opcode) (target target' : Nat) {code code' : Code}
    (h : code'.size ≤ code.size) :
    (s.settle id op target code).2.1.settle id op target' code' = (0, (s.settle id op target code).2.1, code') := by
  refine settle_of_forall (fun j hj => ?_) target'
  rw [pendingOn_settle, if_pos rfl] at hj
  have left : settles op code j = false := by simpa using (List.mem_filter.mp hj).2
  cases hj' : settles op code' j with
  | false => rfl
  | true =>
      unfold settles at left hj'
      rw [Bool.and_eq_true, decide_eq_true_iff] at hj'
      rw [hj'.1, Bool.true_and, decide_eq_false_iff_not] at left
      exact absurd (Nat.lt_of_lt_of_le hj'.2 h) left

theorem deferredOn_modify (s : BlockStack) (id k : Nat) (f : Block → Block) :
    (s.modify id f).deferredOn k =
      if id = k then (s.get? k).bind fun b => (f b).deferred else s.deferredOn k := by
  unfold deferredOn
  rw [get?_modify]
  split
  · cases s.get? k <;> rfl
  · rfl

theorem deferredOn_perform (s : BlockStack) (c : JumpCall) (k : Nat) :
    (s.perform c).deferredOn k = (s.deferredOn k).map (JumpCall.continued k · [c]) := by
  cases c with
  | await | settle =>
      refine (deferredOn_modify ..).trans (Eq.trans ?_ Option.map_id'.symm)
      split <;> rfl
  | awaitContinue id index =>
      refine (deferredOn_modify ..).trans ?_
      unfold JumpCall.continued deferredOn
      split
      · cases s.get? k <;> rfl
      · exact Option.map_id'.symm
  | settleContinue id target code =>
      refine (deferredOn_modify ..).trans ?_
      unfold JumpCall.continued deferredOn
      split
      · cases s.get? k <;> rfl
      · exact Option.map_id'.symm

theorem continued_cons (k : Nat) (deferred : List Nat) (c : JumpCall) (cs : List JumpCall) :
    JumpCall.continued k deferred (c :: cs) = JumpCall.continued k (JumpCall.continued k deferred [c]) cs := by
  cases c <;> rfl

theorem deferredOn_performAll (s : BlockStack) (cs : List JumpCall) (k : Nat) :
    (s.performAll cs).deferredOn k = (s.deferredOn k).map (JumpCall.continued k · cs) := by
  induction cs generalizing s with
  | nil => exact Option.map_id'.symm
  | cons c cs ih =>
      rw [performAll, ih, deferredOn_perform, Option.map_map]
      exact congrArg (Option.map · _) (funext fun deferred => (continued_cons k deferred c cs).symm)

theorem deferredOn_settleContinue (s : BlockStack) (id target : Nat) (code : Code) :
    (s.settleContinue id target code).2.1.deferredOn id = (s.deferredOn id).map fun _ => [] := by
  refine (deferredOn_modify ..).trans ?_
  rw [if_pos rfl, deferredOn]
  cases s.get? id <;> rfl

/-- Deferred jumps that have got their target wait no more. -/
theorem settleContinue_again (s : BlockStack) (id target target' : Nat) (code code' : Code) :
    (s.settleContinue id target code).2.1.settleContinue id target' code' =
      (0, (s.settleContinue id target code).2.1, code') := by
  have emptied := s.deferredOn_settleContinue id target code
  generalize (s.settleContinue id target code).2.1 = t at emptied
  have none : (t.deferredOn id).getD [] = [] := by
    rw [emptied]
    cases s.deferredOn id <;> rfl
  have same : (t.modify id fun b => { b with deferred := b.deferred.map fun _ => [] }) = t := by
    refine modify_eq_self fun b hb => ?_
    have waiting : t.deferredOn id = b.deferred := by rw [deferredOn, hb]; rfl
    have kept : b.deferred.map (fun _ => []) = b.deferred := by
      rw [← waiting, emptied, Option.map_map]
      rfl
    rw [kept]
  unfold settleContinue
  show (((t.deferredOn id).getD []).length, _, ((t.deferredOn id).getD []).foldl _ code') = _
  rw [none, same]
  rfl

end BlockStack

namespace Ledger

open BlockStack (settles)

variable {l : Ledger} {s : BlockStack} {id : Nat}

theorem applied_perform (l : Ledger) (c : JumpCall) : l.applied <+: (l.perform c).applied := by
  cases c with
  | settle => exact List.prefix_append _ _
  | await | awaitContinue | settleContinue => exact List.prefix_rfl

theorem applied_performAll (l : Ledger) (cs : List JumpCall) : l.applied <+: (l.performAll cs).applied := by
  induction cs generalizing l with
  | nil => exact List.prefix_rfl
  | cons c cs ih => exact (l.applied_perform c).trans (ih _)

/-- What a pass fills in is left alone by every later one. -/
theorem not_mem_due {op op' : Option Opcode} {code code' : Code} {x y : PendingJump × Nat} (hx : x ∈ l.due id op code)
    (target : Nat) (cs : List JumpCall)
    (hy : y ∈ ((l.perform (.settle id op target code)).performAll cs).due id op' code') : y.2 ≠ x.2 := by
  intro heq
  have listed : (id, x.2) ∈ (l.perform (.settle id op target code)).applied :=
    List.mem_append_right _ (List.mem_map.mpr ⟨x, hx, rfl⟩)
  exact (mem_due.mp hy).2.1 (heq ▸ (applied_performAll _ cs).mem listed)

/-- The instructions that a pass fills in. -/
def targets (l : Ledger) (id : Nat) (op : Option Opcode) (code : Code) : List Nat :=
  ((l.due id op code).map Prod.fst).map PendingJump.index

theorem mem_targets {op : Option Opcode} {code : Code} {i : Nat} :
    i ∈ l.targets id op code ↔ i < code.size ∧ l.Awaits id op i := by
  unfold targets due Awaits settles
  rw [List.map_map, List.mem_map]
  constructor
  · rintro ⟨x, hx, rfl⟩
    rw [List.mem_filter, Bool.and_eq_true, decide_eq_true_iff] at hx
    exact ⟨hx.2.2, x, hx.1, hx.2.1, rfl⟩
  · rintro ⟨hi, x, hx, hop, rfl⟩
    exact ⟨x, List.mem_filter.mpr ⟨hx, by rw [Bool.and_eq_true, decide_eq_true_iff]; exact ⟨hop, hi⟩⟩, rfl⟩

theorem nodup_targets (h : l.Single id) (op : Option Opcode) (code : Code) : (l.targets id op code).Nodup := by
  have part : (l.due id op code).Sublist (l.recordedOn id).zipIdx := List.filter_sublist.trans List.filter_sublist
  have jumps : ((l.due id op code).map Prod.fst).Sublist (l.recordedOn id) := by
    have fsts := part.map Prod.fst
    rwa [List.zipIdx_map_fst] at fsts
  exact (jumps.map PendingJump.index).nodup h

namespace Tracks

theorem filter_pending (h : l.Tracks s) (id : Nat) (op : Option Opcode) (code : Code) :
    (s.pendingOn id).filter (settles op code) = (l.due id op code).map Prod.fst := by
  rw [h.pending, List.filter_map]
  rfl

/-- A pass gives its target to the instructions that wait for it and to no other. -/
theorem getElem?_settle (h : l.Tracks s) (id : Nat) (op : Option Opcode) (target : Nat) (code : Code) (i : Nat) :
    (l.Awaits id op i → (s.settle id op target code).2.2[i]? = code[i]?.map fun x => { x with p2 := target }) ∧
      (¬l.Awaits id op i → (s.settle id op target code).2.2[i]? = code[i]?) := by
  have filled : (s.settle id op target code).2.2[i]? =
      if i ∈ l.targets id op code then code[i]?.map (fun x => { x with p2 := target }) else code[i]? := by
    rw [BlockStack.settle_eq, h.filter_pending]
    exact getElem?_foldl_patch ..
  rw [filled]
  by_cases hi : i < code.size
  · refine ⟨fun hawaits => if_pos (mem_targets.mpr ⟨hi, hawaits⟩), fun hawaits => if_neg fun hmem => ?_⟩
    exact hawaits (mem_targets.mp hmem).2
  · have behind : code[i]? = none := Array.getElem?_eq_none (Nat.le_of_not_lt hi)
    rw [behind, Option.map_none, ite_self]
    exact ⟨fun _ => rfl, fun _ => rfl⟩

theorem length_settle (h : l.Tracks s) (id : Nat) (op : Option Opcode) (target : Nat) (code : Code) :
    (s.settle id op target code).1 = (l.due id op code).length := by
  rw [BlockStack.settle_eq, h.filter_pending]
  exact List.length_map _

end Tracks

end Ledger

/-- However calls are mixed, and whatever code each pass is given, the jumps that wait on a block are those recorded and
not filled in yet, and none is filled in twice.  A pass gives its target to the instructions inside the code that wait for
it, changes nothing else, and counts the jumps it fills in, which are as many as the instructions unless one has been
recorded twice; no later pass fills in one of them, and the same pass over code that has not grown finds none, whatever
its target.  The jumps of a `continue` that are filled in are those recorded since the last time, and none of them is left. -/
theorem jumps_settled_once (s : BlockStack) (calls : List JumpCall) :
    let l := (Ledger.of s).performAll calls
    let t := s.performAll calls
    l.applied.Nodup ∧
      (∀ id, t.pendingOn id = (l.remaining id).map Prod.fst) ∧
      (∀ id op target code,
        let pass := t.settle id op target code
        (∀ i, l.Awaits id op i → pass.2.2[i]? = code[i]?.map fun x => { x with p2 := target }) ∧
          (∀ i, ¬l.Awaits id op i → pass.2.2[i]? = code[i]?) ∧
          pass.1 = (l.due id op code).length ∧
          (l.Single id → ∃ changed : List Nat, changed.Nodup ∧ (∀ i, i ∈ changed ↔ i < code.size ∧ l.Awaits id op i) ∧
            pass.1 = changed.length) ∧
          (∀ later op' code', ∀ x ∈ l.due id op code,
            ∀ y ∈ ((l.perform (.settle id op target code)).performAll later).due id op' code', y.2 ≠ x.2) ∧
          ∀ target' code', code'.size ≤ code.size → pass.2.1.settle id op target' code' = (0, pass.2.1, code')) ∧
      ∀ id target code,
        let pass := t.settleContinue id target code
        t.deferredOn id = (s.deferredOn id).map (JumpCall.continued id · calls) ∧
          (∀ i, i ∈ (t.deferredOn id).getD [] → pass.2.2[i]? = code[i]?.map fun x => { x with p2 := target }) ∧
          (∀ i, i ∉ (t.deferredOn id).getD [] → pass.2.2[i]? = code[i]?) ∧
          pass.1 = ((t.deferredOn id).getD []).length ∧
          pass.2.1.deferredOn id = (t.deferredOn id).map (fun _ => []) ∧
          ∀ target' code', pass.2.1.settleContinue id target' code' = (0, pass.2.1, code') := by
  intro l t
  have tracks : l.Tracks t := (Ledger.Tracks.of s).performAll calls
  refine ⟨tracks.once, tracks.pending, fun id op target code => ?_, fun id target code => ?_⟩
  · refine ⟨fun i => (tracks.getElem?_settle id op target code i).1, fun i => (tracks.getElem?_settle id op target code i).2,
      tracks.length_settle id op target code, fun single => ?_,
      fun later op' code' x hx y hy => Ledger.not_mem_due hx target later hy,
      fun target' code' => t.settle_again id op target target'⟩
    refine ⟨l.targets id op code, Ledger.nodup_targets single op code, fun i => Ledger.mem_targets, ?_⟩
    refine (tracks.length_settle id op target code).trans ?_
    rw [Ledger.targets, List.length_map, List.length_map]
  · have filled (i : Nat) := getElem?_foldl_patch (fun i => i) target ((t.deferredOn id).getD []) code i
    rw [List.map_id'] at filled
    refine ⟨s.deferredOn_performAll calls id, fun i hi => ?_, fun i hi => ?_, rfl,
      t.deferredOn_settleContinue id target code, fun target' code' => t.settleContinue_again id target target' code code'⟩
    · exact (filled i).trans (if_pos hi)
    · exact (filled i).trans (if_neg hi)

end StackScript
