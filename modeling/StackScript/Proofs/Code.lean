/-
Code in its place.

Code that only grows keeps every instruction where it is.  `Extends` says this of two stages of one
container, and `Holds` that a finished container still has the instructions some stage had added.
-/
import StackScript.Instruction

namespace StackScript

/-- Nothing of some code has changed in longer code. -/
structure Extends (a b : Code) : Prop where
  grows : a.size ≤ b.size
  kept : ∀ i < a.size, b[i]? = a[i]?

namespace Extends

variable {a b c : Code}

theorem refl (a : Code) : Extends a a := ⟨Nat.le_refl _, fun _ _ => rfl⟩

theorem trans (h : Extends a b) (h' : Extends b c) : Extends a c where
  grows := Nat.le_trans h.grows h'.grows
  kept := by
    intro i hi
    rw [h'.kept i (Nat.lt_of_lt_of_le hi h.grows), h.kept i hi]

theorem push (a : Code) (x : Instruction) : Extends a (a.push x) where
  grows := by
    rw [Array.size_push]
    exact Nat.le_succ _
  kept := by
    intro i hi
    rw [Array.getElem?_push, if_neg (Nat.ne_of_lt hi)]

/-- Filling in a jump of what was added. -/
theorem patch (h : Extends a b) {i : Nat} (hi : a.size ≤ i) (target : Nat) :
    Extends a (b.patch i target) where
  grows := by
    rw [Code.size_patch]
    exact h.grows
  kept := by
    intro k hk
    rw [Code.getElem?_patch, if_neg (by omega), h.kept k hk]

section Push

variable {x : Instruction}

theorem lt (h : Extends (a.push x) b) : a.size < b.size := by
  have := h.grows
  rw [Array.size_push] at this
  exact this

/-- The instruction that was added first. -/
theorem first (h : Extends (a.push x) b) : b[a.size]? = some x :=
  (h.kept a.size (by rw [Array.size_push]; exact Nat.lt_succ_self _)).trans Array.getElem?_push_size

/-- A jump over what was added behind it. -/
theorem jump (h : Extends (a.push x) b) (target : Nat) :
    (Code.patch b a.size target)[a.size]? = some { x with p2 := target } := by
  rw [Code.getElem?_patch, if_pos rfl, h.first]
  rfl

end Push

/-- Cutting off what was added gives the code back. -/
theorem take (h : Extends a b) : b.take a.size = a := by
  apply Array.ext_getElem?
  intro i
  rw [Array.take_eq_extract, Array.getElem?_extract]
  split
  · rename_i hi
    rw [Nat.zero_add]
    exact h.kept i (by omega)
  · have := h.grows
    rw [Array.getElem?_eq_none (by omega)]

end Extends

/-- Filling in an earlier target leaves the last instruction alone. -/
theorem Code.getElem?_patch_push {code : Code} {i : Nat} (hi : i ≠ code.size) (x : Instruction) (target : Nat) :
    (Code.patch (code.push x) i target)[code.size]? = some x := by
  rw [Code.getElem?_patch, if_neg hi]
  exact Array.getElem?_push_size

/-- Another instruction in the place of the last one. -/
theorem Code.getElem?_pop_push {code : Code} (hcode : 0 < code.size) (x : Instruction) (i : Nat) :
    (code.pop.push x)[i]? = if i = code.size - 1 then some x else code[i]? := by
  rw [Array.getElem?_push, Array.size_pop, Array.getElem?_pop]
  split
  · rfl
  · split
    · rfl
    · rw [Array.getElem?_eq_none (by omega)]

/-! ### Code of which one half is skipped -/

/-- A choice as it is generated: behind `a` a test, the first half up to the end of `b`, a jump, and the second half up
to the end of `e`.  The test has its target; that of the jump is filled in last. -/
structure Chooses (a b e : Code) (test out : Instruction) : Prop where
  yes : Extends (a.push test) b
  no : Extends (Code.patch (b.push out) a.size (b.push out).size) e

namespace Chooses

variable {a b e : Code} {test out : Instruction} {i : Nat}

theorem lt_yes (h : Chooses a b e test out) : a.size < b.size := h.yes.lt

theorem lt_no (h : Chooses a b e test out) : b.size < e.size := by
  have := h.no.grows
  rw [Code.size_patch, Array.size_push] at this
  exact this

theorem longer (h : Chooses a b e test out) : Extends a (Code.patch e b.size e.size) := by
  have first := ((Extends.push a test).trans h.yes).trans (Extends.push b out)
  exact ((first.patch (Nat.le_refl _) _).trans h.no).patch (Nat.le_of_lt h.lt_yes) _

/-- The second half leaves everything in front of it alone. -/
theorem front (h : Chooses a b e test out) (hi : i ≤ b.size) :
    e[i]? = (Code.patch (b.push out) a.size (b.push out).size)[i]? := by
  refine h.no.kept i ?_
  rw [Code.size_patch, Array.size_push]
  exact Nat.lt_succ_of_le hi

theorem at_test (h : Chooses a b e test out) :
    (Code.patch e b.size e.size)[a.size]? = some { test with p2 := b.size + 1 } := by
  rw [Code.getElem?_patch, if_neg (Nat.ne_of_gt h.lt_yes), h.front (Nat.le_of_lt h.lt_yes),
    (h.yes.trans (Extends.push b out)).jump, Array.size_push]

theorem at_yes (h : Chooses a b e test out) (hi : a.size < i) (hlt : i < b.size) :
    (Code.patch e b.size e.size)[i]? = b[i]? := by
  rw [Code.getElem?_patch, if_neg (Nat.ne_of_gt hlt), h.front (Nat.le_of_lt hlt), Code.getElem?_patch,
    if_neg (Nat.ne_of_lt hi), (Extends.push b out).kept i hlt]

theorem at_out (h : Chooses a b e test out) :
    (Code.patch e b.size e.size)[b.size]? = some { out with p2 := e.size } := by
  rw [Code.getElem?_patch, if_pos rfl, h.front (Nat.le_refl _), Code.getElem?_patch_push (Nat.ne_of_lt h.lt_yes)]
  rfl

theorem at_no (hi : b.size < i) : (Code.patch e b.size e.size)[i]? = e[i]? := by
  rw [Code.getElem?_patch, if_neg (Nat.ne_of_lt hi)]

end Chooses

/-! ### Code in a container -/

/-- A container has the instructions of some code from an index on. -/
def Holds (code : Code) (start : Nat) (part : Code) : Prop :=
  ∀ i, start ≤ i → i < part.size → code[i]? = part[i]?

namespace Holds

variable {code a b : Code} {m n : Nat}

theorem refl (code : Code) (n : Nat) : Holds code n code := fun _ _ _ => rfl

theorem shorter (h : Holds code n b) (hab : Extends a b) : Holds code n a := by
  intro i hi hlt
  rw [h i hi (Nat.lt_of_lt_of_le hlt hab.grows), hab.kept i hlt]

theorem later (h : Holds code m b) (hmn : m ≤ n) : Holds code n b :=
  fun i hi hlt => h i (Nat.le_trans hmn hi) hlt

/-- The instruction added last. -/
theorem last {x : Instruction} (h : Holds code n (a.push x)) (hn : n ≤ a.size) : code[a.size]? = some x := by
  rw [h a.size hn (by rw [Array.size_push]; exact Nat.lt_succ_self _)]
  exact Array.getElem?_push_size

/-- Behind a jump that is filled in, nothing changes. -/
theorem unpatch {i target : Nat} (h : Holds code n (a.patch i target)) (hi : i < m) (hmn : n ≤ m) :
    Holds code m a := by
  intro k hk hlt
  rw [h k (Nat.le_trans hmn hk) (by rw [Code.size_patch]; exact hlt), Code.getElem?_patch, if_neg (by omega)]

/-- The jump that is filled in. -/
theorem patched {i target : Nat} {x : Instruction} (h : Holds code n (a.patch i target)) (hi : n ≤ i)
    (hx : a[i]? = some x) : code[i]? = some { x with p2 := target } := by
  have hlt := (Array.getElem?_eq_some_iff.mp hx).1
  rw [h i hi (by rw [Code.size_patch]; exact hlt), Code.getElem?_patch, if_pos rfl, hx]
  rfl

end Holds

/-! ### Instructions of a kind -/

namespace Code

variable {α : Type} {code : Code} {x : Instruction} (f : Instruction → Option α)

theorem filterMap_push (code : Code) (x : Instruction) :
    (code.push x).toList.filterMap f = code.toList.filterMap f ++ (f x).toList := by
  rw [Array.toList_push, List.filterMap_append]
  cases h : f x <;> simp [h]

theorem filterMap_pop (h : code.back? = some x) :
    code.toList.filterMap f = code.pop.toList.filterMap f ++ (f x).toList := by
  obtain ⟨before, hbefore⟩ := List.getLast?_eq_some_iff.mp (show code.toList.getLast? = some x by simpa using h)
  rw [Array.toList_pop, hbefore, List.dropLast_concat, List.filterMap_append]
  cases h : f x <;> simp [h]

/-- What is changed about an instruction that `f` does not look at. -/
theorem filterMap_modify (code : Code) (i : Nat) {g : Instruction → Instruction}
    (hg : ∀ x, code[i]? = some x → f (g x) = f x) :
    (code.modify i g).toList.filterMap f = code.toList.filterMap f := by
  rw [Array.toList_modify]
  simp only [← Array.getElem?_toList] at hg
  generalize code.toList = xs at hg ⊢
  induction xs generalizing i with
  | nil => rw [List.modify_nil]
  | cons x xs ih =>
      cases i with
      | zero => simp [List.filterMap_cons, hg x rfl]
      | succ i => simp [List.filterMap_cons, ih i hg]

end Code

end StackScript
