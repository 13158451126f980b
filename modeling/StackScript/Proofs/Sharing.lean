/-
The slots that requests for constants are answered with.

A number or a short string shares the slot of the first request for the same value, and any other string
gets a slot that nothing else is answered with.  A pool finds a shared slot by looking through its slots.
`IndexedPool` is the same with an index from values to slots, so that nothing is searched: what has to be
shown is that the index knows the shared slots and no others, however many equal strings have slots of
their own (`IndexedPool.Indexes`).
-/
import Mathlib.Data.List.Induction
import Std.Data.HashMap.Lemmas
import StackScript.Proofs.Constants

namespace StackScript

/-! ### Values -/

namespace Binary64

/-- What numbers of one value have in common. -/
inductive Value where
  | zero
  | nan
  | number (bits : UInt64)
deriving DecidableEq, Hashable

def value (x : Binary64) : Value := if x.isZero then .zero else if x.isNaN then .nan else .number x.bits

theorem same_iff {x y : Binary64} : x.same y = true ↔ x.value = y.value := by
  have zero : x.bits = y.bits → x.isZero = y.isZero := by
    intro h
    simp only [isZero, exponent, fraction, h]
  have nan : x.bits = y.bits → x.isNaN = y.isNaN := by
    intro h
    simp only [isNaN, exponent, fraction, h]
  have apart {z : Binary64} (h : z.isZero = true) : z.isNaN = false := by
    simp only [isZero, Bool.and_eq_true, beq_iff_eq] at h
    simp [isNaN, h.1]
  simp only [same, value, Bool.or_eq_true, Bool.and_eq_true, beq_iff_eq]
  by_cases hx : x.isZero = true <;> by_cases hy : y.isZero = true <;> by_cases hx' : x.isNaN = true <;>
    by_cases hy' : y.isNaN = true <;> simp_all

end Binary64

namespace Constant

/-- What constants that can share a slot have in common. -/
inductive Value where
  | int (value : Int64)
  | real (value : Binary64.Value)
  | string (value : String)
deriving DecidableEq, Hashable

def value? : Constant → Option Value
  | int v => some (.int v)
  | real x => some (.real x.value)
  | string s => some (.string s)
  | null | bool _ => none

theorem same_iff {c d : Constant} : c.same d = true ↔ c.value?.isSome ∧ c.value? = d.value? := by
  cases c <;> cases d <;> simp [same, value?, Binary64.same_iff]

/-- Constants that can share a slot share the same ones. -/
theorem same_congr {c d : Constant} (h : c.same d = true) (e : Constant) : e.same c = e.same d := by
  rw [Bool.eq_iff_iff, same_iff, same_iff, (same_iff.mp h).2]

end Constant

/-! ### Requests -/

/-- A request for the slot of a constant. -/
inductive ConstantRequest where
  | int (value : Int64)
  | real (value : Binary64)
  | bool (value : Bool)
  | string (value : String)
  | ownString (value : String)

namespace ConstantRequest

/-- The constant asked for. -/
def constant : ConstantRequest → Constant
  | int v => .int v
  | real x => .real x
  | bool b => .bool b
  | string s | ownString s => .string s

def real? : ConstantRequest → Option Binary64
  | real x => some x
  | _ => none

/-- Whether the slot may be that of an equal value. -/
def isShared (threshold : Nat) : ConstantRequest → Bool
  | int _ | real _ => true
  | string s => s.utf8ByteSize < threshold
  | bool _ | ownString _ => false

/-- Whether the slot is nothing else's. -/
def isOwn (threshold : Nat) : ConstantRequest → Bool
  | string s => threshold ≤ s.utf8ByteSize
  | ownString _ => true
  | int _ | real _ | bool _ => false

/-- The constant in the slot of a request after some others: of reals of one value, the first one asked for. -/
def held (before : List ConstantRequest) : ConstantRequest → Constant
  | real x => .real (((before.filterMap real?).find? (·.same x)).getD x)
  | r => r.constant

end ConstantRequest

namespace ConstantPool

open ConstantRequest

variable {p : ConstantPool} {c d : Constant} {r r' : ConstantRequest} {i threshold : Nat}

/-- The slot of a request, and the pool with it. -/
def add (p : ConstantPool) : ConstantRequest → Nat × ConstantPool
  | .int v => p.addInt v
  | .real x => p.addReal x
  | .bool b => p.addBool b
  | .string s => p.addString s
  | .ownString s => p.addOwnString s

/-- The pool after some requests. -/
def run (p : ConstantPool) : List ConstantRequest → ConstantPool
  | [] => p
  | r :: rs => (p.add r).2.run rs

theorem run_append (p : ConstantPool) (rs rs' : List ConstantRequest) : p.run (rs ++ rs') = (p.run rs).run rs' := by
  induction rs generalizing p with
  | nil => rfl
  | cons r rs ih => exact ih _

/-- The slots that some requests are answered with. -/
def answers (p : ConstantPool) : List ConstantRequest → List Nat
  | [] => []
  | r :: rs => (p.add r).1 :: (p.add r).2.answers rs

/-- The slot of a request that comes after another one and some more. -/
def slotBehind (p : ConstantPool) (r : ConstantRequest) (between : List ConstantRequest) (r' : ConstantRequest) :
    Nat :=
  (((p.add r).2.run between).add r').1

theorem add_of_isShared (h : r.isShared p.threshold = true) : p.add r = p.intern r.constant := by
  cases r with
  | int | real => rfl
  | string s => exact if_pos (of_decide_eq_true h)
  | bool | ownString => cases h

theorem add_of_isOwn (h : r.isOwn p.threshold = true) : p.add r = p.push r.constant false := by
  cases r with
  | string s => exact if_neg (Nat.not_lt.mpr (of_decide_eq_true h))
  | ownString => rfl
  | int | real | bool => cases h

theorem intern_of_some (h : p.find? c = some i) : p.intern c = (i, p) := by rw [intern, h]

theorem intern_of_none (h : p.find? c = none) : p.intern c = p.push c true := by rw [intern, h]

/-- A request is answered with a reserved slot, a shared one or one of its own. -/
theorem request_cases (threshold : Nat) (r : ConstantRequest) :
    (∃ b, r = .bool b) ∨ r.isShared threshold = true ∨ r.isOwn threshold = true := by
  cases r with
  | int | real => exact .inr (.inl rfl)
  | bool b => exact .inl ⟨b, rfl⟩
  | string s => exact .inr ((Nat.lt_or_ge _ _).imp decide_eq_true decide_eq_true)
  | ownString => exact .inr (.inr rfl)

/-! ### Slots stay -/

/-- Adding a slot is all that a request can do to a pool. -/
theorem add_keeps {P : ConstantPool → Prop} (push : ∀ q c isShared, P q → P (push q c isShared).2) (h : P p)
    (r : ConstantRequest) : P (p.add r).2 := by
  rcases request_cases p.threshold r with ⟨b, rfl⟩ | hr | hr
  · exact h
  · rw [add_of_isShared hr]
    cases hfind : p.find? r.constant with
    | some i => rwa [intern_of_some hfind]
    | none =>
        rw [intern_of_none hfind]
        exact push _ _ _ h
  · rw [add_of_isOwn hr]
    exact push _ _ _ h

theorem run_keeps {P : ConstantPool → Prop} (push : ∀ q c isShared, P q → P (push q c isShared).2) (h : P p)
    (rs : List ConstantRequest) : P (p.run rs) := by
  induction rs generalizing p with
  | nil => exact h
  | cons r rs ih => exact ih (add_keeps push h r)

theorem threshold_run (p : ConstantPool) (rs : List ConstantRequest) : (p.run rs).threshold = p.threshold :=
  run_keeps (P := fun q => q.threshold = p.threshold) (fun _ _ _ h => h) rfl rs

theorem threshold_add (p : ConstantPool) (r : ConstantRequest) : (p.add r).2.threshold = p.threshold :=
  threshold_run p [r]

theorem length_constants (p : ConstantPool) : p.constants.length = p.size := by
  rw [constants, List.length_map, Array.length_toList, size]

theorem constants_push (p : ConstantPool) (c : Constant) (isShared : Bool) :
    (p.push c isShared).2.constants = p.constants ++ [c] := by
  simp [push, constants]

theorem constants_run (p : ConstantPool) (rs : List ConstantRequest) : p.constants <+: (p.run rs).constants :=
  run_keeps (P := fun q => p.constants <+: q.constants)
    (fun q c isShared h => h.trans (by rw [constants_push]; exact List.prefix_append _ _)) List.prefix_rfl rs

theorem slot_run {s : Slot} (h : p.slots[i]? = some s) (rs : List ConstantRequest) :
    (p.run rs).slots[i]? = some s := by
  refine run_keeps (P := fun q => q.slots[i]? = some s) (fun q c isShared h => ?_) h rs
  obtain ⟨hi, -⟩ := Array.getElem?_eq_some_iff.mp h
  rw [push, Array.getElem?_push_lt hi, ← h, Array.getElem?_eq_getElem hi]

theorem get?_run (h : p.get? i = some c) (rs : List ConstantRequest) : (p.run rs).get? i = some c :=
  run_keeps (P := fun q => q.get? i = some c) (fun _ d isShared h => get?_push_of_some h d isShared) h rs

/-! ### Shared slots -/

theorem find?_empty (threshold : Nat) (c : Constant) : (empty threshold).find? c = none := by
  simp [find?, empty]

theorem find?_push (p : ConstantPool) (c d : Constant) (isShared : Bool) :
    (p.push c isShared).2.find? d = (p.find? d).or (if isShared && c.same d then some p.size else none) :=
  Array.findIdx?_push

theorem find?_run (h : p.find? c = some i) (rs : List ConstantRequest) : (p.run rs).find? c = some i :=
  run_keeps (P := fun q => q.find? c = some i) (fun q d isShared h => by rw [find?_push, h, Option.some_or]) h rs

theorem find?_congr (h : c.same d = true) : p.find? c = p.find? d := by
  simp only [find?, Constant.same_congr h]

theorem slot_find? (h : p.find? c = some i) : ∃ d, p.slots[i]? = some ⟨d, true⟩ ∧ d.same c = true := by
  obtain ⟨hi, hfound, -⟩ := Array.findIdx?_eq_some_iff_getElem.mp h
  rw [Bool.and_eq_true] at hfound
  refine ⟨p.slots[i].value, ?_, hfound.2⟩
  rw [Array.getElem?_eq_getElem hi, ← hfound.1]

theorem same_constant (h : r.isShared threshold = true) : r.constant.same r.constant = true := by
  rw [Constant.same_iff]
  cases r with
  | int | real | string => exact ⟨rfl, rfl⟩
  | bool | ownString => cases h

/-- The slot of a shared request can be found from then on. -/
theorem find?_add (h : r.isShared p.threshold = true) : (p.add r).2.find? r.constant = some (p.add r).1 := by
  rw [add_of_isShared h]
  cases hfind : p.find? r.constant with
  | some i => rw [intern_of_some hfind, hfind]
  | none =>
      rw [intern_of_none hfind, find?_push, hfind, Option.none_or, same_constant h]
      rfl

/-- Two shared requests are answered with the same slot exactly if they ask for the same value. -/
theorem slotBehind_eq_iff (p : ConstantPool) (r r' : ConstantRequest) (between : List ConstantRequest)
    (h : r.isShared p.threshold = true) (h' : r'.isShared p.threshold = true) :
    p.slotBehind r between r' = (p.add r).1 ↔ r.constant.same r'.constant = true := by
  have shared : r'.isShared ((p.add r).2.run between).threshold = true := by
    rwa [threshold_run, threshold_add]
  have found : ((p.add r).2.run between).find? r.constant = some (p.add r).1 := find?_run (find?_add h) between
  unfold slotBehind
  constructor
  · intro heq
    obtain ⟨d, hd, hsame⟩ := slot_find? (find?_run found [r'])
    obtain ⟨e, he, hsame'⟩ := slot_find? (find?_add shared)
    rw [heq] at he
    cases hd.symm.trans he
    rw [Constant.same_iff] at hsame hsame' ⊢
    exact ⟨hsame.2 ▸ hsame.1, hsame.2.symm.trans hsame'.2⟩
  · intro hsame
    rw [find?_congr hsame] at found
    rw [add_of_isShared shared, intern_of_some found]

/-- The constant in the slot that a real would share. -/
def sharedReal? (p : ConstantPool) (x : Binary64) : Option Constant := (p.find? (.real x)).bind p.get?

theorem sharedReal?_push (p : ConstantPool) (c : Constant) (isShared : Bool) (x : Binary64) :
    (p.push c isShared).2.sharedReal? x =
      (p.sharedReal? x).or (if isShared && c.same (.real x) then some c else none) := by
  unfold sharedReal?
  rw [find?_push]
  cases hfind : p.find? (.real x) with
  | some i =>
      obtain ⟨d, hd, -⟩ := slot_find? hfind
      have held : p.get? i = some d := congrArg (Option.map Slot.value) hd
      rw [Option.some_or, Option.bind_some, Option.bind_some, get?_push_of_some held, held, Option.some_or]
  | none =>
      rw [Option.none_or, Option.bind_none, Option.none_or]
      split
      · rw [Option.bind_some, get?_push, if_pos rfl]
      · rfl

/-- A real is kept if there is none of its value yet. -/
theorem sharedReal?_add (p : ConstantPool) (r : ConstantRequest) (x : Binary64) :
    (p.add r).2.sharedReal? x = (p.sharedReal? x).or ((r.real?.filter (·.same x)).map .real) := by
  rcases request_cases p.threshold r with ⟨b, rfl⟩ | hr | hr
  · exact Option.or_none.symm
  · rw [add_of_isShared hr]
    cases hfind : p.find? r.constant with
    | some i =>
        rw [intern_of_some hfind]
        cases r with
        | int | string => exact Option.or_none.symm
        | bool | ownString => cases hr
        | real y =>
            rw [real?, Option.filter_some]
            split
            · rename_i hsame
              have found : p.find? (.real x) = some i := (find?_congr (c := .real y) (d := .real x) hsame).symm.trans hfind
              obtain ⟨d, hd, -⟩ := slot_find? found
              have kept : p.sharedReal? x = some d := by
                rw [sharedReal?, found]
                exact congrArg (Option.map Slot.value) hd
              rw [kept, Option.some_or]
            · exact Option.or_none.symm
    | none =>
        rw [intern_of_none hfind, sharedReal?_push, Bool.true_and]
        cases r with
        | int | string => rfl
        | bool | ownString => cases hr
        | real y =>
            rw [real?, Option.filter_some, apply_ite (Option.map Constant.real)]
            rfl
  · rw [add_of_isOwn hr, sharedReal?_push, Bool.false_and]
    cases r with
    | string | ownString => rfl
    | int | real | bool => cases hr

theorem sharedReal?_run (threshold : Nat) (rs : List ConstantRequest) (x : Binary64) :
    ((empty threshold).run rs).sharedReal? x = ((rs.filterMap real?).find? (·.same x)).map .real := by
  induction rs using List.reverseRecOn with
  | nil => rw [run, sharedReal?, find?_empty]; rfl
  | append_singleton rs r ih =>
      rw [run_append, run, run, sharedReal?_add, ih, List.filterMap_append, List.find?_append, Option.map_or]
      cases hr : r.real? with
      | none => rw [List.filterMap_cons_none hr]; rfl
      | some y => rw [List.filterMap_cons_some hr, Option.filter_some, List.filterMap_nil, List.find?_singleton]

/-- The slot of a request holds what was asked for, or the first real of its value. -/
theorem get?_add (threshold : Nat) (before : List ConstantRequest) (r : ConstantRequest) :
    (((empty threshold).run before).add r).2.get? (((empty threshold).run before).add r).1 = some (r.held before) := by
  have reserved : ∀ {i : Nat} {c : Constant}, (empty threshold).get? i = some c →
      ((empty threshold).run before).get? i = some c := fun h => get?_run h before
  generalize hp : (empty threshold).run before = p at reserved ⊢
  rcases request_cases p.threshold r with ⟨b, rfl⟩ | hr | hr
  · cases b <;> exact reserved rfl
  · obtain ⟨d, hd, hsame⟩ := slot_find? (find?_add hr)
    have slot : (p.add r).2.get? (p.add r).1 = some d := congrArg (Option.map Slot.value) hd
    cases r with
    | int v => cases d <;> simp_all [Constant.same, constant, held]
    | string s => cases d <;> simp_all [Constant.same, constant, held]
    | bool | ownString => cases hr
    | real x =>
        have found : (p.add (.real x)).2.find? (.real x) = some (p.add (.real x)).1 := find?_add hr
        have kept := sharedReal?_run threshold (before ++ [.real x]) x
        rw [run_append, hp, run, run, sharedReal?, found, Option.bind_some] at kept
        rw [kept, List.filterMap_append, List.find?_append, held]
        cases (before.filterMap real?).find? (·.same x) with
        | some y => rfl
        | none =>
            have first : [x].find? (·.same x) = some x := List.find?_cons_of_pos (same_constant hr)
            exact congrArg (Option.map Constant.real) first
  · rw [add_of_isOwn hr, get?_push]
    cases r with
    | string | ownString => exact if_pos rfl
    | int | real | bool => cases hr

/-- A slot of one's own is new, and no later request is answered with it. -/
theorem slotBehind_ne (hp : 3 ≤ p.size) (h : r.isOwn p.threshold = true) (between : List ConstantRequest)
    (r' : ConstantRequest) : (p.add r).1 = p.size ∧ p.slotBehind r between r' ≠ (p.add r).1 := by
  have new : (p.add r).1 = p.size := by
    rw [add_of_isOwn h]
    rfl
  have own : (p.add r).2.slots[p.size]? = some ⟨r.constant, false⟩ := by
    rw [add_of_isOwn h]
    exact Array.getElem?_push_size
  have kept := slot_run own between
  refine ⟨new, fun heq => ?_⟩
  rw [new] at heq
  unfold slotBehind at heq
  generalize (p.add r).2.run between = q at kept heq
  rcases request_cases q.threshold r' with ⟨b, rfl⟩ | hr | hr
  · have reserved : (q.add (.bool b)).1 < 3 := by cases b <;> exact Nat.lt_of_sub_ne_zero nofun
    exact absurd hp (Nat.not_le.mpr (heq ▸ reserved))
  · obtain ⟨d, hd, -⟩ := slot_find? (find?_add hr)
    have kept' := slot_run kept [r']
    rw [heq] at hd
    cases hd.symm.trans kept'
  · rw [add_of_isOwn hr] at heq
    have behind : q.slots[q.size]? = none := Array.getElem?_eq_none (Nat.le_refl _)
    rw [← heq] at kept
    cases behind.symm.trans kept

end ConstantPool

/-! ### Index -/

/-- Slots with an index: for each value the slot that requests for it share. -/
structure IndexedPool where
  constants : Array Constant
  index : Std.HashMap Constant.Value Nat
  threshold : Nat

namespace IndexedPool

open ConstantPool (trueSlot falseSlot)

def empty (threshold : Nat) : IndexedPool := ⟨#[.null, .bool true, .bool false], ∅, threshold⟩

def push (t : IndexedPool) (c : Constant) : Nat × IndexedPool :=
  (t.constants.size, { t with constants := t.constants.push c })

/-- The slot of a value, which is a new one with an entry in the index if it has none. -/
def intern (t : IndexedPool) (v : Constant.Value) (c : Constant) : Nat × IndexedPool :=
  match t.index[v]? with
  | some i => (i, t)
  | none => (t.constants.size, { t with
      constants := t.constants.push c
      index := t.index.insert v t.constants.size })

/-- The slot of a request, and the pool with it. -/
def add (t : IndexedPool) : ConstantRequest → Nat × IndexedPool
  | .int v => t.intern (.int v) (.int v)
  | .real x => t.intern (.real x.value) (.real x)
  | .bool b => (if b then trueSlot else falseSlot, t)
  | .string s => if s.utf8ByteSize < t.threshold then t.intern (.string s) (.string s) else t.push (.string s)
  | .ownString s => t.push (.string s)

/-- The pool after some requests. -/
def run (t : IndexedPool) : List ConstantRequest → IndexedPool
  | [] => t
  | r :: rs => (t.add r).2.run rs

/-- The slots that some requests are answered with. -/
def answers (t : IndexedPool) : List ConstantRequest → List Nat
  | [] => []
  | r :: rs => (t.add r).1 :: (t.add r).2.answers rs

/-- The pool holds the constants of another one, and its index tells the slots that can be shared. -/
structure Indexes (t : IndexedPool) (p : ConstantPool) : Prop where
  threshold : t.threshold = p.threshold
  constants : t.constants.toList = p.constants
  index : ∀ c v, c.value? = some v → t.index[v]? = p.find? c

namespace Indexes

variable {t : IndexedPool} {p : ConstantPool} {c : Constant} {v : Constant.Value}

theorem size (h : t.Indexes p) : t.constants.size = p.size := by
  rw [← Array.length_toList, h.constants, ConstantPool.length_constants]

theorem constants_push (h : t.Indexes p) (c : Constant) (isShared : Bool) :
    (t.constants.push c).toList = (p.push c isShared).2.constants := by
  rw [Array.toList_push, h.constants, ConstantPool.constants_push]

/-- A slot of its own has no entry in the index. -/
theorem push (h : t.Indexes p) (c : Constant) :
    (t.push c).1 = (p.push c false).1 ∧ (t.push c).2.Indexes (p.push c false).2 := by
  refine ⟨h.size, h.threshold, h.constants_push c false, fun d v hd => ?_⟩
  rw [ConstantPool.find?_push, Bool.false_and]
  exact (h.index d v hd).trans Option.or_none.symm

theorem intern (h : t.Indexes p) (hc : c.value? = some v) :
    (t.intern v c).1 = (p.intern c).1 ∧ (t.intern v c).2.Indexes (p.intern c).2 := by
  unfold IndexedPool.intern
  rw [h.index c v hc]
  cases hfind : p.find? c with
  | some i =>
      rw [ConstantPool.intern_of_some hfind]
      exact ⟨rfl, h⟩
  | none =>
      rw [ConstantPool.intern_of_none hfind]
      refine ⟨h.size, h.threshold, h.constants_push c true, fun d w hd => ?_⟩
      rw [ConstantPool.find?_push, Std.HashMap.getElem?_insert, h.size, Bool.true_and]
      by_cases hsame : c.same d = true
      · have hvalue := (Constant.same_iff.mp hsame).2
        rw [hc, hd, Option.some.injEq] at hvalue
        rw [if_pos (beq_iff_eq.mpr hvalue), if_pos hsame, ← ConstantPool.find?_congr hsame, hfind, Option.none_or]
      · have hvalue : v ≠ w := by
          rintro rfl
          exact hsame (Constant.same_iff.mpr ⟨by rw [hc]; rfl, hc.trans hd.symm⟩)
        rw [if_neg (mt beq_iff_eq.mp hvalue), if_neg hsame, h.index d w hd, Option.or_none]

/-- A request is answered with the same slot, and keeps the index in step. -/
theorem add (h : t.Indexes p) (r : ConstantRequest) :
    (t.add r).1 = (p.add r).1 ∧ (t.add r).2.Indexes (p.add r).2 := by
  cases r with
  | int v => exact h.intern rfl
  | real x => exact h.intern rfl
  | bool b => exact ⟨rfl, h⟩
  | string s =>
      unfold IndexedPool.add ConstantPool.add ConstantPool.addString
      dsimp only
      rw [h.threshold]
      split
      · exact h.intern rfl
      · exact h.push _
  | ownString s => exact h.push _

theorem run (h : t.Indexes p) (rs : List ConstantRequest) :
    t.answers rs = p.answers rs ∧ (t.run rs).Indexes (p.run rs) := by
  induction rs generalizing t p with
  | nil => exact ⟨rfl, h⟩
  | cons r rs ih =>
      obtain ⟨hslot, hnext⟩ := h.add r
      obtain ⟨hslots, hrun⟩ := ih hnext
      refine ⟨?_, hrun⟩
      rw [IndexedPool.answers, ConstantPool.answers, hslot, hslots]

theorem empty (threshold : Nat) : (IndexedPool.empty threshold).Indexes (ConstantPool.empty threshold) where
  threshold := rfl
  constants := rfl
  index c v _ := by
    rw [ConstantPool.find?_empty]
    exact Std.HashMap.getElem?_empty

end Indexes

end IndexedPool

namespace ConstantPool

open ConstantRequest

/-- After any requests the reserved slots are as they were and constants have only been added behind the others.
The slot of a further request holds what was asked for, for a real the first one of its value, and still does after
any more requests.  Numbers share a slot exactly if their values are equal, and so do short strings; any other string
gets a new slot that no later request is answered with.  A pool with an index has the same answers and constants. -/
theorem slots_shared (threshold : Nat) (before : List ConstantRequest) :
    let p := (empty threshold).run before
    (p.get? nullSlot = some .null ∧ p.get? trueSlot = some (.bool true) ∧ p.get? falseSlot = some (.bool false)) ∧
      (∀ rs, p.constants <+: (p.run rs).constants) ∧
      (∀ r rs, ((p.add r).2.run rs).get? (p.add r).1 = some (r.held before)) ∧
      (∀ x between y, p.slotBehind (.int x) between (.int y) = (p.addInt x).1 ↔ x = y) ∧
      (∀ x between y, p.slotBehind (.real x) between (.real y) = (p.addReal x).1 ↔ x.same y = true) ∧
      (∀ x between y, x.utf8ByteSize < threshold → y.utf8ByteSize < threshold →
        (p.slotBehind (.string x) between (.string y) = (p.addString x).1 ↔ x = y)) ∧
      (∀ r between r', r.isOwn threshold = true →
        (p.add r).1 = p.size ∧ p.slotBehind r between r' ≠ (p.add r).1) ∧
      (IndexedPool.empty threshold).answers before = (empty threshold).answers before ∧
      ((IndexedPool.empty threshold).run before).constants.toList = p.constants := by
  intro p
  have reserved : ∀ {i : Nat} {c : Constant}, (empty threshold).get? i = some c → p.get? i = some c :=
    fun h => get?_run h before
  have hthreshold : p.threshold = threshold := threshold_run _ before
  have indexed := (IndexedPool.Indexes.empty threshold).run before
  have size : 3 ≤ p.size := by
    rw [← length_constants p]
    exact (constants_run (empty threshold) before).length_le
  refine ⟨⟨reserved rfl, reserved rfl, reserved rfl⟩, constants_run p, fun r rs => ?_, fun x between y => ?_,
    fun x between y => ?_, fun x between y hx hy => ?_, fun r between r' hr => ?_, indexed.1, indexed.2.constants⟩
  · exact get?_run (get?_add threshold before r) rs
  · exact (slotBehind_eq_iff p (.int x) (.int y) between rfl rfl).trans beq_iff_eq
  · exact slotBehind_eq_iff p (.real x) (.real y) between rfl rfl
  · rw [← hthreshold] at hx hy
    exact (slotBehind_eq_iff p (.string x) (.string y) between (decide_eq_true hx) (decide_eq_true hy)).trans beq_iff_eq
  · rw [← hthreshold] at hr
    exact slotBehind_ne size hr between r'

end ConstantPool

end StackScript
