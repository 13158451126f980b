/-
Constants keep their slots.

A pool only grows at its end, so a slot means the same for the rest of a compilation.  Sharing a slot needs
more: two reals may share one when their values are equal, which makes one value of the two zeros and of
all the not-a-numbers.  Literals are neither negative nor not-a-number, so among them equal values have
equal bits, and what is loaded for a literal is the literal itself.
-/
import StackScript.Proofs.Run.Law

namespace StackScript

namespace Binary64

/-- The number is neither negative nor not-a-number. -/
def IsLiteral (x : Binary64) : Prop := x.bits.toNat ≤ 2047 * twoPow 52

theorem isLiteral_infinity : infinity.IsLiteral := by
  unfold IsLiteral infinity
  decide +kernel

theorem isLiteral_ofFraction (num den : Nat) : (ofFraction num den).IsLiteral := by
  have rounded : ∀ bits : Nat,
      (if 2047 * twoPow 52 ≤ bits then infinity else ⟨UInt64.ofNat bits⟩ : Binary64).IsLiteral := by
    intro bits
    split
    · exact isLiteral_infinity
    · rename_i h
      refine Nat.le_trans ?_ (Nat.le_of_lt (Nat.lt_of_not_le h))
      rw [UInt64.toNat_ofNat']
      exact Nat.mod_le _ _
  exact rounded _

theorem isLiteral_ofDecimal (mantissa : Nat) (exponent : Int) : (ofDecimal mantissa exponent).IsLiteral := by
  unfold ofDecimal
  dsimp only
  split
  · exact Nat.zero_le _
  · split
    · exact isLiteral_infinity
    · split <;> exact isLiteral_ofFraction _ _

/-- Literals with one value are one number. -/
theorem IsLiteral.eq_of_same {x y : Binary64} (hx : x.IsLiteral) (hy : y.IsLiteral) (h : x.same y = true) :
    x = y := by
  have two52 : twoPow 52 = 4503599627370496 := by decide
  have two11 : twoPow 11 = 2048 := by decide
  have zero : ∀ z : Binary64, z.IsLiteral → z.isZero = true → z.bits.toNat = 0 := by
    intro z hz h
    simp only [isZero, exponent, fraction, IsLiteral, two52, two11, Bool.and_eq_true, beq_iff_eq] at h hz
    omega
  have number : ∀ z : Binary64, z.IsLiteral → z.isNaN = false := by
    intro z hz
    simp only [isNaN, exponent, fraction, IsLiteral, two52, two11] at hz ⊢
    simp only [Bool.and_eq_false_imp, beq_iff_eq, bne_eq_false_iff_eq]
    omega
  have bits : x.bits = y.bits := by
    simp only [same, number x hx, Bool.or_eq_true, Bool.and_eq_true, beq_iff_eq] at h
    rcases h with (h | ⟨hx0, hy0⟩) | ⟨h, -⟩
    · exact h
    · exact UInt64.toNat_inj.mp ((zero x hx hx0).trans (zero y hy hy0).symm)
    · cases h
  cases x
  cases y
  exact congrArg mk bits

end Binary64

namespace Constant

/-- A constant that a literal can stand for. -/
def IsLiteral : Constant → Prop
  | real x => x.IsLiteral
  | _ => True

theorem IsLiteral.eq_of_same {c d : Constant} (hc : c.IsLiteral) (hd : d.IsLiteral) (h : c.same d = true) :
    c = d := by
  cases c <;> cases d <;> simp only [same, Bool.false_eq_true, beq_iff_eq] at h
  case int.int => rw [h]
  case real.real => rw [Binary64.IsLiteral.eq_of_same hc hd h]
  case string.string => rw [h]

end Constant

namespace ConstantPool

variable {p q : ConstantPool} {c : Constant} {i : Nat}

theorem get?_push (p : ConstantPool) (c : Constant) (isShared : Bool) (i : Nat) :
    (p.push c isShared).2.get? i = if i = p.size then some c else p.get? i := by
  unfold push get? size
  rw [Array.getElem?_push]
  split <;> rfl

/-- Every slot holds a literal. -/
def Literal (p : ConstantPool) : Prop := ∀ i c, p.get? i = some c → c.IsLiteral

theorem Literal.push (hp : p.Literal) (hc : c.IsLiteral) (isShared : Bool) :
    (p.push c isShared).2.Literal := by
  intro i d hd
  rw [get?_push] at hd
  split at hd
  · cases hd
    exact hc
  · exact hp i d hd

theorem Literal.intern (hp : p.Literal) (hc : c.IsLiteral) : (p.intern c).2.Literal := by
  unfold ConstantPool.intern
  split
  · exact hp
  · exact hp.push hc true

theorem literal_empty (threshold : Nat) : (empty threshold).Literal := by
  intro i c hc
  match i with
  | 0 | 1 | 2 =>
      cases hc
      trivial
  | i + 3 => cases hc

/-- What grows out of a pool of literals is one. -/
theorem Grows.literal (h : p.Grows q) (hp : p.Literal) : q.Literal := by
  induction h with
  | refl => exact hp
  | int _ v ih => exact ih.intern trivial
  | real _ text ih => exact ih.intern (Binary64.isLiteral_ofDecimal _ _)
  | string _ text ih =>
      unfold addString
      split
      · exact ih.intern trivial
      · exact ih.push (c := .string text) trivial false
  | own _ text ih => exact ih.push (c := .string text) trivial false

/-! ### Slots -/

theorem get?_push_of_some (h : p.get? i = some c) (d : Constant) (isShared : Bool) :
    (p.push d isShared).2.get? i = some c := by
  rw [get?_push, if_neg]
  · exact h
  · rintro rfl
    unfold get? size at h
    rw [Array.getElem?_eq_none (Nat.le_refl _)] at h
    cases h

theorem get?_intern_of_some (h : p.get? i = some c) (d : Constant) : (p.intern d).2.get? i = some c := by
  unfold intern
  split
  · exact h
  · exact get?_push_of_some h d true

/-- A slot keeps its constant. -/
theorem Grows.get? (h : p.Grows q) (hi : p.get? i = some c) : q.get? i = some c := by
  induction h with
  | refl => exact hi
  | int _ v ih => exact get?_intern_of_some ih _
  | real _ text ih => exact get?_intern_of_some ih _
  | string _ text ih =>
      unfold addString
      split
      · exact get?_intern_of_some ih _
      · exact get?_push_of_some ih _ false
  | own _ text ih => exact get?_push_of_some ih _ false

/-- The slot of a constant is new, or holds one with the same value. -/
theorem get?_intern_cases (p : ConstantPool) (c : Constant) :
    (p.intern c).2.get? (p.intern c).1 = some c ∨
      ∃ d, p.get? (p.intern c).1 = some d ∧ (p.intern c).2 = p ∧ d.same c = true := by
  unfold intern
  split
  · rename_i i hi
    unfold find? at hi
    obtain ⟨hlt, hfound, -⟩ := Array.findIdx?_eq_some_iff_getElem.mp hi
    rw [Bool.and_eq_true] at hfound
    refine .inr ⟨p.slots[i].value, ?_, rfl, hfound.2⟩
    unfold get?
    rw [Array.getElem?_eq_getElem hlt]
    rfl
  · rw [get?_push]
    exact .inl (if_pos rfl)

/-- The slot of a constant holds it, or one with the same value. -/
theorem get?_intern_same (p : ConstantPool) (c : Constant) :
    ∃ d, (p.intern c).2.get? (p.intern c).1 = some d ∧ (d = c ∨ d.same c = true) := by
  obtain hnew | ⟨d, hd, heq, hsame⟩ := p.get?_intern_cases c
  · exact ⟨c, hnew, .inl rfl⟩
  · exact ⟨d, by rw [heq, hd], .inr hsame⟩

/-- The slot of a literal holds that literal. -/
theorem get?_intern (hp : p.Literal) (hc : c.IsLiteral) : (p.intern c).2.get? (p.intern c).1 = some c := by
  obtain hnew | ⟨d, hd, heq, hsame⟩ := p.get?_intern_cases c
  · exact hnew
  · rw [heq, hd, Constant.IsLiteral.eq_of_same (hp _ _ hd) hc hsame]

theorem get?_addString (hp : p.Literal) (text : String) :
    (p.addString text).2.get? (p.addString text).1 = some (.string text) := by
  unfold addString
  split
  · exact get?_intern hp trivial
  · rw [get?_push]
    exact if_pos rfl

end ConstantPool

/-! ### Every run keeps the constants -/

open Gen

theorem runLaw_constants : RunLaw fun s t => s.program.constants.Grows t.program.constants where
  trans := ConstantPool.Grows.trans
  inner h := h.program ▸ .refl
  quiet h := h.constants
  record := .refl
  container h := h
  statics h := h
  static _ := .refl
  file hq := hq.constants ▸ .refl
  reserveException := .refl
  switch h := h

theorem Run.constants {k : Kind} {s t : GenState} (h : Run k s t) :
    s.program.constants.Grows t.program.constants := runLaw_constants.holds h

end StackScript
