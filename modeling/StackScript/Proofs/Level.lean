/-
Code without errors only grows.

After an error an operator may take back an instruction that was never meant for it.  Where no error has
been reported, code that computes values is added behind what was there, its jumps stay inside it, and it
neither installs a handler nor removes one.
-/
import StackScript.Proofs.Code
import StackScript.Proofs.Run.Operation

namespace StackScript

open Gen

namespace Opcode

/-- The jumps inside a container that a running program takes by itself. -/
def isEdge : Opcode → Bool
  | jmp | jmpz | jmpnz | foreachInit | foreachStep => true
  | _ => false

/-- The operation leaves the handlers alone and has no table of targets. -/
def isSteady : Opcode → Bool
  | loadException | popException | switch => false
  | _ => true

theorem isJump_of_isEdge {op : Opcode} (h : op.isEdge = true) : op.isJump = true := by
  cases op <;> first | rfl | cases h

theorem isSteady_of_isPlain {op : Opcode} (h : op.isPlain = true) : op.isSteady = true ∧ op.isEdge = false := by
  cases op <;> first | exact ⟨rfl, rfl⟩ | cases h

end Opcode

/-- An instruction of some code from `start` on that neither touches the handlers nor jumps out of it. -/
structure Steady (start stop : Nat) (x : Instruction) : Prop where
  op : x.op.isSteady = true
  target : x.op.isEdge = true → start ≤ x.p2 ∧ x.p2 ≤ stop

theorem Steady.mono {a b c d : Nat} {x : Instruction} (h : Steady b c x) (hab : a ≤ b) (hcd : c ≤ d) :
    Steady a d x :=
  ⟨h.op, fun he => ⟨Nat.le_trans hab (h.target he).1, Nat.le_trans (h.target he).2 hcd⟩⟩

theorem steady_plain {op : Opcode} (h : op.isPlain = true) (start stop : Nat) (p1 : Int) (p2 : Nat)
    (p3 : Operand) (line : Nat) : Steady start stop ⟨op, p1, p2, p3, line⟩ := by
  obtain ⟨hsteady, hedge⟩ := Opcode.isSteady_of_isPlain h
  exact ⟨hsteady, fun he => absurd (hedge.symm.trans he) (by decide)⟩

/-- Steady code has been added. -/
structure Level (a b : Code) : Prop where
  longer : Extends a b
  fresh : ∀ (i : Nat) (x : Instruction), a.size ≤ i → b[i]? = some x → Steady a.size b.size x

namespace Level

variable {a b e : Code}

theorem refl (a : Code) : Level a a := by
  refine ⟨Extends.refl a, fun i x hi hx => ?_⟩
  rw [Array.getElem?_eq_none hi] at hx
  cases hx

theorem trans (h : Level a b) (h' : Level b e) : Level a e := by
  refine ⟨h.longer.trans h'.longer, fun i x hi hx => ?_⟩
  by_cases hb : i < b.size
  · rw [h'.longer.kept i hb] at hx
    exact (h.fresh i x hi hx).mono (Nat.le_refl _) h'.longer.grows
  · exact (h'.fresh i x (Nat.le_of_not_lt hb) hx).mono h.longer.grows (Nat.le_refl _)

theorem push {x : Instruction} (hx : Steady a.size (a.size + 1) x) : Level a (a.push x) := by
  refine ⟨Extends.push a x, fun i y hi hy => ?_⟩
  rw [Array.size_push]
  rw [Array.getElem?_push] at hy
  split at hy
  · cases hy
    exact hx
  · rw [Array.getElem?_eq_none hi] at hy
    cases hy

/-- Other steady instructions in the place of what was added. -/
theorem replace (h : Level a b) (hsize : e.size = b.size) (hkept : ∀ i < a.size, e[i]? = b[i]?)
    (hfresh : ∀ (i : Nat) (x : Instruction), a.size ≤ i → e[i]? = some x → Steady a.size b.size x) :
    Level a e := by
  refine ⟨⟨?_, fun i hi => ?_⟩, fun i x hi hx => ?_⟩
  · rw [hsize]
    exact h.longer.grows
  · rw [hkept i hi, h.longer.kept i hi]
  · rw [hsize]
    exact hfresh i x hi hx

/-- The last instruction that was added is replaced. -/
theorem rewrite (h : Level a b) (hlt : a.size < b.size) {x : Instruction} (hx : Steady a.size b.size x) :
    Level a (b.pop.push x) := by
  have hsize : (b.pop.push x).size = b.size := by
    rw [Array.size_push, Array.size_pop]
    omega
  have hget := Code.getElem?_pop_push (Nat.zero_lt_of_lt hlt) x
  refine h.replace hsize (fun i hi => ?_) fun i y hi hy => ?_
  · rw [hget, if_neg (by omega)]
  · rw [hget] at hy
    split at hy
    · cases hy
      exact hx
    · exact h.fresh i y hi hy

/-- A jump over what was added is filled in. -/
theorem skip {x : Instruction} (hop : x.op.isSteady = true) (h : Level (a.push x) b) :
    Level a (Code.patch b a.size b.size) := by
  refine ⟨((Extends.push a x).trans h.longer).patch (Nat.le_refl _) _, fun i y hi hy => ?_⟩
  rw [Code.size_patch]
  rcases Nat.eq_or_lt_of_le hi with rfl | hlt
  · rw [h.longer.jump] at hy
    cases hy
    exact ⟨hop, fun _ => ⟨Nat.le_of_lt h.longer.lt, Nat.le_refl _⟩⟩
  · rw [Code.getElem?_patch, if_neg (Nat.ne_of_lt hlt)] at hy
    refine (h.fresh i y (by rw [Array.size_push]; exact hlt) hy).mono ?_ (Nat.le_refl _)
    rw [Array.size_push]
    exact Nat.le_succ _

/-- The two jumps around the halves of a choice are filled in. -/
theorem choose {x y : Instruction} (hx : x.op.isSteady = true) (hy : y.op.isSteady = true)
    (h : Level (a.push x) b) (h' : Level (Code.patch (b.push y) a.size (b.push y).size) e) :
    Level a (Code.patch e b.size e.size) := by
  have choice : Chooses a b e x y := ⟨h.longer, h'.longer⟩
  have hab := choice.lt_yes
  have hbe := choice.lt_no
  refine ⟨choice.longer, fun i z hi hz => ?_⟩
  rw [Code.size_patch]
  rcases Nat.lt_trichotomy i b.size with hib | rfl | hib
  · rcases Nat.eq_or_lt_of_le hi with rfl | hai
    · rw [choice.at_test] at hz
      cases hz
      exact ⟨hx, fun _ => ⟨Nat.le_succ_of_le (Nat.le_of_lt hab), hbe⟩⟩
    · rw [choice.at_yes hai hib] at hz
      refine (h.fresh i z (by rw [Array.size_push]; exact hai) hz).mono ?_ (Nat.le_of_lt hbe)
      rw [Array.size_push]
      exact Nat.le_succ _
  · rw [choice.at_out] at hz
    cases hz
    exact ⟨hy, fun _ => ⟨Nat.le_of_lt (Nat.lt_trans hab hbe), Nat.le_refl _⟩⟩
  · rw [Chooses.at_no hib] at hz
    refine (h'.fresh i z ?_ hz).mono ?_ (Nat.le_refl _)
    · rw [Code.size_patch, Array.size_push]
      exact hib
    · rw [Code.size_patch, Array.size_push]
      exact Nat.le_succ_of_le (Nat.le_of_lt hab)

/-- The last instruction that was added is marked as what a call calls. -/
theorem mark {t : GenState} (h : Level a t.code) (hlt : a.size < t.code.size) :
    Level a (after markCallee t).code := by
  unfold markCallee
  rw [after_modifyLast]
  refine h.replace (Array.size_modify ..) (fun i hi => ?_) fun i x hi hx => ?_
  · rw [Array.getElem?_modify, if_neg (by omega)]
  · rw [Array.getElem?_modify] at hx
    split at hx
    · obtain ⟨y, hy, rfl⟩ := Option.map_eq_some_iff.mp hx
      have steady := h.fresh i y hi hy
      -- Only names, members and objects are marked.
      split
      · exact ⟨steady.op, steady.target⟩
      · rename_i hop
        exact ⟨steady.op, fun he => absurd he (by rw [hop]; decide)⟩
      · rename_i hop
        exact ⟨steady.op, fun he => absurd he (by rw [hop]; decide)⟩
      · exact steady
    · exact h.fresh i x hi hx

/-- What was added is dropped. -/
theorem discard (h : Level a b) : Level a (b.take a.size) := by
  rw [h.longer.take]
  exact Level.refl a

end Level

/-! ### Runs -/

theorem GenState.errors_mono {s t : GenState} (h : Frame s t) (ht : t.errors = 0) : s.errors = 0 := by
  have := Grown.errors_le h
  omega

theorem Grown.longer {s t : GenState} (h : Grown s t) (ht : t.errors = 0) : s.code.size < t.code.size := by
  rcases h with h | h
  · exact h
  · rw [ht] at h
    exact absurd h (Nat.not_lt_zero _)

/-- What a run of a kind adds, when there is no error. -/
def Leveled : Kind → GenState → GenState → Prop
  | .value _, s, t => t.errors = 0 → Level s.code t.code
  | .flow, _, _ => True
  | .sections _ _, _, _ => True

theorem Run.leveled {k : Kind} {s t : GenState} (h : Run k s t) : Leveled k s t := by
  induction h with
  | refl s => exact fun _ => Level.refl _
  | trans _ h' ih ih' => exact fun he => (ih (GenState.errors_mono h'.frame he)).trans (ih' he)
  | quiet h =>
      intro _
      rw [h.code]
      exact Level.refl _
  | put s hop p1 p2 p3 _ _ => exact fun _ => Level.push (steady_plain hop _ _ p1 p2 p3 _)
  | rewrite _ hg _ hop p1 p2 p3 _ _ ih =>
      exact fun he => (ih he).rewrite (hg.longer he) (steady_plain hop _ _ p1 p2 p3 _)
  | mark _ hg ih => exact fun he => (ih he).mark (hg.longer he)
  | skip hj _ ih =>
      intro he
      refine Level.skip ?_ (ih he)
      rcases hj with rfl | rfl <;> rfl
  | choose _ h' ih ih' =>
      intro he
      have he' := GenState.errors_mono h'.frame he
      exact Level.choose rfl rfl (ih he') (ih' he)
  | discard _ ih => exact fun he => (ih he).discard
  | thunk | body => exact fun _ => Level.refl _
  | statics _ ih => exact ih
  | static _ _ _ ih => exact ih
  | owned _ _ _ _ ih => exact ih
  | file _ _ ih => exact ih
  | @lost _ _ t _ line _ hp ih =>
      intro he
      have hlt := Grown.report (s := t) line hp
      rcases hlt with hlt | hlt
      · exact absurd hlt (Nat.lt_irrefl _)
      · omega
  | _ => trivial

/-- Code that computes values is added behind what was there. -/
theorem Run.level {made : List Made} {s t : GenState} (h : Run (.value made) s t) (he : t.errors = 0) :
    Level s.code t.code := h.leveled he

end StackScript
