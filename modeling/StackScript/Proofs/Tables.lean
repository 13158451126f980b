/-
The tables of a program only grow.

Entries are handed out by number before the construct they belong to is finished, and nested constructs
share the tables.  So what an instruction refers to stays where it is: no table gets shorter, and of the
tables of switches only those are filled in that were reserved by the same run.
-/
import StackScript.Proofs.Constants
import StackScript.Proofs.Run

namespace StackScript

open Gen

/-! ### Code in the tables -/

/-- A table that is not filled in yet holds no code. -/
theorem stock_reserveException (s : GenState) : (after reserveException s).program.stock = s.program.stock := by
  rw [after_reserveException]
  simp [Program.stock, Program.thunks, Program.bodies]

theorem stock_reserveSwitch (s : GenState) : (after reserveSwitch s).program.stock = s.program.stock := by
  rw [after_reserveSwitch]
  simp [Program.stock, Program.thunks, Program.bodies]

/-- The guards of a switch are put away with its table. -/
theorem thunks_fillSwitch {s : GenState} {id : Nat} {table : SwitchTable} {c : Code}
    (hc : c ∈ (after (fillSwitch id table) s).program.thunks) :
    c ∈ s.program.thunks ∨ ∃ e ∈ table.cases, e.guard = c := by
  rw [after_fillSwitch] at hc
  simp only [Program.thunks, List.mem_append, List.mem_flatMap, List.mem_map] at hc ⊢
  rcases hc with hc | ⟨table', htable, e, he, rfl⟩
  · exact .inl (.inl hc)
  · rcases List.mem_or_eq_of_mem_set htable with htable | rfl
    · exact .inl (.inr ⟨table', htable, e, he, rfl⟩)
    · exact .inr ⟨e, he, rfl⟩

theorem Quiet.stock {s t : GenState} (h : Quiet s t) : t.program.stock = s.program.stock := by
  rw [h.program]
  rfl

/-! ### Static variables

They are collected in frames, one for each function around. -/

section Frames

variable {P : StaticVar → Prop} {frame : List StaticVar} {frames : List (List StaticVar)} {v : StaticVar}

/-- What holds of all static variables holds of those of the last frame, which are handed over together. -/
theorem StaticVar.forall_last (h : ∀ frame ∈ frames, ∀ v ∈ frame, P v) : ∀ v ∈ frames.headD [], P v := by
  cases frames with
  | nil => exact fun _ hv => absurd hv List.not_mem_nil
  | cons frame frames => exact h frame List.mem_cons_self

theorem StaticVar.forall_add (h : ∀ f ∈ frame :: frames, ∀ w ∈ f, P w) (hv : P v) :
    ∀ f ∈ (frame ++ [v]) :: frames, ∀ w ∈ f, P w := by
  intro f hf w hw
  rcases List.mem_cons.mp hf with rfl | hf
  · rcases List.mem_append.mp hw with hw | hw
    · exact h frame List.mem_cons_self w hw
    · rw [List.mem_singleton.mp hw]
      exact hv
  · exact h f (List.mem_cons_of_mem _ hf) w hw

end Frames

/-! ### Switches and records -/

/-- What every run leaves in the tables of switches and in the records of jumps and containers: what was
there. -/
structure Keeps (s t : GenState) : Prop where
  longer : s.program.switches.length ≤ t.program.switches.length
  tables : ∀ k < s.program.switches.length, t.program.switches[k]? = s.program.switches[k]?
  jumps : s.jumps <+: t.jumps
  filled : s.filled <+: t.filled

namespace Keeps

variable {s t u : GenState}

theorem same (hs : t.program.switches = s.program.switches) (hj : t.jumps = s.jumps)
    (hf : t.filled = s.filled) : Keeps s t where
  longer := Nat.le_of_eq (by rw [hs])
  tables := fun _ _ => by rw [hs]
  jumps := by simp [hj]
  filled := by simp [hf]

theorem trans (h : Keeps s t) (h' : Keeps t u) : Keeps s u where
  longer := Nat.le_trans h.longer h'.longer
  tables := by
    intro k hk
    rw [h'.tables k (Nat.lt_of_lt_of_le hk h.longer), h.tables k hk]
  jumps := h.jumps.trans h'.jumps
  filled := h.filled.trans h'.filled

/-- The same between states that differ in nothing that matters here. -/
theorem congr {s' t' : GenState} (h : Keeps s t) (hs : s'.program.switches = s.program.switches)
    (hsj : s'.jumps = s.jumps) (ht : t'.program.switches = t.program.switches) (htj : t'.jumps = t.jumps)
    (hsf : s'.filled = s.filled) (htf : t.filled <+: t'.filled) :
    Keeps s' t' where
  longer := by rw [hs, ht]; exact h.longer
  tables := by rw [hs, ht]; exact h.tables
  jumps := by rw [hsj, htj]; exact h.jumps
  filled := by rw [hsf]; exact h.filled.trans htf

end Keeps

/-- The table that is filled in behind the sections of a switch was not there before. -/
theorem Keeps.reserved {s t : GenState} (h : Keeps (after reserveSwitch s) t) {table : SwitchTable} :
    Keeps s (after (fillSwitch s.program.switches.length table) t) := by
  have hlt : s.program.switches.length < t.program.switches.length := by
    have := h.longer
    rw [after_reserveSwitch, List.length_append] at this
    exact this
  refine ⟨?_, fun k hk => ?_, h.jumps, h.filled⟩
  · rw [after_fillSwitch, List.length_set]
    exact Nat.le_of_lt hlt
  · have := h.tables k (by rw [after_reserveSwitch, List.length_append]; omega)
    rw [after_fillSwitch, List.getElem?_set_ne (Nat.ne_of_gt hk), this, after_reserveSwitch, List.getElem?_append_left hk]

theorem runLaw_keeps : RunLaw Keeps where
  trans := Keeps.trans
  inner h := .same (by rw [h.program]) h.jumps h.filled
  quiet h := .same (by rw [h.program]) h.jumps h.filled
  record := ⟨Nat.le_refl _, fun _ _ => rfl, List.prefix_append _ _, List.prefix_rfl⟩
  container h := h.congr rfl rfl rfl rfl rfl (List.prefix_append _ _)
  statics h := h.congr rfl rfl rfl rfl rfl List.prefix_rfl
  static _ := .same rfl rfl rfl
  file hq := .same hq.switches rfl rfl
  reserveException := .same rfl rfl rfl
  switch h := h.reserved

theorem Run.keeps {k : Kind} {s t : GenState} (h : Run k s t) : Keeps s t := runLaw_keeps.holds h

/-- The tables of switches that were completed between two states are those of the finished program. -/
def Agrees (F : List SwitchTable) (s t : GenState) : Prop :=
  ∀ k, s.program.switches.length ≤ k → k < t.program.switches.length → t.program.switches[k]? = F[k]?

namespace Agrees

variable {F : List SwitchTable} {s t u : GenState}

theorem front (h : Agrees F s u) (hk : Keeps t u) : Agrees F s t := by
  intro k hs ht
  rw [← hk.tables k ht]
  exact h k hs (Nat.lt_of_lt_of_le ht hk.longer)

theorem back (h : Agrees F s u) (hk : Keeps s t) : Agrees F t u :=
  fun k ht hu => h k (Nat.le_trans hk.longer ht) hu

/-- Moves inside a container, in front of a run and behind it, do not matter. -/
theorem within {s' t' : GenState} (hs : Local s s') (ht : Local t t') (h : Agrees F s t') : Agrees F s' t := by
  unfold Agrees at h ⊢
  rw [hs.program, ← ht.program]
  exact h

/-- The table of a switch is reserved in front of its sections and filled in behind them.  The finished program has
it as it was filled in, and those of the switches in the sections. -/
theorem reserved {table : SwitchTable} (hk : Keeps (after reserveSwitch s) t)
    (h : Agrees F s (after (fillSwitch s.program.switches.length table) t)) :
    F[s.program.switches.length]? = some table ∧ Agrees F (after reserveSwitch s) t := by
  have hlt : s.program.switches.length < t.program.switches.length := by
    have := hk.longer
    rw [after_reserveSwitch, List.length_append] at this
    exact this
  have hset : ∀ k, s.program.switches.length ≤ k → k < t.program.switches.length →
      (t.program.switches.set s.program.switches.length table)[k]? = F[k]? := by
    intro k hle hk
    refine h k hle ?_
    rw [after_fillSwitch, List.length_set]
    exact hk
  refine ⟨?_, fun k hle hk => ?_⟩
  · rw [← hset _ (Nat.le_refl _) hlt, List.getElem?_set_self hlt]
  · rw [after_reserveSwitch, List.length_append] at hle
    rw [← hset k (Nat.le_of_succ_le hle) hk, List.getElem?_set_ne (Nat.ne_of_lt hle)]

end Agrees

/-! ### All tables -/

/-- What one program has, another one has too: no table is shorter. -/
structure Program.Precedes (p q : Program) : Prop where
  constants : p.constants.Grows q.constants
  switches : p.switches.length ≤ q.switches.length
  foreachs : p.foreachs.length ≤ q.foreachs.length
  exceptions : p.exceptions.length ≤ q.exceptions.length
  classLinks : p.classLinks.length ≤ q.classLinks.length
  closures : p.closures.length ≤ q.closures.length

namespace Program.Precedes

variable {p q r : Program}

theorem trans (h : p.Precedes q) (h' : q.Precedes r) : p.Precedes r where
  constants := h.constants.trans h'.constants
  switches := Nat.le_trans h.switches h'.switches
  foreachs := Nat.le_trans h.foreachs h'.foreachs
  exceptions := Nat.le_trans h.exceptions h'.exceptions
  classLinks := Nat.le_trans h.classLinks h'.classLinks
  closures := Nat.le_trans h.closures h'.closures

theorem refl (p : Program) : p.Precedes p := by
  constructor
  · exact .refl
  all_goals exact Nat.le_refl _

theorem files {made : List Made} (h : Files made p q) : p.Precedes q where
  constants := by
    rw [h.constants]
    exact .refl
  switches := by simp [h.switches]
  foreachs := by simp [h.foreachs]
  exceptions := by simp [h.exceptions]
  classLinks := by simp [h.classLinks]
  closures := h.closures.length_le

end Program.Precedes

/-- What an operand names is there in every later program. -/
theorem Operand.Exists.mono {p q : Program} {operand : Operand} (h : operand.Exists p) (hpq : p.Precedes q) :
    operand.Exists q := by
  cases operand with
  | none | name => trivial
  | switch id => exact Nat.lt_of_lt_of_le h hpq.switches
  | foreach id => exact Nat.lt_of_lt_of_le h hpq.foreachs
  | exception id => exact Nat.lt_of_lt_of_le h hpq.exceptions
  | classLink id => exact Nat.lt_of_lt_of_le h hpq.classLinks
  | closure id => exact Nat.lt_of_lt_of_le h hpq.closures

theorem Local.precedes {s t : GenState} {q : Program} (h : Local s t) (hp : t.program.Precedes q) : s.program.Precedes q :=
  h.program ▸ hp

theorem Quiet.precedes {s t : GenState} (h : Quiet s t) : s.program.Precedes t.program := by
  have hp := h.program
  refine ⟨h.constants, Nat.le_of_eq ?_, h.foreachs.length_le, Nat.le_of_eq ?_, h.classLinks.length_le,
    Nat.le_of_eq ?_⟩ <;> rw [hp]

theorem precedes_reserveException (s : GenState) : s.program.Precedes (after reserveException s).program := by
  constructor <;> simp [after_reserveException]
  exact .refl

theorem precedes_reserveSwitch (s : GenState) : s.program.Precedes (after reserveSwitch s).program := by
  constructor <;> simp [after_reserveSwitch]
  exact .refl

theorem precedes_fillSwitch (id : Nat) (table : SwitchTable) (s : GenState) :
    s.program.Precedes (after (fillSwitch id table) s).program := by
  constructor <;> simp [after_fillSwitch]
  exact .refl

theorem runLaw_precedes : RunLaw fun s t => s.program.Precedes t.program where
  trans := Program.Precedes.trans
  inner h := h.program ▸ .refl _
  quiet h := h.precedes
  record := .refl _
  container h := h
  statics h := h
  static _ := .refl _
  file hq := .files hq
  reserveException := precedes_reserveException _
  switch h := (precedes_reserveSwitch _).trans (h.trans (precedes_fillSwitch _ _ _))

theorem Run.precedes {k : Kind} {s t : GenState} (h : Run k s t) : s.program.Precedes t.program :=
  runLaw_precedes.holds h

/-- What every run leaves behind: what was there before. -/
structure Onward (s t : GenState) : Prop where
  reports : s.reports <+: t.reports
  tables : s.program.Precedes t.program
  switches : ∀ k < s.program.switches.length, t.program.switches[k]? = s.program.switches[k]?
  filled : s.filled <+: t.filled

theorem Run.onward {k : Kind} {s t : GenState} (h : Run k s t) : Onward s t :=
  ⟨h.frame.reports, h.precedes, h.keeps.tables, h.keeps.filled⟩

/-- Moves inside a container, in front of a run and behind it, do not matter. -/
theorem Onward.between {s s' t t' : GenState} (hs : Local s s') (h : Onward s' t) (ht : Local t t') : Onward s t' where
  reports := by
    rw [← hs.reports, ht.reports]
    exact h.reports
  tables := by
    rw [← hs.program, ht.program]
    exact h.tables
  switches := by
    rw [← hs.program, ht.program]
    exact h.switches
  filled := by
    rw [← hs.filled, ht.filled]
    exact h.filled

end StackScript
