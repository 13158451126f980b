/-
Relations that every run keeps.

Much of what is known of runs has one form: a preorder between the states before and behind them, which most
moves cannot break because they touch nothing but the instructions and the blocks of their own container.
These moves are `Local`.  A `RunLaw` says of a relation what the other moves need, and then every run has it.
-/
import StackScript.Proofs.Run

namespace StackScript

open Gen

/-! ### Moves inside a container -/

/-- Two states that differ in nothing but the instructions and the blocks of the container. -/
structure Local (s t : GenState) : Prop where
  program : t.program = s.program
  statics : t.statics = s.statics
  reports : t.reports = s.reports
  jumps : t.jumps = s.jumps
  filled : t.filled = s.filled
  boundaries : t.boundaries = s.boundaries

namespace Local

variable {s t : GenState} {op : Opcode} {p1 : Int} {p2 : Nat} {p3 : Operand} {id : Nat}

theorem refl : Local s s := ⟨rfl, rfl, rfl, rfl, rfl, rfl⟩

theorem errors (h : Local s t) : t.errors = s.errors := congrArg (List.countP Report.isError) h.reports

/-- The instructions and the blocks are others. -/
theorem change (h : Local s t) (buffer : CodeBuffer) (blocks : BlockStack) (left : List Block) :
    Local s { t with buffer := buffer, blocks := blocks, left := left } :=
  ⟨h.program, h.statics, h.reports, h.jumps, h.filled, h.boundaries⟩

theorem put (h : Local s t) : Local s (after (Gen.put op p1 p2 p3) t) := h.change _ t.blocks t.left

theorem emit (h : Local s t) : Local s (after (Gen.emit op p1 p2 p3) t) := h.change _ t.blocks t.left

theorem takeBack (h : Local s t) : Local s (after Gen.takeBack t) := h.change _ t.blocks t.left

theorem markCallee (h : Local s t) : Local s (after Gen.markCallee t) := h.change _ t.blocks t.left

theorem landHere {i : Nat} (h : Local s t) : Local s (after (Gen.landHere i) t) := h.change _ t.blocks t.left

theorem await (h : Local s t) : Local s (after (Gen.await id op p3) t) := h.change _ _ t.left

theorem awaitContinue (h : Local s t) : Local s (after (Gen.awaitContinue id) t) := h.change _ _ t.left

theorem settle {op : Option Opcode} (h : Local s t) : Local s (after (Gen.settle id op) t) := h.change _ _ t.left

theorem settleContinue (h : Local s t) : Local s (after (Gen.settleContinue id) t) := h.change _ _ t.left

theorem restartHere (h : Local s t) : Local s (after (Gen.restartHere id) t) := h.change t.buffer _ t.left

theorem enter {tags : List BlockTag} {first : Nat} {owner : BlockOwner} {deferred : Option (List Nat)} (h : Local s t) :
    Local s (after (Gen.enter tags first owner deferred) t) := h.change t.buffer _ t.left

theorem leave (h : Local s t) : Local s (after Gen.leave t) := h.change t.buffer _ _

theorem exitBlock (h : Local s t) : Local s (t.exitBlock id) := .leave (.settleContinue (.settle h))

/-- A `break` or `continue` waits, or goes back. -/
theorem jumpOn {jump : LoopJump} {b : Block} (h : Local s t) : Local s (after (Gen.jumpOn jump id b) t) := by
  unfold Gen.jumpOn
  split
  · exact .await h
  · split
    · exact .awaitContinue h
    · exact .put h

end Local

/-! ### Laws of runs -/

/-- A relation that no move of a run can break. -/
structure RunLaw (R : GenState → GenState → Prop) : Prop where
  trans {s t u : GenState} : R s t → R t u → R s u
  inner {s t : GenState} : Local s t → R s t
  quiet {s t : GenState} : Quiet s t → R s t
  record {s : GenState} {id : Nat} : R s (after (recordJump id) s)
  container {s t : GenState} : R (after openContainer s) t → R s (after (closeContainer s.container) t)
  statics {s t : GenState} : R { s with statics := [] :: s.statics } t → R s { t with statics := t.statics.tail }
  static {t : GenState} {v : StaticVar} {frame : List StaticVar} {frames : List (List StaticVar)} :
    t.statics = frame :: frames → R t { t with statics := (frame ++ [v]) :: frames }
  file {made : List Made} {t : GenState} {q : Program} : Files made t.program q → R t { t with program := q }
  reserveException {s : GenState} : R s (after reserveException s)
  /-- The table that is filled in behind the sections of a switch was reserved in front of them. -/
  switch {s t : GenState} {table : SwitchTable} : R (after reserveSwitch s) t →
    R s (after (fillSwitch s.program.switches.length table) t)

namespace RunLaw

variable {R : GenState → GenState → Prop} {s s' t t' : GenState}

theorem between (law : RunLaw R) (hs : Local s s') (h : R s' t) (ht : Local t t') : R s t' :=
  law.trans (law.inner hs) (law.trans h (law.inner ht))

theorem holds (law : RunLaw R) {k : Kind} (h : Run k s t) : R s t := by
  induction h with
  | refl => exact law.inner .refl
  | quiet h => exact law.quiet h
  | trans _ _ ih ih' | seq _ _ ih ih' | join _ _ ih ih' | case_ _ _ _ ih ih' | default_ _ _ _ ih ih' => exact law.trans ih ih'
  | value _ ih | aside _ _ ih => exact ih
  -- Code that computes values.
  | put => exact law.inner (.put .refl)
  | rewrite _ _ _ _ _ _ _ _ _ ih => exact law.between .refl ih (.put (.takeBack .refl))
  | mark _ _ ih => exact law.between .refl ih (.markCallee .refl)
  | skip _ _ ih => exact law.between (.emit .refl) ih (.landHere .refl)
  | choose _ _ ih ih' =>
      have second := law.between (.landHere (.emit .refl)) ih' .refl
      exact law.between (.emit .refl) (law.trans ih second) (.landHere .refl)
  | @discard _ _ t _ ih => exact law.between .refl ih (Local.refl.change _ t.blocks t.left)
  | lost _ line _ ih => exact law.trans ih (law.quiet (.report line _))
  -- Code that is made on the side.
  | thunk _ _ ih => exact law.container (law.between .refl ih (.put .refl))
  | body _ _ _ ih => exact law.container (law.between .refl ih (.put (.settle .refl)))
  | statics _ ih => exact law.statics ih
  | static _ _ hs ih => exact law.trans ih (law.static hs)
  | owned _ _ _ _ ih => exact law.between (.enter .refl) ih (.leave .refl)
  | file _ hq ih => exact law.trans ih (law.file hq)
  -- Jumps.
  | wait | throw => exact law.inner (.await .refl)
  | leap => exact law.trans law.record (law.inner (.jumpOn .refl))
  | settle => exact law.inner (.settle .refl)
  | settleContinue => exact law.inner (.settleContinue .refl)
  -- Constructs.
  | block _ _ ih => exact law.between (.enter .refl) ih (.exitBlock .refl)
  | loop _ _ _ ih => exact law.between (.enter .refl) ih (.exitBlock (.put .refl))
  | each _ _ _ ih ih' =>
      have rounds := law.between (.await (.restartHere (.await .refl))) ih' .refl
      exact law.between (.enter .refl) (law.trans ih rounds) (.exitBlock (.put .refl))
  | braces _ ih => exact law.between (.enter .refl) ih (.leave .refl)
  | try_ _ ih =>
      have body := law.trans law.reserveException (law.between (.await .refl) ih .refl)
      exact law.between (.enter .refl) body (.leave (.put (.settle .refl)))
  | switch _ _ ih ih' =>
      refine law.between (.enter .refl) (law.trans ih (law.switch ?_)) (.exitBlock .refl)
      exact law.between (.put .refl) ih' .refl

end RunLaw

/-- The places where statements start and end stay marked. -/
theorem runLaw_boundaries : RunLaw fun s t => s.boundaries <+: t.boundaries where
  trans := List.IsPrefix.trans
  inner h := h.boundaries ▸ List.prefix_rfl
  quiet h := h.boundaries
  record := List.prefix_rfl
  container _ := List.prefix_rfl
  statics h := h
  static _ := List.prefix_rfl
  file _ := List.prefix_rfl
  reserveException := List.prefix_rfl
  switch h := h

theorem Run.boundaries {k : Kind} {s t : GenState} (h : Run k s t) : s.boundaries <+: t.boundaries :=
  runLaw_boundaries.holds h

end StackScript
