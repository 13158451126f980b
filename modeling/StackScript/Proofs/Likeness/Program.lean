/-
Programs that are alike.

Two programs are alike when they differ in nothing but the slots of their constants: instruction for
instruction and table for table they agree, except that where a constant is loaded the two slots only have
to correspond.  `σ` says which slots do.  With equality for `σ` alike programs are equal.
-/
import Mathlib.Data.List.Forall2
import StackScript.Program

namespace StackScript

variable {σ τ : Nat → Nat → Prop}

/-! ### Code -/

variable (σ) in
/-- Instructions that agree up to the slot of a constant. -/
structure Instruction.Alike (x y : Instruction) : Prop where
  op : x.op = y.op
  p1 : x.p1 = y.p1
  slot : x.op = .loadc → σ x.p2 y.p2
  target : x.op ≠ .loadc → x.p2 = y.p2
  p3 : x.p3 = y.p3
  line : x.line = y.line

variable (σ) in
/-- Code that agrees instruction by instruction. -/
structure Code.Alike (a b : Code) : Prop where
  size : a.size = b.size
  instruction : ∀ (i : Nat) (x y : Instruction), a[i]? = some x → b[i]? = some y → x.Alike σ y

namespace Instruction.Alike

variable {x y : Instruction}

theorem mono (hσ : ∀ i j, σ i j → τ i j) (h : x.Alike σ y) : x.Alike τ y :=
  { h with slot := fun hop => hσ _ _ (h.slot hop) }

theorem eq (h : x.Alike Eq y) : x = y := by
  have p2 : x.p2 = y.p2 := by
    by_cases hop : x.op = .loadc
    · exact h.slot hop
    · exact h.target hop
  obtain ⟨op, p1, -, -, p3, line⟩ := h
  cases x
  cases y
  simp only at op p1 p2 p3 line
  rw [op, p1, p2, p3, line]

/-- Filling in a target. -/
theorem patch (h : x.Alike σ y) (hop : x.op ≠ .loadc) (target : Nat) :
    Instruction.Alike σ { x with p2 := target } { y with p2 := target } :=
  { h with slot := fun hload => absurd hload hop, target := fun _ => rfl }

end Instruction.Alike

namespace Code.Alike

variable {a b : Code}

theorem mono (hσ : ∀ i j, σ i j → τ i j) (h : Code.Alike σ a b) : Code.Alike τ a b :=
  ⟨h.size, fun i x y hx hy => (h.instruction i x y hx hy).mono hσ⟩

theorem empty : Code.Alike σ #[] #[] := ⟨rfl, fun i x y hx => by simp at hx⟩

theorem eq (h : Code.Alike Eq a b) : a = b := by
  apply Array.ext h.size
  intro i hi hj
  exact (h.instruction i _ _ (Array.getElem?_eq_getElem hi) (Array.getElem?_eq_getElem hj)).eq

/-- Where there is an instruction in the one, there is one in the other. -/
theorem right (h : Code.Alike σ a b) {i : Nat} {x : Instruction} (hx : a[i]? = some x) :
    ∃ y, b[i]? = some y ∧ x.Alike σ y := by
  have hi : i < b.size := by
    rw [← h.size]
    exact (Array.getElem?_eq_some_iff.mp hx).1
  exact ⟨b[i], Array.getElem?_eq_getElem hi, h.instruction i x _ hx (Array.getElem?_eq_getElem hi)⟩

theorem none_iff (h : Code.Alike σ a b) (i : Nat) : a[i]? = none ↔ b[i]? = none := by
  rw [Array.getElem?_eq_none_iff, Array.getElem?_eq_none_iff, h.size]

theorem push (h : Code.Alike σ a b) {x y : Instruction} (hxy : x.Alike σ y) :
    Code.Alike σ (a.push x) (b.push y) := by
  refine ⟨by simp [h.size], fun i v w hv hw => ?_⟩
  rw [Array.getElem?_push] at hv hw
  rw [h.size] at hv
  split at hv
  · rename_i hi
    rw [if_pos hi] at hw
    cases hv
    cases hw
    exact hxy
  · rename_i hi
    rw [if_neg hi] at hw
    exact h.instruction i v w hv hw

theorem pop (h : Code.Alike σ a b) : Code.Alike σ a.pop b.pop := by
  refine ⟨by simp [h.size], fun i v w hv hw => ?_⟩
  rw [Array.getElem?_pop] at hv hw
  split at hv
  · split at hw
    · exact h.instruction i v w hv hw
    · cases hw
  · cases hv

theorem take (h : Code.Alike σ a b) (n : Nat) : Code.Alike σ (a.take n) (b.take n) := by
  simp only [Array.take_eq_extract]
  refine ⟨by simp [h.size], fun i v w hv hw => ?_⟩
  rw [Array.getElem?_extract, Nat.zero_add] at hv hw
  split at hv
  · split at hw
    · exact h.instruction i v w hv hw
    · cases hw
  · cases hv

/-- The same change to the instructions at an index. -/
theorem modify (h : Code.Alike σ a b) (n : Nat) {f : Instruction → Instruction}
    (hf : ∀ x y, a[n]? = some x → x.Alike σ y → (f x).Alike σ (f y)) :
    Code.Alike σ (a.modify n f) (b.modify n f) := by
  refine ⟨by simp [h.size], fun i v w hv hw => ?_⟩
  rw [Array.getElem?_modify] at hv hw
  split at hv
  · rename_i hi
    subst hi
    rw [if_pos rfl] at hw
    obtain ⟨x, hx, rfl⟩ := Option.map_eq_some_iff.mp hv
    obtain ⟨y, hy, rfl⟩ := Option.map_eq_some_iff.mp hw
    exact hf x y hx (h.instruction n x y hx hy)
  · rename_i hi
    rw [if_neg hi] at hw
    exact h.instruction i v w hv hw

/-- Filling in a target where no constant is loaded. -/
theorem patch (h : Code.Alike σ a b) {i : Nat} (hi : ∀ x, a[i]? = some x → x.op ≠ .loadc) (target : Nat) :
    Code.Alike σ (a.patch i target) (b.patch i target) :=
  h.modify i fun x _ hx hxy => hxy.patch (hi x hx) target

/-- Filling in several targets. -/
theorem patchAll {α : Type} (index : α → Nat) (target : Nat) (js : List α) (h : Code.Alike σ a b)
    (hjs : ∀ j ∈ js, ∀ x, a[index j]? = some x → x.op ≠ .loadc) :
    Code.Alike σ (js.foldl (fun code j => code.patch (index j) target) a)
      (js.foldl (fun code j => code.patch (index j) target) b) := by
  induction js generalizing a b with
  | nil => exact h
  | cons j js ih =>
      rw [List.forall_mem_cons] at hjs
      refine ih (h.patch hjs.1 target) fun k hk x hx => ?_
      -- Filling in a target keeps the operation.
      rw [Code.getElem?_patch] at hx
      split at hx
      · obtain ⟨y, hy, rfl⟩ := Option.map_eq_some_iff.mp hx
        exact hjs.2 k hk y hy
      · exact hjs.2 k hk x hx

/-- The last instructions. -/
theorem back? (h : Code.Alike σ a b) :
    (a.back? = none ∧ b.back? = none) ∨ ∃ x y, a.back? = some x ∧ b.back? = some y ∧ x.Alike σ y := by
  rw [Array.back?_eq_getElem?, Array.back?_eq_getElem?, ← h.size]
  cases hx : a[a.size - 1]? with
  | none => exact .inl ⟨rfl, (h.none_iff _).mp hx⟩
  | some x =>
      obtain ⟨y, hy, hxy⟩ := h.right hx
      exact .inr ⟨x, y, rfl, hy, hxy⟩

/-- The instructions before the last ones have one operation. -/
theorem beforeLast? (h : Code.Alike σ a b) (op : Opcode) :
    a.beforeLast?.any (·.op == op) = b.beforeLast?.any (·.op == op) := by
  unfold Code.beforeLast?
  rw [← h.size]
  split
  · cases hx : a[a.size - 2]? with
    | none => rw [(h.none_iff _).mp hx]
    | some x =>
        obtain ⟨y, hy, hxy⟩ := h.right hx
        simp [hy, hxy.op]
  · rfl

end Code.Alike

/-! ### Lists of entries -/

section Lists

variable {α : Type} {R S : α → α → Prop} {xs ys : List α}

theorem forall₂_append {us vs : List α} (h : List.Forall₂ R xs ys) (h' : List.Forall₂ R us vs) :
    List.Forall₂ R (xs ++ us) (ys ++ vs) := List.rel_append h h'

theorem forall₂_snoc {x y : α} (h : List.Forall₂ R xs ys) (hxy : R x y) :
    List.Forall₂ R (xs ++ [x]) (ys ++ [y]) := forall₂_append h (.cons hxy .nil)

theorem forall₂_set {x y : α} (h : List.Forall₂ R xs ys) (hxy : R x y) (i : Nat) :
    List.Forall₂ R (xs.set i x) (ys.set i y) := by
  induction h generalizing i with
  | nil => exact .nil
  | cons hab h ih =>
      cases i with
      | zero => exact .cons hxy h
      | succ i => exact .cons hab (ih i)

theorem forall₂_modify {f g : α → α} (h : List.Forall₂ R xs ys) (hfg : ∀ x y, R x y → R (f x) (g y)) (i : Nat) :
    List.Forall₂ R (xs.modify i f) (ys.modify i g) := by
  induction h generalizing i with
  | nil =>
      rw [List.modify_nil, List.modify_nil]
      exact .nil
  | cons hab h ih =>
      cases i with
      | zero => exact .cons (hfg _ _ hab) h
      | succ i => exact .cons hab (ih i)

theorem forall₂_map {f g : α → α} (h : List.Forall₂ R xs ys) (hfg : ∀ x y, R x y → R (f x) (g y)) :
    List.Forall₂ R (xs.map f) (ys.map g) := by
  induction h with
  | nil => exact .nil
  | cons hab _ ih => exact .cons (hfg _ _ hab) ih

/-- What holds of the one of two related entries holds of the other. -/
theorem forall₂_any {f g : α → Bool} (h : List.Forall₂ R xs ys) (hfg : ∀ x y, R x y → f x = g y) :
    xs.any f = ys.any g := by
  induction h with
  | nil => rfl
  | cons hab _ ih => rw [List.any_cons, List.any_cons, hfg _ _ hab, ih]

theorem eq_of_forall₂ (h : List.Forall₂ R xs ys) (heq : ∀ x y, R x y → x = y) : xs = ys :=
  List.forall₂_eq_eq_eq ▸ h.imp heq

theorem eq_of_rel {x y : Option α} (h : Option.Rel R x y) (heq : ∀ a b, R a b → a = b) : x = y := by
  cases h with
  | none => rfl
  | some h => rw [heq _ _ h]

theorem rel_imp {x y : Option α} (hRS : ∀ a b, R a b → S a b) (h : Option.Rel R x y) :
    Option.Rel S x y := by
  cases h with
  | none => exact .none
  | some h => exact .some (hRS _ _ h)

end Lists

/-! ### Functions and classes -/

variable (σ) in
structure Argument.Alike (a b : Argument) : Prop where
  shell : { a with default? := none } = { b with default? := none }
  default? : Option.Rel (Code.Alike σ) a.default? b.default?

variable (σ) in
structure StaticVar.Alike (v w : StaticVar) : Prop where
  shell : { v with init := #[] } = { w with init := #[] }
  init : Code.Alike σ v.init w.init

variable (σ) in
/-- Functions that agree in everything but the slots in their code. -/
structure FunctionDef.Alike (f g : FunctionDef) : Prop where
  shell : { f with args := [], code := #[], statics := [] } = { g with args := [], code := #[], statics := [] }
  args : List.Forall₂ (Argument.Alike σ) f.args g.args
  code : Code.Alike σ f.code g.code
  statics : List.Forall₂ (StaticVar.Alike σ) f.statics g.statics

variable (σ) in
structure Attribute.Alike (a b : Attribute) : Prop where
  shell : { a with init := none } = { b with init := none }
  init : Option.Rel (Code.Alike σ) a.init b.init

variable (σ) in
structure Method.Alike (m n : Method) : Prop where
  visibility : m.visibility = n.visibility
  flags : m.flags = n.flags
  function : m.function.Alike σ n.function

variable (σ) in
structure ClassDef.Alike (c d : ClassDef) : Prop where
  shell : { c with attributes := [], methods := [] } = { d with attributes := [], methods := [] }
  attributes : List.Forall₂ (Attribute.Alike σ) c.attributes d.attributes
  methods : List.Forall₂ (Method.Alike σ) c.methods d.methods

theorem Argument.Alike.mono (hσ : ∀ i j, σ i j → τ i j) {a b : Argument} (h : a.Alike σ b) : a.Alike τ b :=
  ⟨h.shell, rel_imp (fun _ _ h => h.mono hσ) h.default?⟩

theorem StaticVar.Alike.mono (hσ : ∀ i j, σ i j → τ i j) {v w : StaticVar} (h : v.Alike σ w) : v.Alike τ w :=
  ⟨h.shell, h.init.mono hσ⟩

theorem FunctionDef.Alike.mono (hσ : ∀ i j, σ i j → τ i j) {f g : FunctionDef} (h : f.Alike σ g) :
    f.Alike τ g :=
  ⟨h.shell, h.args.imp fun _ _ h => h.mono hσ, h.code.mono hσ, h.statics.imp fun _ _ h => h.mono hσ⟩

theorem Attribute.Alike.mono (hσ : ∀ i j, σ i j → τ i j) {a b : Attribute} (h : a.Alike σ b) : a.Alike τ b :=
  ⟨h.shell, rel_imp (fun _ _ h => h.mono hσ) h.init⟩

theorem Method.Alike.mono (hσ : ∀ i j, σ i j → τ i j) {m n : Method} (h : m.Alike σ n) : m.Alike τ n :=
  { h with function := h.function.mono hσ }

theorem ClassDef.Alike.mono (hσ : ∀ i j, σ i j → τ i j) {c d : ClassDef} (h : c.Alike σ d) : c.Alike τ d :=
  ⟨h.shell, h.attributes.imp fun _ _ h => h.mono hσ, h.methods.imp fun _ _ h => h.mono hσ⟩

theorem Argument.Alike.eq {a b : Argument} (h : a.Alike Eq b) : a = b := by
  have shell := h.shell
  have value := eq_of_rel h.default? fun _ _ h => h.eq
  cases a
  cases b
  simp_all

theorem StaticVar.Alike.eq {v w : StaticVar} (h : v.Alike Eq w) : v = w := by
  have shell := h.shell
  have value := h.init.eq
  cases v
  cases w
  simp_all

theorem FunctionDef.Alike.eq {f g : FunctionDef} (h : f.Alike Eq g) : f = g := by
  have shell := h.shell
  have args := eq_of_forall₂ h.args fun _ _ h => h.eq
  have code := h.code.eq
  have statics := eq_of_forall₂ h.statics fun _ _ h => h.eq
  cases f
  cases g
  simp_all

theorem Attribute.Alike.eq {a b : Attribute} (h : a.Alike Eq b) : a = b := by
  have shell := h.shell
  have value := eq_of_rel h.init fun _ _ h => h.eq
  cases a
  cases b
  simp_all

theorem Method.Alike.eq {m n : Method} (h : m.Alike Eq n) : m = n := by
  obtain ⟨visibility, flags, function⟩ := h
  have function := function.eq
  cases m
  cases n
  simp_all

theorem ClassDef.Alike.eq {c d : ClassDef} (h : c.Alike Eq d) : c = d := by
  have shell := h.shell
  have attributes := eq_of_forall₂ h.attributes fun _ _ h => h.eq
  have methods := eq_of_forall₂ h.methods fun _ _ h => h.eq
  cases c
  cases d
  simp_all

theorem Argument.Alike.type {a b : Argument} (h : a.Alike σ b) : a.type = b.type := by
  simpa using congrArg Argument.type h.shell

namespace FunctionDef.Alike

variable {f g : FunctionDef}

theorem name (h : f.Alike σ g) : f.name = g.name := by simpa using congrArg FunctionDef.name h.shell

theorem returns (h : f.Alike σ g) : f.returns = g.returns := by simpa using congrArg FunctionDef.returns h.shell

theorem flags (h : f.Alike σ g) : f.flags = g.flags := by simpa using congrArg FunctionDef.flags h.shell

theorem line (h : f.Alike σ g) : f.line = g.line := by simpa using congrArg FunctionDef.line h.shell

theorem signature (h : f.Alike σ g) : f.signature = g.signature := by simpa using congrArg FunctionDef.signature h.shell

end FunctionDef.Alike

theorem ClassDef.Alike.name {c d : ClassDef} (h : c.Alike σ d) : c.name = d.name := by
  simpa using congrArg ClassDef.name h.shell

/-! ### Tables -/

variable (σ) in
structure CaseEntry.Alike (a b : CaseEntry) : Prop where
  guard : Code.Alike σ a.guard b.guard
  start : a.start = b.start

variable (σ) in
structure SwitchTable.Alike (a b : SwitchTable) : Prop where
  cases : List.Forall₂ (CaseEntry.Alike σ) a.cases b.cases
  default? : a.default? = b.default?
  out : a.out = b.out

variable (σ) in
structure CatchEntry.Alike (a b : CatchEntry) : Prop where
  className : a.className = b.className
  binding : a.binding = b.binding
  code : Code.Alike σ a.code b.code

variable (σ) in
structure NamedConstant.Alike (a b : NamedConstant) : Prop where
  name : a.name = b.name
  code : Code.Alike σ a.code b.code

variable (σ) in
/-- Programs that agree in every container and every table, up to the slots of constants.  The constants
themselves are not compared. -/
structure Program.Alike (p q : Program) : Prop where
  main : Code.Alike σ p.main q.main
  functions : List.Forall₂ (FunctionDef.Alike σ) p.functions q.functions
  classes : List.Forall₂ (ClassDef.Alike σ) p.classes q.classes
  namedConstants : List.Forall₂ (NamedConstant.Alike σ) p.namedConstants q.namedConstants
  switches : List.Forall₂ (SwitchTable.Alike σ) p.switches q.switches
  foreachs : p.foreachs = q.foreachs
  exceptions : List.Forall₂ (List.Forall₂ (CatchEntry.Alike σ)) p.exceptions q.exceptions
  classLinks : p.classLinks = q.classLinks
  closures : List.Forall₂ (FunctionDef.Alike σ) p.closures q.closures

theorem CaseEntry.Alike.mono (hσ : ∀ i j, σ i j → τ i j) {a b : CaseEntry} (h : a.Alike σ b) : a.Alike τ b :=
  ⟨h.guard.mono hσ, h.start⟩

theorem SwitchTable.Alike.mono (hσ : ∀ i j, σ i j → τ i j) {a b : SwitchTable} (h : a.Alike σ b) :
    a.Alike τ b := ⟨h.cases.imp fun _ _ h => h.mono hσ, h.default?, h.out⟩

theorem CatchEntry.Alike.mono (hσ : ∀ i j, σ i j → τ i j) {a b : CatchEntry} (h : a.Alike σ b) : a.Alike τ b :=
  { h with code := h.code.mono hσ }

theorem NamedConstant.Alike.mono (hσ : ∀ i j, σ i j → τ i j) {a b : NamedConstant} (h : a.Alike σ b) :
    a.Alike τ b := { h with code := h.code.mono hσ }

theorem Program.Alike.mono (hσ : ∀ i j, σ i j → τ i j) {p q : Program} (h : p.Alike σ q) : p.Alike τ q where
  main := h.main.mono hσ
  functions := h.functions.imp fun _ _ h => h.mono hσ
  classes := h.classes.imp fun _ _ h => h.mono hσ
  namedConstants := h.namedConstants.imp fun _ _ h => h.mono hσ
  switches := h.switches.imp fun _ _ h => h.mono hσ
  foreachs := h.foreachs
  exceptions := h.exceptions.imp fun _ _ h => h.imp fun _ _ h => h.mono hσ
  classLinks := h.classLinks
  closures := h.closures.imp fun _ _ h => h.mono hσ

theorem CaseEntry.Alike.eq {a b : CaseEntry} (h : a.Alike Eq b) : a = b := by
  obtain ⟨guard, start⟩ := h
  have guard := guard.eq
  cases a
  cases b
  simp_all

theorem SwitchTable.Alike.eq {a b : SwitchTable} (h : a.Alike Eq b) : a = b := by
  obtain ⟨cases', default?, out⟩ := h
  have guards := eq_of_forall₂ cases' fun _ _ h => h.eq
  cases a
  cases b
  simp_all

theorem CatchEntry.Alike.eq {a b : CatchEntry} (h : a.Alike Eq b) : a = b := by
  obtain ⟨className, binding, code⟩ := h
  have code := code.eq
  cases a
  cases b
  simp_all

theorem NamedConstant.Alike.eq {a b : NamedConstant} (h : a.Alike Eq b) : a = b := by
  obtain ⟨name, code⟩ := h
  have code := code.eq
  cases a
  cases b
  simp_all

/-- Alike programs with the same slots and the same constants are equal. -/
theorem Program.Alike.eq {p q : Program} (h : p.Alike Eq q) (hc : p.constants = q.constants) : p = q := by
  have main := h.main.eq
  have functions := eq_of_forall₂ h.functions fun _ _ h => h.eq
  have classes := eq_of_forall₂ h.classes fun _ _ h => h.eq
  have namedConstants := eq_of_forall₂ h.namedConstants fun _ _ h => h.eq
  have switches := eq_of_forall₂ h.switches fun _ _ h => h.eq
  have foreachs := h.foreachs
  have exceptions := eq_of_forall₂ h.exceptions fun _ _ h => eq_of_forall₂ h fun _ _ h => h.eq
  have classLinks := h.classLinks
  have closures := eq_of_forall₂ h.closures fun _ _ h => h.eq
  cases p
  cases q
  simp_all

/-! ### Changes to the tables -/

namespace Program.Alike

variable {p q : Program}

/-- A function by its name. -/
theorem isSome_function? (h : p.Alike σ q) (name : String) :
    (p.function? name).isSome = (q.function? name).isSome := by
  unfold Program.function?
  rw [List.isSome_find?, List.isSome_find?]
  exact forall₂_any h.functions fun f g hfg => by rw [hfg.name]

theorem isSome_class? (h : p.Alike σ q) (name : String) :
    (p.class? name).isSome = (q.class? name).isSome := by
  unfold Program.class?
  rw [List.isSome_find?, List.isSome_find?]
  exact forall₂_any h.classes fun c d hcd => by rw [hcd.name]

/-- A function is installed in both programs or in none. -/
theorem installFunction? (h : p.Alike σ q) {f g : FunctionDef} (hfg : f.Alike σ g) :
    (p.installFunction? f = none ∧ q.installFunction? g = none) ∨
      p.installFunction? f = some { p with functions := p.functions ++ [f] } ∧
        q.installFunction? g = some { q with functions := q.functions ++ [g] } ∧
        Program.Alike σ { p with functions := p.functions ++ [f] }
          { q with functions := q.functions ++ [g] } := by
  have clash : p.functions.any (clash f) = q.functions.any (clash g) :=
    forall₂_any h.functions fun f' g' hfg' => by
      unfold Program.clash
      rw [hfg.name, hfg.signature, hfg'.name, hfg'.signature]
  unfold Program.installFunction?
  rw [clash]
  split
  · exact .inl ⟨rfl, rfl⟩
  · exact .inr ⟨rfl, rfl, { h with functions := forall₂_snoc h.functions hfg }⟩

/-- A class is installed in both programs or in none. -/
theorem installClass? (h : p.Alike σ q) {c d : ClassDef} (hcd : c.Alike σ d) :
    (p.installClass? c = none ∧ q.installClass? d = none) ∨
      p.installClass? c = some { p with classes := p.classes ++ [c] } ∧
        q.installClass? d = some { q with classes := q.classes ++ [d] } ∧
        Program.Alike σ { p with classes := p.classes ++ [c] } { q with classes := q.classes ++ [d] } := by
  unfold Program.installClass?
  rw [hcd.name, h.isSome_class?]
  split
  · exact .inl ⟨rfl, rfl⟩
  · exact .inr ⟨rfl, rfl, { h with classes := forall₂_snoc h.classes hcd }⟩

theorem defineConstant (h : p.Alike σ q) (name : String) {a b : Code} (hab : Code.Alike σ a b) :
    Program.Alike σ { p with namedConstants := Program.defineConstant p.namedConstants name a }
      { q with namedConstants := Program.defineConstant q.namedConstants name b } := by
  refine { h with namedConstants := ?_ }
  have known : p.namedConstants.any (·.name == name) = q.namedConstants.any (·.name == name) :=
    forall₂_any h.namedConstants fun c d hcd => by rw [hcd.name]
  unfold Program.defineConstant
  rw [known]
  split
  · refine forall₂_map h.namedConstants fun c d hcd => ?_
    rw [hcd.name]
    split
    · exact ⟨rfl, hab⟩
    · exact hcd
  · exact forall₂_snoc h.namedConstants ⟨rfl, hab⟩

end Program.Alike

end StackScript
