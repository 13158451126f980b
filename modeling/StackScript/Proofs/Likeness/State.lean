/-
Two runs of code generation side by side.

A compilation is compared with another one of the same script under other settings, or with other problems
reported before.  `Kinship` says what may differ: the problems reported before, and the slots of constants.
Two states `Match` when nothing else does, and `Twins` are steps that keep it so.

The targets of jumps are the one thing that could confuse the comparison, because filling in a target where
a constant is loaded would replace its slot.  Therefore `Match` follows the blocks as well: from `base` on
they belong to the container being filled, and what waits on them is no load.
-/
import StackScript.Proofs.Constants
import StackScript.Proofs.Kept
import StackScript.Proofs.Likeness.Program

namespace StackScript

open Gen

namespace ConstantPool

/-- The ways constants are added to a pool. -/
inductive Adds : (ConstantPool → Nat × ConstantPool) → Prop
  | int (v : Int64) : Adds (·.addInt v)
  | real (text : List Char) : Adds (·.addReal (readReal text))
  | string (text : String) : Adds (·.addString text)
  | own (text : String) : Adds (·.addOwnString text)

theorem Adds.grows {add : ConstantPool → Nat × ConstantPool} (h : Adds add) (p : ConstantPool) :
    p.Grows (add p).2 := by
  cases h with
  | int v => exact Grows.refl.int v
  | real text => exact Grows.refl.real text
  | string text => exact Grows.refl.string text
  | own text => exact Grows.refl.own text

end ConstantPool

/-- The constants so far. -/
abbrev GenState.pool (s : GenState) : ConstantPool := s.program.constants

/-- What two compilations may differ in: the problems reported before, and the slots of constants, of which
`slots` says how they correspond. -/
structure Kinship where
  before : List Report
  before' : List Report
  pools : ConstantPool → ConstantPool → Prop
  slots : ConstantPool → ConstantPool → Nat → Nat → Prop
  grow : ∀ {p p' q q' : ConstantPool} {i j : Nat}, p.Grows p' → q.Grows q' → slots p q i j → slots p' q' i j
  reserved : ∀ {p q : ConstantPool} {slot : Nat}, pools p q → slot ≤ ConstantPool.falseSlot →
    slots p q slot slot
  add : ∀ {p q : ConstantPool} {add : ConstantPool → Nat × ConstantPool}, ConstantPool.Adds add → pools p q →
    pools (add p).2 (add q).2 ∧ slots (add p).2 (add q).2 (add p).1 (add q).1

/-- Slots that correspond in two states. -/
abbrev Kinship.same (K : Kinship) (s t : GenState) : Nat → Nat → Prop := K.slots s.pool t.pool

/-- Two states of code generation that differ in no more than they may. -/
structure Kinship.Match (K : Kinship) (base : Nat) (s t : GenState) : Prop where
  fileLabel : s.config.fileLabel = t.config.fileLabel
  dirLabel : s.config.dirLabel = t.config.dirLabel
  reports : ∃ rs, s.reports = K.before ++ rs ∧ t.reports = K.before' ++ rs
  line : s.buffer.line = t.buffer.line
  code : Code.Alike (K.same s t) s.code t.code
  blocks : s.blocks = t.blocks
  stack : 0 < s.blocks.blocks.size
  within : base ≤ s.blocks.blocks.size
  waiting : ∀ id b, base ≤ id → s.blocks.get? id = some b → ∀ i, b.Pends i →
    ∃ x, s.code[i]? = some x ∧ x.op ≠ .loadc
  pools : K.pools s.pool t.pool
  program : Program.Alike (K.same s t) s.program t.program
  statics : List.Forall₂ (List.Forall₂ (StaticVar.Alike (K.same s t))) s.statics t.statics
  closures : s.closures = t.closures
  namespaceNoted : s.namespaceNoted = t.namespaceNoted

/-- What a step leaves as it was: the shapes of the blocks, those of other containers altogether, and
where no constant was loaded none is loaded now. -/
structure Forward (base : Nat) (s t : GenState) : Prop where
  shapes : t.blocks.shapes = s.blocks.shapes
  outer : ∀ id < base, t.blocks.get? id = s.blocks.get? id
  solid : ∀ (i : Nat) (x : Instruction), s.code[i]? = some x → x.op ≠ .loadc →
    ∃ y, t.code[i]? = some y ∧ y.op ≠ .loadc
  constants : s.pool.Grows t.pool

namespace Forward

variable {base : Nat} {s t u : GenState}

theorem trans (h : Forward base s t) (h' : Forward base t u) : Forward base s u where
  shapes := h'.shapes.trans h.shapes
  outer := fun id hid => (h'.outer id hid).trans (h.outer id hid)
  solid := by
    intro i x hx hop
    obtain ⟨y, hy, hyop⟩ := h.solid i x hx hop
    exact h'.solid i y hy hyop
  constants := h.constants.trans h'.constants

theorem same (hb : t.blocks = s.blocks) (hc : t.code = s.code) (hp : s.pool.Grows t.pool) :
    Forward base s t where
  shapes := by rw [hb]
  outer := fun id _ => by rw [hb]
  solid := fun i x hx hop => ⟨x, by rw [hc]; exact hx, hop⟩
  constants := hp

theorem push {x : Instruction} (hb : t.blocks = s.blocks) (hc : t.code = s.code.push x) (hp : t.pool = s.pool) :
    Forward base s t where
  shapes := by rw [hb]
  outer := fun id _ => by rw [hb]
  solid := by
    intro i y hy hop
    refine ⟨y, ?_, hop⟩
    rw [hc, (Extends.push s.code x).kept i (Array.getElem?_eq_some_iff.mp hy).1]
    exact hy
  constants := by
    rw [hp]
    exact .refl

end Forward

/-- From a block on, statements jump to no block of another container. -/
def BlockStack.Rooted (bs : BlockStack) (base : Nat) : Prop := ∀ id < base, bs.Hides id

theorem BlockStack.Rooted.congr {bs cs : BlockStack} {base : Nat} (h : bs.Rooted base)
    (hshapes : cs.shapes = bs.shapes) : cs.Rooted base := fun id hid => hides_congr hshapes (h id hid)

namespace Kinship

variable {K : Kinship} {flow : Bool} {base : Nat} {p q : ConstantPool} {α β : Type}

/-- What was there before a step still corresponds. -/
theorem same_mono {s t s' t' : GenState} (hs : s.pool.Grows s'.pool) (ht : t.pool.Grows t'.pool) (i j : Nat)
    (h : K.same s t i j) : K.same s' t' i j := K.grow hs ht h

variable (K) in
/-- Two states after steps from states that match. -/
structure Onto (base : Nat) (s t s' t' : GenState) : Prop where
  match' : K.Match base s' t'
  forward : Forward base s s'
  constants : t.pool.Grows t'.pool

variable (K) in
/-- Steps that keep states matching, and whose results are related, from all states with at least the
constants of `p` and `q`.  Statements (`flow`) only have to do so where their jumps stay in the
container. -/
def Twins (flow : Bool) (base : Nat) (p q : ConstantPool) (m m' : Gen α)
    (R : (Nat → Nat → Prop) → α → α → Prop) : Prop :=
  ∀ s t, p.Grows s.pool → q.Grows t.pool → (flow = true → s.blocks.Rooted base) → K.Match base s t →
    K.Onto base s t (after m s) (after m' t) ∧ R (K.same (after m s) (after m' t)) (result m s) (result m' t)

/-- Equal results. -/
def Equal (_ : Nat → Nat → Prop) (a b : α) : Prop := a = b

variable (K) in
/-- A step that keeps states matching and has the same result in both. -/
def Like (flow : Bool) (base : Nat) (m : Gen α) : Prop := ∀ p q, K.Twins flow base p q m m Equal

/-! ### Composition -/

theorem Twins.bind {γ : Type} {m m' : Gen α} {f f' : α → Gen γ} {R : (Nat → Nat → Prop) → α → α → Prop}
    {S : (Nat → Nat → Prop) → γ → γ → Prop} (hm : K.Twins flow base p q m m' R)
    (hf : ∀ p' q' a b, p.Grows p' → q.Grows q' → R (K.slots p' q') a b →
      K.Twins flow base p' q' (f a) (f' b) S) :
    K.Twins flow base p q (m >>= f) (m' >>= f') S := by
  intro s t hp hq hroot h
  obtain ⟨first, hr⟩ := hm s t hp hq hroot h
  obtain ⟨second, hs⟩ := hf (after m s).pool (after m' t).pool _ _ (hp.trans first.forward.constants)
    (hq.trans first.constants) hr (after m s) (after m' t) .refl .refl
    (fun hflow => (hroot hflow).congr first.forward.shapes) first.match'
  rw [after_bind, after_bind, result_bind, result_bind]
  exact ⟨⟨second.match', first.forward.trans second.forward, first.constants.trans second.constants⟩, hs⟩

theorem Twins.pure {R : (Nat → Nat → Prop) → α → α → Prop} {a b : α}
    (h : ∀ p' q', p.Grows p' → q.Grows q' → R (K.slots p' q') a b) :
    K.Twins flow base p q (pure a) (pure b) R := by
  intro s t hp hq _ hmatch
  exact ⟨⟨hmatch, .same rfl rfl .refl, .refl⟩, h _ _ hp hq⟩

/-- What computes values may stand among statements. -/
theorem Twins.value {m m' : Gen α} {R : (Nat → Nat → Prop) → α → α → Prop}
    (h : K.Twins false base p q m m' R) : K.Twins flow base p q m m' R :=
  fun s t hp hq _ => h s t hp hq (fun hflow => absurd hflow (by decide))

theorem Like.value {m : Gen α} (h : K.Like false base m) : K.Like flow base m := fun p q => (h p q).value

theorem Like.bind {m : Gen α} {f : α → Gen β} (hm : K.Like flow base m) (hf : ∀ a, K.Like flow base (f a)) :
    K.Like flow base (m >>= f) := by
  intro p q
  refine (hm p q).bind fun p' q' a b _ _ hab => ?_
  cases hab
  exact hf a p' q'

theorem Like.pure (a : α) : K.Like flow base (pure a) := fun _ _ => Twins.pure fun _ _ _ _ => rfl

/-- A step followed by steps that are told apart. -/
theorem Like.twins {γ : Type} {m : Gen α} {f f' : α → Gen γ} {S : (Nat → Nat → Prop) → γ → γ → Prop}
    (hm : K.Like flow base m)
    (hf : ∀ p' q' a, p.Grows p' → q.Grows q' → K.Twins flow base p' q' (f a) (f' a) S) :
    K.Twins flow base p q (m >>= f) (m >>= f') S := by
  refine (hm p q).bind fun p' q' a b hp hq hab => ?_
  cases hab
  exact hf p' q' a hp hq

/-- Steps that depend on a part of the state in which the two do not differ. -/
theorem like_read (f : GenState → α) (g : α → Gen β) (h : ∀ s t, K.Match base s t → f s = f t)
    (hg : ∀ a, K.Like flow base (g a)) : K.Like flow base (do g (f (← get))) := by
  have read : K.Like flow base (do return f (← get)) :=
    fun _ _ s t _ _ _ hmatch => ⟨⟨hmatch, .same rfl rfl .refl, .refl⟩, h s t hmatch⟩
  exact read.bind hg

/-! ### Problems and lines -/

/-- A step that changes neither code nor blocks nor tables. -/
theorem like_still {m : Gen Unit} (h : ∀ s, (after m s).buffer.code = s.buffer.code ∧
      (after m s).blocks = s.blocks ∧ (after m s).program = s.program)
    (hmatch : ∀ s t, K.Match base s t → K.Match base (after m s) (after m t)) : K.Like flow base m := by
  intro p q s t _ _ _ hst
  obtain ⟨hc, hb, hp⟩ := h s
  refine ⟨⟨hmatch s t hst, .same hb hc ?_, ?_⟩, rfl⟩
  · rw [GenState.pool, GenState.pool, hp]
    exact .refl
  · rw [GenState.pool, GenState.pool, (h t).2.2]
    exact .refl

theorem like_reportAll (rs : List Report) : K.Like flow base (reportAll rs) := by
  refine like_still (fun s => ⟨rfl, rfl, rfl⟩) fun s t h => { h with reports := ?_ }
  obtain ⟨all, hs, ht⟩ := h.reports
  refine ⟨all ++ rs, ?_, ?_⟩
  · rw [after_reportAll, hs, List.append_assoc]
  · rw [after_reportAll, ht, List.append_assoc]

theorem like_report (line : Nat) (problem : Problem) : K.Like flow base (report line problem) :=
  like_reportAll [⟨line, problem⟩]

theorem like_setLine (line : Nat) : K.Like flow base (setLine line) :=
  like_still (fun _ => ⟨rfl, rfl, rfl⟩) fun _ _ h => { h with line := rfl }

theorem like_markBoundary : K.Like flow base markBoundary :=
  like_still (fun _ => ⟨rfl, rfl, rfl⟩) fun _ _ h => { h with }

theorem like_reportFault (fault : Option Report) : K.Like flow base (reportFault fault) := by
  cases fault with
  | none => exact Like.pure ()
  | some r => exact like_report r.line r.problem

theorem like_noteNamespaces (line : Nat) : K.Like flow base (noteNamespaces line) := by
  have note : K.Like flow base (modify fun s => { s with namespaceNoted := true }) :=
    like_still (fun _ => ⟨rfl, rfl, rfl⟩) fun _ _ h => { h with namespaceNoted := rfl }
  refine like_read GenState.namespaceNoted (fun noted => if !noted then _ else _)
    (fun _ _ h => h.namespaceNoted) fun noted => ?_
  cases noted with
  | true => exact Like.pure ()
  | false => exact note.bind fun _ => like_report line _

theorem like_here : K.Like flow base here := like_read (·.code.size) pure (fun _ _ h => h.code.size) Like.pure

/-! ### Instructions -/

/-- What waits still waits behind one more instruction. -/
theorem Match.waiting_push {s t : GenState} (h : K.Match base s t) (x : Instruction) :
    ∀ id b, base ≤ id → s.blocks.get? id = some b → ∀ i, b.Pends i →
      ∃ y, (s.code.push x)[i]? = some y ∧ y.op ≠ .loadc := by
  intro id b hid hb i hi
  obtain ⟨y, hy, hop⟩ := h.waiting id b hid hb i hi
  refine ⟨y, ?_, hop⟩
  rw [(Extends.push s.code x).kept i (Array.getElem?_eq_some_iff.mp hy).1]
  exact hy

/-- Instructions with slots that correspond, or with none. -/
theorem twins_emit {op : Opcode} (p1 : Int) {n n' : Nat} (p3 : Operand)
    (hload : op = .loadc → ∀ p' q', p.Grows p' → q.Grows q' → K.slots p' q' n n')
    (hother : op ≠ .loadc → n = n') :
    K.Twins flow base p q (emit op p1 n p3) (emit op p1 n' p3) Equal := by
  intro s t hp hq _ h
  refine ⟨⟨{ h with code := ?_, waiting := ?_ }, .push rfl rfl rfl, .refl⟩, h.code.size⟩
  · exact h.code.push ⟨rfl, rfl, fun hop => hload hop _ _ hp hq, hother, rfl, h.line⟩
  · exact h.waiting_push _

theorem like_emit {op : Opcode} (hop : op ≠ .loadc) (p1 : Int) (p2 : Nat) (p3 : Operand) :
    K.Like flow base (emit op p1 p2 p3) :=
  fun _ _ => twins_emit p1 p3 (fun h => absurd h hop) fun _ => rfl

theorem like_put {op : Opcode} (hop : op ≠ .loadc) (p1 : Int) (p2 : Nat) (p3 : Operand) :
    K.Like flow base (put op p1 p2 p3) := (like_emit hop p1 p2 p3).bind fun _ => Like.pure ()

theorem like_drop : K.Like flow base drop := like_put (by decide) _ _ _

/-- Loading a constant that every program has. -/
theorem like_loadSlot {slot : Nat} (h : slot ≤ ConstantPool.falseSlot) : K.Like flow base (loadSlot slot) := by
  intro p q s t hp hq hroot hmatch
  have load : K.Twins flow base s.pool t.pool (emit .loadc 0 slot .none) (emit .loadc 0 slot .none) Equal :=
    twins_emit 0 .none (fun _ p' q' hp' hq' => K.grow hp' hq' (K.reserved hmatch.pools h))
      fun hop => absurd rfl hop
  exact (load.bind fun _ _ _ _ _ _ _ => Twins.pure fun _ _ _ _ => rfl) s t .refl .refl hroot hmatch

/-- Adding a constant: the slots correspond. -/
theorem twins_intern {add : ConstantPool → Nat × ConstantPool} (hadd : ConstantPool.Adds add) :
    K.Twins flow base p q (intern add) (intern add) fun σ i j => σ i j := by
  intro s t hp hq _ h
  obtain ⟨pools, slots⟩ := K.add hadd h.pools
  have grows := hadd.grows s.pool
  have grows' := hadd.grows t.pool
  have mono : ∀ i j, K.same s t i j → K.same (after (intern add) s) (after (intern add) t) i j :=
    fun i j => K.grow grows grows'
  refine ⟨⟨{ h with
    code := h.code.mono mono, pools := pools, program := ?_, statics := ?_ }, .same rfl rfl grows, grows'⟩, slots⟩
  · have program := h.program.mono mono
    exact { program with }
  · exact h.statics.imp fun _ _ h => h.imp fun _ _ h => h.mono mono

/-- Adding a constant and loading it. -/
theorem like_load {add : ConstantPool → Nat × ConstantPool} (hadd : ConstantPool.Adds add) (p1 : Int) :
    K.Like flow base (do put .loadc p1 (← intern add) .none) := by
  intro p q
  refine (twins_intern hadd).bind fun p' q' n n' _ _ hn => ?_
  refine (twins_emit p1 .none (fun _ _ _ hp hq => K.grow hp hq hn) fun hop => absurd rfl hop).bind
    fun _ _ _ _ _ _ _ => Twins.pure fun _ _ _ _ => rfl

theorem like_loadConstant {add : ConstantPool → Nat × ConstantPool} (hadd : ConstantPool.Adds add) :
    K.Like flow base (loadConstant add) := like_load hadd 0

theorem like_string (text : String) : K.Like flow base (string text) := like_loadConstant (.string text)

/-- A change to code that keeps what was no load from being one. -/
theorem Match.revise {s t : GenState} (h : K.Match base s t) {a b : Code}
    (hab : Code.Alike (K.same s t) a b)
    (hsolid : ∀ (i : Nat) (x : Instruction), s.code[i]? = some x → x.op ≠ .loadc →
      ∃ y, a[i]? = some y ∧ y.op ≠ .loadc) :
    K.Onto base s t { s with buffer := { s.buffer with code := a } } { t with buffer := { t.buffer with code := b } } where
  match' := by
    refine { h with code := hab, waiting := fun id b hid hb i hi => ?_ }
    obtain ⟨x, hx, hop⟩ := h.waiting id b hid hb i hi
    exact hsolid i x hx hop
  forward := ⟨rfl, fun _ _ => rfl, hsolid, .refl⟩
  constants := .refl

/-- The last instruction is replaced by one that loads no constant. -/
theorem Match.rewrite {s t : GenState} (h : K.Match base s t) {op : Opcode} (hop : op ≠ .loadc) (p1 : Int)
    (p2 : Nat) (p3 : Operand) :
    K.Onto base s t (after (put op p1 p2 p3) (after takeBack s)) (after (put op p1 p2 p3) (after takeBack t)) := by
  rw [after_put, after_put, after_takeBack, after_takeBack]
  refine h.revise (h.code.pop.push ?_) fun i z hz hzop => ?_
  · exact ⟨rfl, rfl, fun hload => absurd hload hop, fun _ => rfl, rfl, h.line⟩
  · have hlt := (Array.getElem?_eq_some_iff.mp hz).1
    rw [Array.getElem?_push, Array.size_pop]
    split
    · exact ⟨_, rfl, hop⟩
    · refine ⟨z, ?_, hzop⟩
      rw [Array.getElem?_pop, if_pos (by omega)]
      exact hz

/-- Filling in the target of a jump. -/
theorem Match.land {s t : GenState} (h : K.Match base s t) {i : Nat}
    (hi : ∃ x, s.code[i]? = some x ∧ x.op ≠ .loadc) :
    K.Onto base s t (after (landHere i) s) (after (landHere i) t) := by
  obtain ⟨x, hx, hop⟩ := hi
  rw [after_landHere, after_landHere, ← h.code.size]
  refine h.revise (h.code.patch (fun y hy => ?_) _) fun k z hz hzop => ?_
  · rw [hx] at hy
    cases hy
    exact hop
  · rw [Code.getElem?_patch]
    split
    · rw [hz]
      exact ⟨_, rfl, hzop⟩
    · exact ⟨z, hz, hzop⟩

end Kinship

end StackScript
