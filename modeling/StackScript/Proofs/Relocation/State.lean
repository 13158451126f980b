/-
One piece of a script at two places.

A piece of a script is generated among some blocks, and once more among others.  A `Relocation` says how many blocks
stand around the two places, and two states `Match` when they differ in those blocks only, and in what no step looks
at: the code that is in the tables already.  The blocks around a place are neither functions nor classes, so nothing
asks them for a name.  Steps that keep states matching are `Twins`; where they are told the number of a block, the two
numbers lie as far apart as the places do.

Of the operands of instructions only their `face` is compared.  A switch has another number where more of them came
before it, but it stands in a statement, and so in a container of its own behind which its number does not matter.
-/
import StackScript.Proofs.Likeness.Statement

namespace StackScript

open Gen

/-! ### What is compared of code -/

/-- An operand without the number of a switch. -/
def Operand.unswitched : Operand → Operand
  | .switch _ => .none
  | operand => operand

namespace Instruction

/-- An instruction with its operand changed. -/
def mapOperand (face : Operand → Operand) (x : Instruction) : Instruction := { x with p3 := face x.p3 }

end Instruction

namespace Code

variable {face : Operand → Operand} {a b : Code} {x y : Instruction}

/-- Code with its operands changed. -/
def mapOperands (face : Operand → Operand) (code : Code) : Code := code.map (Instruction.mapOperand face)

theorem mapOperands_id (code : Code) : code.mapOperands id = code := by
  unfold mapOperands
  rw [show Instruction.mapOperand id = id from rfl, Array.map_id]

theorem size_eq (h : a.mapOperands face = b.mapOperands face) : a.size = b.size := by
  simpa [mapOperands] using congrArg Array.size h

theorem getElem?_eq (h : a.mapOperands face = b.mapOperands face) (i : Nat) :
    a[i]?.map (Instruction.mapOperand face) = b[i]?.map (Instruction.mapOperand face) := by
  simpa [mapOperands] using congrArg (·[i]?) h

theorem mapOperands_push (h : a.mapOperands face = b.mapOperands face) (hxy : x.mapOperand face = y.mapOperand face) :
    mapOperands face (a.push x) = mapOperands face (b.push y) := by
  unfold mapOperands at h ⊢
  rw [Array.map_push, Array.map_push, h, hxy]

theorem mapOperands_pop (h : a.mapOperands face = b.mapOperands face) :
    mapOperands face a.pop = mapOperands face b.pop := by
  unfold mapOperands at h ⊢
  rw [Array.map_pop, Array.map_pop, h]

theorem mapOperands_take (h : a.mapOperands face = b.mapOperands face) (n : Nat) :
    mapOperands face (a.take n) = mapOperands face (b.take n) := by
  unfold mapOperands at h ⊢
  rw [Array.take_eq_extract, Array.take_eq_extract, Array.map_extract, Array.map_extract, h]

/-- The same change to the instructions at an index, when it has nothing to do with operands. -/
theorem mapOperands_modify (h : a.mapOperands face = b.mapOperands face) (i : Nat) {f : Instruction → Instruction}
    (hf : ∀ x, (f x).mapOperand face = f (x.mapOperand face)) :
    mapOperands face (a.modify i f) = mapOperands face (b.modify i f) := by
  have changed (c : Code) : mapOperands face (c.modify i f) = (c.mapOperands face).modify i f := by
    refine Array.ext_getElem? fun k => ?_
    simp only [mapOperands, Array.getElem?_map, Array.getElem?_modify]
    split
    · simp only [Option.map_map, Function.comp_def, hf]
    · rfl
  rw [changed, changed, h]

theorem mapOperands_patchAll {β : Type} (h : a.mapOperands face = b.mapOperands face) (index : β → Nat) (js : List β)
    (target : Nat) :
    mapOperands face (js.foldl (fun code j => code.patch (index j) target) a) =
      mapOperands face (js.foldl (fun code j => code.patch (index j) target) b) := by
  induction js generalizing a b with
  | nil => exact h
  | cons j js ih => exact ih (mapOperands_modify h _ fun _ => rfl)

/-- The last instructions, if there are any. -/
theorem back?_eq (h : a.mapOperands face = b.mapOperands face) :
    a.back? = none ∧ b.back? = none ∨
      ∃ x y, a.back? = some x ∧ b.back? = some y ∧ x.mapOperand face = y.mapOperand face := by
  have same := getElem?_eq h (a.size - 1)
  rw [Array.back?_eq_getElem?, Array.back?_eq_getElem?, ← size_eq h]
  cases hx : a[a.size - 1]? with
  | none =>
      rw [hx, Option.map_none, eq_comm, Option.map_eq_none_iff] at same
      exact .inl ⟨rfl, same⟩
  | some x =>
      rw [hx, Option.map_some, eq_comm, Option.map_eq_some_iff] at same
      obtain ⟨y, hy, hxy⟩ := same
      exact .inr ⟨x, y, rfl, hy, hxy.symm⟩

theorem beforeLast?_eq (h : a.mapOperands face = b.mapOperands face) (op : Opcode) :
    a.beforeLast?.any (·.op == op) = b.beforeLast?.any (·.op == op) := by
  have same := congrArg (Option.any (·.op == op)) (getElem?_eq h (a.size - 2))
  rw [Option.any_map, Option.any_map] at same
  unfold Code.beforeLast?
  rw [← size_eq h]
  split
  · exact same
  · rfl

end Code

/-! ### What is compared of programs -/

/-- A function without its arguments and code. -/
def FunctionDef.shell (f : FunctionDef) : FunctionDef := { f with args := [], code := #[], statics := [] }

/-- Programs whose tables are alike as far as code generation looks at them. -/
structure Program.Resembles (p q : Program) : Prop where
  constants : p.constants = q.constants
  functions : p.functions.map FunctionDef.shell = q.functions.map FunctionDef.shell
  classes : p.classes.map ClassDef.name = q.classes.map ClassDef.name
  foreachs : p.foreachs.length = q.foreachs.length
  exceptions : p.exceptions.length = q.exceptions.length
  classLinks : p.classLinks.length = q.classLinks.length
  closures : p.closures.length = q.closures.length

namespace Program.Resembles

variable {p q : Program} {f g : FunctionDef}

theorem isSome_function? (h : p.Resembles q) (name : String) : (p.function? name).isSome = (q.function? name).isSome := by
  have any (r : Program) : (r.function? name).isSome = (r.functions.map FunctionDef.shell).any (·.name == name) := by
    rw [Program.function?, List.isSome_find?, List.any_map]
    rfl
  rw [any, any, h.functions]

/-- Both programs take a function, or neither does. -/
theorem installFunction? (h : p.Resembles q) (hfg : f.shell = g.shell) :
    p.installFunction? f = none ∧ q.installFunction? g = none ∨
      p.installFunction? f = some { p with functions := p.functions ++ [f] } ∧
        q.installFunction? g = some { q with functions := q.functions ++ [g] } := by
  have clash (r : Program) (f : FunctionDef) :
      r.functions.any (Program.clash f) = (r.functions.map FunctionDef.shell).any (Program.clash f.shell) := by
    rw [List.any_map]
    rfl
  have same : p.functions.any (Program.clash f) = q.functions.any (Program.clash g) := by
    rw [clash, clash, h.functions, hfg]
  unfold Program.installFunction?
  rw [same]
  split
  · exact .inl ⟨rfl, rfl⟩
  · exact .inr ⟨rfl, rfl⟩

theorem installClass? (h : p.Resembles q) {c d : ClassDef} (hcd : c.name = d.name) :
    p.installClass? c = none ∧ q.installClass? d = none ∨
      p.installClass? c = some { p with classes := p.classes ++ [c] } ∧
        q.installClass? d = some { q with classes := q.classes ++ [d] } := by
  have any (r : Program) (name : String) : (r.class? name).isSome = (r.classes.map ClassDef.name).any (· == name) := by
    rw [Program.class?, List.isSome_find?, List.any_map]
    rfl
  have same : (p.class? c.name).isSome = (q.class? d.name).isSome := by rw [any, any, h.classes, hcd]
  unfold Program.installClass?
  rw [same]
  split
  · exact .inl ⟨rfl, rfl⟩
  · exact .inr ⟨rfl, rfl⟩

end Program.Resembles

/-! ### Two places -/

/-- Two places in a script: how many blocks stand around each of them, and what is compared of operands. -/
structure Relocation where
  depth : Nat
  depth' : Nat
  face : Operand → Operand
  filled : 0 < depth
  filled' : 0 < depth'

namespace Relocation

/-- The same places, comparing something else of operands. -/
def facing (L : Relocation) (face : Operand → Operand) : Relocation := { L with face := face }

/-- Switches are not told apart. -/
def Blind (L : Relocation) : Prop := ∀ i j, L.face (.switch i) = L.face (.switch j)

theorem blind_unswitched (L : Relocation) : (L.facing Operand.unswitched).Blind := fun _ _ => rfl

/-- The outermost blocks are neither functions nor classes. -/
def Plain (bs : BlockStack) (depth : Nat) : Prop :=
  ∀ id b, id < depth → bs.get? id = some b → b.hasAny [.class_, .function] = false

/-- Two states of code generation at two places. -/
structure Match (L : Relocation) (s t : GenState) : Prop where
  config : s.config = t.config
  reports : s.reports = t.reports
  line : s.buffer.line = t.buffer.line
  code : s.code.mapOperands L.face = t.code.mapOperands L.face
  size : ∃ j, s.blocks.blocks.size = L.depth + j ∧ t.blocks.blocks.size = L.depth' + j
  blocks : ∀ j, s.blocks.get? (L.depth + j) = t.blocks.get? (L.depth' + j)
  plain : Plain s.blocks L.depth
  plain' : Plain t.blocks L.depth'
  program : s.program.Resembles t.program
  statics : s.statics.length = t.statics.length
  closures : s.closures = t.closures
  namespaceNoted : s.namespaceNoted = t.namespaceNoted

/-- Two states after steps from states that match. -/
structure Onto (L : Relocation) (s t s' t' : GenState) : Prop where
  match' : L.Match s' t'
  shapes : s'.blocks.shapes = s.blocks.shapes

variable {L : Relocation} {flow : Bool} {α β γ : Type} {R : α → α → Prop} {s t : GenState}

theorem Match.size_code (h : L.Match s t) : s.code.size = t.code.size := Code.size_eq h.code

theorem Onto.trans {s₁ t₁ s₂ t₂ : GenState} (h : L.Onto s t s₁ t₁) (h' : L.Onto s₁ t₁ s₂ t₂) : L.Onto s t s₂ t₂ :=
  ⟨h'.match', h'.shapes.trans h.shapes⟩

/-- Steps that keep states matching and have related results.  Statements (`flow`) only have to do so where their
jumps stay in the container. -/
def Twins (L : Relocation) (flow : Bool) (m m' : Gen α) (R : α → α → Prop) : Prop :=
  ∀ s t, (flow = true → s.blocks.Rooted L.depth) → L.Match s t →
    L.Onto s t (after m s) (after m' t) ∧ R (result m s) (result m' t)

/-- Steps that keep states matching, and have the same result at both places. -/
abbrev Same (L : Relocation) (flow : Bool) (m m' : Gen α) : Prop := L.Twins flow m m' Eq

/-- A step that does the same at both places. -/
abbrev Like (L : Relocation) (flow : Bool) (m : Gen α) : Prop := L.Same flow m m

/-! ### Composition -/

theorem Twins.bind {m m' : Gen α} {f f' : α → Gen γ} {S : γ → γ → Prop} (hm : L.Twins flow m m' R)
    (hf : ∀ a b, R a b → L.Twins flow (f a) (f' b) S) : L.Twins flow (m >>= f) (m' >>= f') S := by
  intro s t hroot h
  obtain ⟨first, hr⟩ := hm s t hroot h
  obtain ⟨second, hs⟩ := hf _ _ hr (after m s) (after m' t) (fun hflow => (hroot hflow).congr first.shapes) first.match'
  rw [after_bind, after_bind, result_bind, result_bind]
  exact ⟨first.trans second, hs⟩

theorem Twins.pure {a b : α} (h : R a b) : L.Twins flow (pure a) (pure b) R := fun _ _ _ hst => ⟨⟨hst, rfl⟩, h⟩

theorem Twins.mono {S : α → α → Prop} {m m' : Gen α} (h : L.Twins flow m m' R) (hRS : ∀ a b, R a b → S a b) :
    L.Twins flow m m' S := fun s t hroot hst => ⟨(h s t hroot hst).1, hRS _ _ (h s t hroot hst).2⟩

/-- What computes values may stand among statements. -/
theorem Twins.value {m m' : Gen α} (h : L.Twins false m m' R) : L.Twins flow m m' R :=
  fun s t _ => h s t (fun hflow => absurd hflow Bool.false_ne_true)

/-- A step followed by steps that are told apart. -/
theorem Twins.behind {m m' : Gen α} {f f' : α → Gen γ} {S : γ → γ → Prop} (hm : L.Same flow m m')
    (hf : ∀ a, L.Twins flow (f a) (f' a) S) : L.Twins flow (m >>= f) (m' >>= f') S :=
  hm.bind fun a _ hab => hab ▸ hf a

theorem like_pure (a : α) : L.Like flow (pure a) := .pure rfl

/-- Steps that depend on a part of the state in which the two do not differ. -/
theorem like_read (f : GenState → α) (g : α → Gen β) (h : ∀ s t, L.Match s t → f s = f t)
    (hg : ∀ a, L.Like flow (g a)) : L.Like flow (do g (f (← get))) := by
  have read : L.Like flow (do return f (← get)) := fun s t _ hst => ⟨⟨hst, rfl⟩, h s t hst⟩
  exact read.behind hg

/-! ### Problems and lines -/

/-- A step that changes neither blocks nor tables nor code. -/
theorem like_still {m : Gen Unit} (h : ∀ s, (after m s).blocks = s.blocks)
    (hmatch : ∀ s t, L.Match s t → L.Match (after m s) (after m t)) : L.Like flow m :=
  fun s t _ hst => ⟨⟨hmatch s t hst, by rw [h]⟩, rfl⟩

theorem like_reportAll (rs : List Report) : L.Like flow (reportAll rs) :=
  like_still (fun _ => rfl) fun _ _ h => { h with reports := congrArg (· ++ rs) h.reports }

theorem like_report (line : Nat) (problem : Problem) : L.Like flow (report line problem) :=
  like_reportAll [⟨line, problem⟩]

theorem like_setLine (line : Nat) : L.Like flow (setLine line) :=
  like_still (fun _ => rfl) fun _ _ h => { h with line := rfl }

theorem like_markBoundary : L.Like flow markBoundary := like_still (fun _ => rfl) fun _ _ h => { h with }

theorem like_recordJump (id id' : Nat) : L.Same flow (recordJump id) (recordJump id') :=
  fun _ _ _ h => ⟨⟨{ h with }, rfl⟩, rfl⟩

theorem like_reportFault (fault : Option Report) : L.Like flow (reportFault fault) := by
  cases fault with
  | none => exact like_pure ()
  | some r => exact like_report r.line r.problem

theorem like_noteNamespaces (line : Nat) : L.Like flow (noteNamespaces line) := by
  have note : L.Like flow (modify fun s => { s with namespaceNoted := true }) :=
    like_still (fun _ => rfl) fun _ _ h => { h with namespaceNoted := rfl }
  refine like_read GenState.namespaceNoted (fun noted => if !noted then _ else _) (fun _ _ h => h.namespaceNoted)
    fun noted => ?_
  cases noted with
  | true => exact like_pure ()
  | false => exact note.behind fun _ => like_report line _

theorem like_here : L.Like flow here := like_read (·.code.size) pure (fun _ _ h => h.size_code) like_pure

theorem like_errorCount : L.Like flow errorCount :=
  like_read (·.reports.countP Report.isError) pure (fun _ _ h => by rw [h.reports]) like_pure

/-! ### Instructions -/

/-- Other code, with the same operands in the end. -/
theorem Match.recode (h : L.Match s t) {a b : Code} (hab : a.mapOperands L.face = b.mapOperands L.face) :
    L.Onto s t { s with buffer := { s.buffer with code := a } } { t with buffer := { t.buffer with code := b } } :=
  ⟨{ h with code := hab }, rfl⟩

theorem twins_emit (op : Opcode) (p1 : Int) (p2 : Nat) {p3 p3' : Operand} (h : L.face p3 = L.face p3') :
    L.Same flow (emit op p1 p2 p3) (emit op p1 p2 p3') := by
  intro s t _ hst
  refine ⟨hst.recode (Code.mapOperands_push hst.code ?_), hst.size_code⟩
  simp only [Instruction.mapOperand, h, hst.line]

theorem twins_put (op : Opcode) (p1 : Int) (p2 : Nat) {p3 p3' : Operand} (h : L.face p3 = L.face p3') :
    L.Same flow (put op p1 p2 p3) (put op p1 p2 p3') := (twins_emit op p1 p2 h).behind fun _ => like_pure ()

theorem like_put (op : Opcode) (p1 : Int) (p2 : Nat) (p3 : Operand) : L.Like flow (put op p1 p2 p3) :=
  twins_put op p1 p2 rfl

theorem like_intern (add : ConstantPool → Nat × ConstantPool) : L.Like flow (intern add) := by
  intro s t _ h
  have constants := h.program.constants
  refine ⟨⟨{ h with program := { h.program with constants := ?_ } }, rfl⟩, ?_⟩
  · exact congrArg (fun p => (add p).2) constants
  · exact congrArg (fun p => (add p).1) constants

theorem like_load (add : ConstantPool → Nat × ConstantPool) (p1 : Int) :
    L.Like flow (do put .loadc p1 (← intern add) .none) := (like_intern add).behind fun _ => like_put _ _ _ _

theorem like_loadConstant (add : ConstantPool → Nat × ConstantPool) : L.Like flow (loadConstant add) := like_load add 0

/-- The last instruction is replaced. -/
theorem Match.rewrite (h : L.Match s t) (op : Opcode) (p1 : Int) (p2 : Nat) {p3 p3' : Operand}
    (hp3 : L.face p3 = L.face p3') :
    L.Onto s t (after (put op p1 p2 p3) (after takeBack s)) (after (put op p1 p2 p3') (after takeBack t)) := by
  refine h.recode (Code.mapOperands_push (Code.mapOperands_pop h.code) ?_)
  simp only [Instruction.mapOperand, after_takeBack, hp3, h.line]

/-- Filling in the target of a jump. -/
theorem like_landHere (i : Nat) : L.Like flow (landHere i) := by
  intro s t _ h
  rw [after_landHere, after_landHere, ← h.size_code]
  exact ⟨h.recode (Code.mapOperands_modify h.code _ fun _ => rfl), rfl⟩

/-! ### Blocks -/

/-- The same change to a block inside. -/
theorem Match.modifyBlock (h : L.Match s t) (j : Nat) {f : Block → Block} (hshape : ∀ b, (f b).shape = b.shape) :
    L.Onto s t { s with blocks := s.blocks.modify (L.depth + j) f } { t with blocks := t.blocks.modify (L.depth' + j) f } where
  match' := by
    refine { h with size := ?_, blocks := fun k => ?_, plain := fun id b hid hb => ?_, plain' := fun id b hid hb => ?_ }
    · rw [BlockStack.size_modify, BlockStack.size_modify]
      exact h.size
    · simp only [BlockStack.get?_modify, h.blocks, Nat.add_left_cancel_iff]
    · rw [BlockStack.get?_modify, if_neg (by omega)] at hb
      exact h.plain id b hid hb
    · rw [BlockStack.get?_modify, if_neg (by omega)] at hb
      exact h.plain' id b hid hb
  shapes := s.blocks.shapes_modify _ f hshape

theorem twins_await (j : Nat) (op : Opcode) {p3 p3' : Operand} (h : L.face p3 = L.face p3') :
    L.Same flow (await (L.depth + j) op p3) (await (L.depth' + j) op p3') := by
  intro s t hroot hst
  obtain ⟨emitted, -⟩ := twins_emit op 0 0 h s t hroot hst
  rw [after_await, after_await, ← hst.size_code]
  exact ⟨emitted.trans (emitted.match'.modifyBlock j fun _ => rfl), rfl⟩

theorem twins_awaitContinue (j : Nat) : L.Same flow (awaitContinue (L.depth + j)) (awaitContinue (L.depth' + j)) := by
  intro s t hroot hst
  obtain ⟨emitted, -⟩ := @twins_emit L flow .jmp 0 0 .none .none rfl s t hroot hst
  rw [after_awaitContinue, after_awaitContinue, ← hst.size_code]
  exact ⟨emitted.trans (emitted.match'.modifyBlock j fun _ => by simp [Block.shape]), rfl⟩

theorem twins_restartHere (j : Nat) : L.Same flow (restartHere (L.depth + j)) (restartHere (L.depth' + j)) := by
  intro s t _ h
  rw [after_restartHere, after_restartHere, ← h.size_code]
  exact ⟨h.modifyBlock j fun _ => rfl, rfl⟩

theorem twins_settle (j : Nat) (op : Option Opcode) :
    L.Same flow (settle (L.depth + j) op) (settle (L.depth' + j) op) := by
  intro s t _ h
  have settles : BlockStack.settles op t.code = BlockStack.settles op s.code := by
    funext k
    unfold BlockStack.settles
    rw [h.size_code]
  have shrunk := h.modifyBlock j (f := fun b => { b with pending := b.pending.filter fun k => !BlockStack.settles op s.code k })
    fun _ => rfl
  rw [after_settle, after_settle]
  unfold BlockStack.settle
  rw [settles, ← h.size_code, ← h.blocks]
  exact ⟨shrunk.trans (shrunk.match'.recode (Code.mapOperands_patchAll h.code PendingJump.index _ _)), Subsingleton.elim _ _⟩

theorem twins_settleContinue (j : Nat) :
    L.Same flow (settleContinue (L.depth + j)) (settleContinue (L.depth' + j)) := by
  intro s t _ h
  have emptied := h.modifyBlock j (f := fun b => { b with deferred := b.deferred.map fun _ => [] })
    fun _ => by simp [Block.shape]
  rw [after_settleContinue, after_settleContinue]
  unfold BlockStack.settleContinue
  rw [← h.size_code, ← h.blocks]
  exact ⟨emptied.trans (emptied.match'.recode (Code.mapOperands_patchAll h.code (fun i => i) _ _)), Subsingleton.elim _ _⟩

/-- Numbers of blocks that lie as far apart as the places. -/
theorem Match.enter (h : L.Match s t) (tags : List BlockTag) (first : Nat) (owner : BlockOwner)
    (deferred : Option (List Nat)) :
    L.Match (after (enter tags first owner deferred) s) (after (enter tags first owner deferred) t) := by
  obtain ⟨j, hs, ht⟩ := h.size
  rw [after_enter, after_enter]
  refine { h with size := ⟨j + 1, ?_, ?_⟩, blocks := fun k => ?_, plain := fun id b hid hb => ?_, plain' := fun id b hid hb => ?_ }
  · rw [Array.size_push, hs, Nat.add_assoc]
  · rw [Array.size_push, ht, Nat.add_assoc]
  · simp only [BlockStack.get?_push, hs, ht, h.blocks, Nat.add_left_cancel_iff]
  · rw [BlockStack.get?_push, if_neg (by omega)] at hb
    exact h.plain id b hid hb
  · rw [BlockStack.get?_push, if_neg (by omega)] at hb
    exact h.plain' id b hid hb

/-- A block inside is left. -/
theorem Match.leave (h : L.Match s t) (hs : L.depth < s.blocks.blocks.size) : L.Match (after leave s) (after leave t) := by
  obtain ⟨j, hj, hj'⟩ := h.size
  have filled := L.filled
  have filled' := L.filled'
  have size (bs : BlockStack) (hbs : 1 < bs.blocks.size) : bs.leave.blocks.size = bs.blocks.size - 1 := by
    unfold BlockStack.leave
    rw [if_neg (by omega), Array.size_pop]
  rw [after_leave, after_leave]
  refine { h with size := ⟨j - 1, ?_, ?_⟩, blocks := fun k => ?_, plain := fun id b hid hb => ?_, plain' := fun id b hid hb => ?_ }
  · rw [size _ (by omega)]
    omega
  · rw [size _ (by omega)]
    omega
  · rw [BlockStack.get?_leave _ (by omega), BlockStack.get?_leave _ (by omega), hj, hj', h.blocks]
    have both : L.depth + k < L.depth + j - 1 ↔ L.depth' + k < L.depth' + j - 1 := by omega
    simp only [both]
  · rw [BlockStack.get?_leave _ (by omega), if_pos (by omega)] at hb
    exact h.plain id b hid hb
  · rw [BlockStack.get?_leave _ (by omega), if_pos (by omega)] at hb
    exact h.plain' id b hid hb

/-- Steps inside a block of their own. -/
theorem twins_inside (tags : List BlockTag) (first : Nat) (owner : BlockOwner) (deferred : Option (List Nat))
    {b b' : Nat → Gen α} (h : ∀ j, L.Twins flow (b (L.depth + j)) (b' (L.depth' + j)) R) :
    L.Twins flow
      (enter tags first owner deferred >>= fun id => b id >>= fun a => leave >>= fun _ => pure a)
      (enter tags first owner deferred >>= fun id => b' id >>= fun a => leave >>= fun _ => pure a) R := by
  intro s t hroot hst
  obtain ⟨j, hs, ht⟩ := hst.size
  have filled := L.filled
  obtain ⟨inner, hr⟩ := h j (after (enter tags first owner deferred) s) (after (enter tags first owner deferred) t)
    (fun hflow id hid => BlockStack.hides_push (hroot hflow id hid) _) (hst.enter tags first owner deferred)
  have hsize := (BlockStack.size_congr inner.shapes).trans (Kinship.size_enter ..)
  simp only [after_bind, result_bind, result_enter, hs, ht, after_pure, result_pure]
  refine ⟨⟨inner.match'.leave (by omega), ?_⟩, hr⟩
  exact BlockStack.shapes_leave (by omega) inner.shapes

theorem twins_owned (tags : List BlockTag) (first : Nat) (owner : BlockOwner) {body body' : Nat → Gen α}
    (h : ∀ j, L.Twins flow (body (L.depth + j)) (body' (L.depth' + j)) R) :
    L.Twins flow (owned tags first owner body) (owned tags first owner body') R := twins_inside tags first owner none h

theorem like_inBlock (tags : List BlockTag) (deferred : Option (List Nat)) {body : Nat → Gen Unit}
    (h : ∀ j, L.Same flow (body (L.depth + j)) (body (L.depth' + j))) : L.Like flow (inBlock tags deferred body) := by
  refine like_here.behind fun first => ?_
  have inside : L.Like flow (enter tags first .none deferred >>= fun id =>
      (body id >>= fun _ => settle id none >>= fun _ => settleContinue id) >>= fun a => leave >>= fun _ => pure a) :=
    twins_inside tags first .none deferred fun j =>
      (h j).behind fun _ => (twins_settle j none).behind fun _ => twins_settleContinue j
  exact inside

/-! ### Containers -/

/-- Code in a container of its own.  What becomes of it is not compared. -/
theorem twins_inContainer (face : Operand → Operand) {body body' : Gen Unit}
    (h : (L.facing face).Same flow body body') :
    L.Twins flow (inContainer body) (inContainer body') fun _ _ => True := by
  intro s t hroot hst
  have opened : (L.facing face).Match (after openContainer s) (after openContainer t) := { hst with code := rfl }
  obtain ⟨inner, -⟩ := h (after openContainer s) (after openContainer t) hroot opened
  exact ⟨⟨{ inner.match' with code := hst.code }, inner.shapes⟩, trivial⟩

/-- Code in a container of its own that its jumps do not leave. -/
theorem twins_enclosed (tags : List BlockTag) (owner : BlockOwner)
    (htags : ([.guarded, .function].any tags.contains && [.exception, .function].any tags.contains) = true)
    {m m' : Nat → Gen α} (h : ∀ j, L.Twins true (m (L.depth + j)) (m' (L.depth' + j)) R) :
    L.Twins flow (owned tags 0 owner m) (owned tags 0 owner m') R := by
  intro s t _ hst
  rw [Bool.and_eq_true] at htags
  obtain ⟨j, hs, ht⟩ := hst.size
  have filled := L.filled
  -- The new block hides all the blocks around the place.
  have rooted : (after (enter tags 0 owner none) s).blocks.Rooted L.depth := by
    intro id hid
    refine ⟨s.blocks.blocks.size, { tags := tags, first := 0, owner := owner }, by omega, ?_, htags.1, htags.2⟩
    rw [after_enter, BlockStack.get?_push, if_pos rfl]
  obtain ⟨inner, hr⟩ := h j (after (enter tags 0 owner none) s) (after (enter tags 0 owner none) t) (fun _ => rooted)
    (hst.enter tags 0 owner none)
  have hsize := (BlockStack.size_congr inner.shapes).trans (Kinship.size_enter ..)
  unfold owned
  simp only [after_bind, result_bind, result_enter, hs, ht, after_pure, result_pure]
  refine ⟨⟨inner.match'.leave (by omega), ?_⟩, hr⟩
  exact BlockStack.shapes_leave (by omega) inner.shapes

/-! ### Tables -/

/-- Steps that change the tables and nothing else. -/
theorem twins_program {m m' : Gen α} (h : ∀ s t, L.Match s t → ∃ P Q,
      after m s = { s with program := P } ∧ after m' t = { t with program := Q } ∧ P.Resembles Q ∧
      R (result m s) (result m' t)) : L.Twins flow m m' R := by
  intro s t _ hst
  obtain ⟨P, Q, hs, ht, resembles, hr⟩ := h s t hst
  rw [hs, ht]
  exact ⟨⟨{ hst with program := resembles }, rfl⟩, hr⟩

theorem twins_reserveSwitch : L.Twins flow reserveSwitch reserveSwitch fun _ _ => True :=
  twins_program fun _ _ h => ⟨_, _, rfl, rfl, { h.program with }, trivial⟩

theorem twins_fillSwitch (id id' : Nat) (table table' : SwitchTable) :
    L.Same flow (fillSwitch id table) (fillSwitch id' table') :=
  twins_program fun _ _ h => ⟨_, _, rfl, rfl, { h.program with }, rfl⟩

theorem like_addForeach (table : ForeachTable) : L.Like flow (addForeach table) :=
  twins_program fun _ _ h => ⟨_, _, rfl, rfl,
    { h.program with foreachs := by simp [h.program.foreachs] }, h.program.foreachs⟩

theorem like_reserveException : L.Like flow reserveException :=
  twins_program fun _ _ h => ⟨_, _, rfl, rfl,
    { h.program with exceptions := by simp [h.program.exceptions] }, h.program.exceptions⟩

theorem twins_addCatch (id : Nat) (entry entry' : CatchEntry) : L.Same flow (addCatch id entry) (addCatch id entry') :=
  twins_program fun _ _ h => ⟨_, _, rfl, rfl, { h.program with exceptions := by simp [h.program.exceptions] }, rfl⟩

theorem like_addLink (link : ClassLink) : L.Like flow (addLink link) :=
  twins_program fun _ _ h => ⟨_, _, rfl, rfl,
    { h.program with classLinks := by simp [h.program.classLinks] }, h.program.classLinks⟩

theorem twins_addClosure (f g : FunctionDef) : L.Same flow (addClosure f) (addClosure g) :=
  twins_program fun _ _ h => ⟨_, _, rfl, rfl,
    { h.program with closures := by simp [h.program.closures] }, h.program.closures⟩

theorem twins_installFunction {f g : FunctionDef} (hfg : f.shell = g.shell) :
    L.Same flow (installFunction f) (installFunction g) := by
  refine twins_program fun s t h => ?_
  unfold installFunction
  rw [after_modifyGet, after_modifyGet, result_modifyGet, result_modifyGet]
  rcases h.program.installFunction? hfg with ⟨hs, ht⟩ | ⟨hs, ht⟩ <;> rw [hs, ht]
  · exact ⟨s.program, t.program, rfl, rfl, h.program, rfl⟩
  · exact ⟨_, _, rfl, rfl, { h.program with functions := by simp [h.program.functions, hfg] }, rfl⟩

theorem twins_installClass {c d : ClassDef} (hcd : c.name = d.name) :
    L.Same flow (installClass c) (installClass d) := by
  refine twins_program fun s t h => ?_
  unfold installClass
  rw [after_modifyGet, after_modifyGet, result_modifyGet, result_modifyGet]
  rcases h.program.installClass? hcd with ⟨hs, ht⟩ | ⟨hs, ht⟩ <;> rw [hs, ht]
  · exact ⟨s.program, t.program, rfl, rfl, h.program, rfl⟩
  · exact ⟨_, _, rfl, rfl, { h.program with classes := by simp [h.program.classes, hcd] }, rfl⟩

theorem twins_defineConstant (name : String) (a b : Code) :
    L.Same flow (defineConstant name a) (defineConstant name b) :=
  twins_program fun _ _ h => ⟨_, _, rfl, rfl, { h.program with }, rfl⟩

theorem freeClosure_congr {p q : Program} (h : p.Resembles q) (fuel n : Nat) :
    freeClosure p fuel n = freeClosure q fuel n := by
  induction fuel generalizing n with
  | zero => rfl
  | succ fuel ih =>
      unfold freeClosure
      rw [h.isSome_function?, ih]

theorem like_nextClosureName : L.Like flow nextClosureName := by
  intro s t _ h
  have installed : s.program.functions.length = t.program.functions.length := by
    simpa using congrArg List.length h.program.functions
  have name : freeClosure s.program s.program.functions.length s.closures =
      freeClosure t.program t.program.functions.length t.closures := by
    rw [freeClosure_congr h.program, installed, h.closures]
  exact ⟨⟨{ h with closures := congrArg (· + 1) name }, rfl⟩, congrArg closureName name⟩

/-! ### Static variables -/

theorem twins_addStatic (v w : StaticVar) : L.Same flow (addStatic v) (addStatic w) := by
  intro s t _ h
  have statics := h.statics
  unfold addStatic
  rw [after_modifyGet, after_modifyGet, result_modifyGet, result_modifyGet]
  cases hs : s.statics with
  | nil =>
      rw [hs, List.length_nil, eq_comm, List.length_eq_zero_iff] at statics
      rw [statics]
      exact ⟨⟨h, rfl⟩, rfl⟩
  | cons frame frames =>
      rw [hs, List.length_cons, eq_comm] at statics
      obtain ⟨frame', frames', ht⟩ := List.exists_cons_of_length_eq_add_one statics
      rw [ht] at statics ⊢
      exact ⟨⟨{ h with statics := by simpa using statics.symm }, rfl⟩, rfl⟩

theorem twins_collectingStatics {body body' : Gen α} (h : L.Twins flow body body' R) :
    L.Twins flow (collectingStatics body) (collectingStatics body') fun a b => R a.1 b.1 := by
  intro s t hroot hst
  obtain ⟨made, hr⟩ := h { s with statics := [] :: s.statics } { t with statics := [] :: t.statics } hroot
    { hst with statics := congrArg (· + 1) hst.statics }
  refine ⟨⟨{ made.match' with statics := ?_ }, made.shapes⟩, hr⟩
  show (after body _).statics.tail.length = (after body' _).statics.tail.length
  rw [List.length_tail, List.length_tail, made.match'.statics]

end Relocation

end StackScript
