/-
What a run of code generation can do.

Every construct is generated by composing a few kinds of moves, and `Run` lists them once: a run of kind
`value` adds code that computes values, a run of kind `flow` adds statements, whose jumps may wait on the
blocks around them, and a run of kind `sections` adds the sections of a switch.  Code made in a container
of its own is listed with a `value` run until it is filed in a table of the program.

The constructs are shown to be runs in the modules below this one.  A property of generated code is then
proved by one induction over `Run`, and never looks at a construct again.
-/
import StackScript.Proofs.Filing
import StackScript.Proofs.Step

namespace StackScript

/-- Whether an operation only works on the stack: it is no jump, and neither a handler nor a switch
depends on it. -/
def Opcode.isPlain (op : Opcode) : Bool := !op.isJump && op != .popException && op != .switch

namespace ConstantPool

/-- A pool grows by the constants of literals and names. -/
inductive Grows (p : ConstantPool) : ConstantPool → Prop
  | refl : Grows p p
  | int {q : ConstantPool} (h : Grows p q) (v : Int64) : Grows p (q.addInt v).2
  | real {q : ConstantPool} (h : Grows p q) (text : List Char) : Grows p (q.addReal (readReal text)).2
  | string {q : ConstantPool} (h : Grows p q) (text : String) : Grows p (q.addString text).2
  | own {q : ConstantPool} (h : Grows p q) (text : String) : Grows p (q.addOwnString text).2

theorem Grows.trans {p q r : ConstantPool} (h : Grows p q) (h' : Grows q r) : Grows p r := by
  induction h' with
  | refl => exact h
  | int _ v ih => exact ih.int v
  | real _ text ih => exact ih.real text
  | string _ text ih => exact ih.string text
  | own _ text ih => exact ih.own text

end ConstantPool

/-- The entry of a table that an operand names is there. -/
def Operand.Exists (p : Program) : Operand → Prop
  | .none | .name _ => True
  | .switch id => id < p.switches.length
  | .foreach id => id < p.foreachs.length
  | .exception id => id < p.exceptions.length
  | .classLink id => id < p.classLinks.length
  | .closure id => id < p.closures.length

/-- The slot of a constant is there, or it is one of those that every program has. -/
def ConstantPool.HasSlot (p : ConstantPool) (slot : Nat) : Prop := slot ≤ falseSlot ∨ slot < p.size

/-- A move that changes neither code nor blocks: it reports something, sets the line, marks where a statement
starts or ends, or adds to tables that hold no code. -/
structure Quiet (s t : GenState) : Prop where
  code : t.code = s.code
  blocks : t.blocks = s.blocks
  left : t.left = s.left
  jumps : t.jumps = s.jumps
  filled : t.filled = s.filled
  statics : t.statics = s.statics
  reports : s.reports <+: t.reports
  constants : s.program.constants.Grows t.program.constants
  program : t.program = { s.program with
    constants := t.program.constants, foreachs := t.program.foreachs, classLinks := t.program.classLinks }
  foreachs : s.program.foreachs <+: t.program.foreachs
  classLinks : s.program.classLinks <+: t.program.classLinks
  boundaries : s.boundaries <+: t.boundaries

/-- The innermost block. -/
structure BlockStack.Innermost (bs : BlockStack) (id : Nat) (b : Block) : Prop where
  size : bs.blocks.size = id + 1
  block : bs.get? id = some b

/-- Something came of a run: an instruction or an error. -/
def Grown (s t : GenState) : Prop := s.code.size < t.code.size ∨ s.errors < t.errors

/-- A block in which a body is generated, and the jumps that are settled at the end of the body. -/
structure IsBody (b : Block) (op : Option Opcode) : Prop where
  first : b.first = 0
  pending : b.pending = []
  deferred : b.deferred = none
  tags : b.tags = [.guarded, .function] ∧ op = some .throw ∨ b.tags = [.exception, .guarded] ∧ op = none

/-- The blocks of constructs that jumps of their own wait on, and whether they defer `continue`. -/
inductive IsConstruct : List BlockTag → Option (List Nat) → Prop
  | conditional : IsConstruct [.conditional] none
  | loop : IsConstruct [.loop] none
  | deferring : IsConstruct [.loop] (some [])
  | switch : IsConstruct [.loop, .switch] none

/-- The jumps a construct makes on its own block. -/
inductive OwnJump : Block → Opcode → Prop
  | out {b : Block} (h : b.hasAny [.loop, .conditional] = true) : OwnJump b .jmpz
  | past {b : Block} (h : b.hasAny [.conditional] = true) : OwnJump b .jmp

open Gen

theorem Quiet.report {s : GenState} (line : Nat) (problem : Problem) : Quiet s (after (Gen.report line problem) s) :=
  ⟨rfl, rfl, rfl, rfl, rfl, rfl, List.prefix_append _ _, .refl, rfl, List.prefix_rfl, List.prefix_rfl, List.prefix_rfl⟩

/-- A block that has just been entered is the innermost one. -/
theorem innermost_enter (tags : List BlockTag) (first : Nat) (owner : BlockOwner)
    (deferred : Option (List Nat)) (s : GenState) :
    (after (enter tags first owner deferred) s).blocks.Innermost s.blocks.blocks.size
      { tags := tags, first := first, owner := owner, deferred := deferred } := by
  rw [after_enter]
  exact ⟨Array.size_push _, Array.getElem?_push_size⟩

/-- The end of a construct: the jumps that still wait on its block go to the next instruction. -/
def GenState.exitBlock (s : GenState) (id : Nat) : GenState :=
  after leave (after (settleContinue id) (after (settle id none) s))

/-- Nothing is reported or put away where a construct ends. -/
theorem GenState.errors_exitBlock (s : GenState) (id : Nat) : (s.exitBlock id).errors = s.errors := (rfl)

theorem GenState.errors_put (op : Opcode) (p1 : Int) (p2 : Nat) (p3 : Operand) (s : GenState) :
    (after (Gen.put op p1 p2 p3) s).errors = s.errors := (rfl)

/-- What a run adds. -/
inductive Kind where
  /-- Code that computes values, and code made on the side. -/
  | value (made : List Made)
  /-- Statements. -/
  | flow
  /-- The sections of a switch, which extend its table. -/
  | sections (before after : SwitchTable)

/-- The runs of code generation. -/
inductive Run : Kind → GenState → GenState → Prop
  | refl (s : GenState) : Run (.value []) s s
  | trans {made made' : List Made} {s t u : GenState} (h : Run (.value made) s t)
      (h' : Run (.value made') t u) : Run (.value (made ++ made')) s u
  | quiet {s t : GenState} (h : Quiet s t) : Run (.value []) s t
  | put (s : GenState) {op : Opcode} (hop : op.isPlain = true) (p1 : Int) (p2 : Nat) (p3 : Operand)
      (hslot : op = .loadc → s.program.constants.HasSlot p2) (hp3 : p3.Exists s.program) :
      Run (.value []) s (after (put op p1 p2 p3) s)
  /-- An operator replaces the last instruction of what its operands have come to. -/
  | rewrite {made : List Made} {s t : GenState} (h : Run (.value made) s t) (hg : Grown s t)
      {last : Instruction} (hlast : t.code.back? = some last) {op : Opcode} (hop : op.isPlain = true)
      (p1 : Int) (p2 : Nat) (p3 : Operand) (hslot : op ≠ .loadc) (hp3 : p3 = .none ∨ p3 = last.p3) :
      Run (.value made) s (after (Gen.put op p1 p2 p3) (after takeBack t))
  | mark {made : List Made} {s t : GenState} (h : Run (.value made) s t) (hg : Grown s t) :
      Run (.value made) s (after markCallee t)
  /-- Code that is skipped when the value in front of it decides. -/
  | skip {made : List Made} {s t : GenState} {jump : Opcode} (hj : jump = .jmpz ∨ jump = .jmpnz)
      (h : Run (.value made) (after (emit jump 1 0 .none) s) t) :
      Run (.value made) s (after (landHere s.code.size) t)
  /-- Code of which one half is skipped. -/
  | choose {made made' : List Made} {s t u : GenState}
      (h : Run (.value made) (after (emit .jmpz 0 0 .none) s) t)
      (h' : Run (.value made') (after (landHere s.code.size) (after (emit .jmp 0 0 .none) t)) u) :
      Run (.value (made ++ made')) s (after (landHere t.code.size) u)
  | discard {made : List Made} {s t : GenState} (h : Run (.value made) s t) :
      Run (.value made) s { t with buffer := { t.buffer with code := t.code.take s.code.size } }
  | thunk {made : List Made} {s t : GenState} (p1 : Int)
      (h : Run (.value made) (after openContainer s) t) :
      Run (.value (made ++ [.thunk (after (Gen.put .done p1 1 .none) t).code])) s
        (after (closeContainer s.container) (after (Gen.put .done p1 1 .none) t))
  /-- Statements in a container of their own, inside a block they cannot jump out of. -/
  | body {s t : GenState} {id : Nat} {b : Block} {op : Option Opcode} (hb : s.blocks.Innermost id b)
      (hop : IsBody b op) (h : Run .flow (after openContainer s) t) :
      Run (.value [.body (after (Gen.put .done 0 0 .none) (after (Gen.settle id op) t)).code]) s
        (after (closeContainer s.container) (after (Gen.put .done 0 0 .none) (after (Gen.settle id op) t)))
  /-- The static variables of a function are collected while its body is generated. -/
  | statics {made : List Made} {s t : GenState}
      (h : Run (.value made) { s with statics := [] :: s.statics } t) :
      Run (.value (made ++ (t.statics.headD []).map fun v => .thunk v.init)) s
        { t with statics := t.statics.tail }
  | static {made : List Made} {s t : GenState} (h : Run (.value made) s t) {v : StaticVar}
      (hv : made = [.thunk v.init] ∨ made = [] ∧ v.init = #[]) {frame : List StaticVar}
      {frames : List (List StaticVar)} (hs : t.statics = frame :: frames) :
      Run (.value []) s { t with statics := (frame ++ [v]) :: frames }
  | owned {made : List Made} {s t : GenState} (tags : List BlockTag) (first : Nat) (owner : BlockOwner)
      (h : Run (.value made) (after (enter tags first owner none) s) t) :
      Run (.value made) s (after leave t)
  | file {made : List Made} {s t : GenState} {q : Program} (h : Run (.value made) s t)
      (hq : Files made t.program q) : Run (.value []) s { t with program := q }
  /-- Code is lost only with an error. -/
  | lost {made : List Made} {s t : GenState} (h : Run (.value made) s t) (line : Nat) {problem : Problem}
      (hp : problem.severity = .error) : Run (.value []) s (after (report line problem) t)
  | value {s t : GenState} (h : Run (.value []) s t) : Run .flow s t
  | seq {s t u : GenState} (h : Run .flow s t) (h' : Run .flow t u) : Run .flow s u
  | wait {s : GenState} {id : Nat} {b : Block} (hb : s.blocks.Innermost id b) {op : Opcode}
      (hop : OwnJump b op) : Run .flow s (after (await id op .none) s)
  /-- A `break` or `continue`. -/
  | leap {s : GenState} {b : Block} {id level : Nat} (jump : LoopJump)
      (hid : s.blocks.enclosing? [.loop] level = some id) (hb : s.blocks.get? id = some b) :
      Run .flow s (after (jumpOn jump id b) (after (recordJump id) s))
  | throw (s : GenState) :
      Run .flow s (after (await (s.blocks.nearest [.exception, .function]) .throw .none) s)
  /-- The next branch of a conditional starts here. -/
  | settle {s : GenState} {id : Nat} {b : Block} (hb : s.blocks.Innermost id b) :
      Run .flow s (after (Gen.settle id (some .jmpz)) s)
  /-- The place where `continue` goes is here. -/
  | settleContinue {s : GenState} {id : Nat} {b : Block} (hb : s.blocks.Innermost id b) :
      Run .flow s (after (Gen.settleContinue id) s)
  | block {s t : GenState} {tags : List BlockTag} {deferred : Option (List Nat)}
      (ht : IsConstruct tags deferred)
      (h : Run .flow (after (enter tags s.code.size .none deferred) s) t) :
      Run .flow s (t.exitBlock s.blocks.blocks.size)
  /-- A construct that ends with a jump back to its start. -/
  | loop {s t : GenState} {back : Opcode} (hback : back = .jmp ∨ back = .jmpnz)
      {deferred : Option (List Nat)} (ht : IsConstruct [.loop] deferred)
      (h : Run .flow (after (enter [.loop] s.code.size .none deferred) s) t) :
      Run .flow s ((after (Gen.put back 0 s.code.size .none) t).exitBlock s.blocks.blocks.size)
  /-- A loop over a source. -/
  | each {s t u : GenState} {p3 : Operand} (hp3 : p3.Exists t.program)
      (h : Run (.value []) (after (enter [.loop] s.code.size .none none) s) t)
      (h' : Run .flow (after (await s.blocks.blocks.size .foreachStep p3)
        (after (restartHere s.blocks.blocks.size)
          (after (await s.blocks.blocks.size .foreachInit p3) t))) u) :
      Run .flow s
        ((after (Gen.put .jmp 0 (t.code.size + 1) .none) u).exitBlock s.blocks.blocks.size)
  | braces {s t : GenState} (h : Run .flow (after (enter [.braces] s.code.size .none none) s) t) :
      Run .flow s (after leave t)
  | try_ {s t : GenState}
      (h : Run .flow (after (await s.blocks.blocks.size .loadException
        (.exception s.program.exceptions.length)) (after reserveException
          (after (enter [.exception] s.code.size .none none) s))) t) :
      Run .flow s (after leave (after (Gen.put .popException 0 0 (.exception s.program.exceptions.length))
        (after (Gen.settle s.blocks.blocks.size none) t)))
  | switch {s t u : GenState} {table : SwitchTable}
      (h : Run (.value []) (after (enter [.loop, .switch] s.code.size .none none) s) t)
      (h' : Run (.sections {} table)
        (after (Gen.put .switch 0 0 (.switch t.program.switches.length)) (after reserveSwitch t)) u) :
      Run .flow s ((after (fillSwitch t.program.switches.length { table with out := u.code.size }) u).exitBlock
        s.blocks.blocks.size)
  | aside (table : SwitchTable) {s t : GenState} (h : Run (.value []) s t) :
      Run (.sections table table) s t
  | join {a b c : SwitchTable} {s t u : GenState} (h : Run (.sections a b) s t)
      (h' : Run (.sections b c) t u) : Run (.sections a c) s u
  | case_ (table : SwitchTable) {s t u : GenState} {guard : Code} (h : Run (.value [.thunk guard]) s t)
      (h' : Run .flow t u) :
      Run (.sections table { table with cases := table.cases ++ [⟨guard, t.code.size⟩] }) s u
  | default_ (table : SwitchTable) {s t u : GenState} (h : Run (.value []) s t) (h' : Run .flow t u) :
      Run (.sections table { table with default? := table.default?.or (some t.code.size) }) s u

/-! ### Code and blocks keep their sizes -/

namespace BlockStack

/-- Filling in targets changes no other part of the code. -/
theorem size_foldl_patch {α : Type} (index : α → Nat) (target : Nat) (js : List α) (code : Code) :
    (js.foldl (fun code j => code.patch (index j) target) code).size = code.size := by
  induction js generalizing code with
  | nil => rfl
  | cons j js ih =>
      rw [List.foldl_cons, ih, Code.size_patch]

theorem size_settle (bs : BlockStack) (id : Nat) (op : Option Opcode) (target : Nat) (code : Code) :
    (bs.settle id op target code).2.2.size = code.size :=
  size_foldl_patch PendingJump.index target _ code

theorem size_settleContinue (bs : BlockStack) (id target : Nat) (code : Code) :
    (bs.settleContinue id target code).2.2.size = code.size :=
  size_foldl_patch (fun i => i) target _ code

end BlockStack

namespace Block

/-- What never changes about a block. -/
def shape (b : Block) : List BlockTag × BlockOwner × Bool := (b.tags, b.owner, b.deferred.isSome)

end Block

namespace BlockStack

/-- What never changes about the blocks. -/
def shapes (bs : BlockStack) : Array (List BlockTag × BlockOwner × Bool) := bs.blocks.map Block.shape

theorem shapes_modify (bs : BlockStack) (id : Nat) (f : Block → Block) (hf : ∀ b, (f b).shape = b.shape) :
    (bs.modify id f).shapes = bs.shapes := by
  unfold shapes modify
  apply Array.ext_getElem?
  intro i
  rw [Array.getElem?_map, Array.getElem?_map, Array.getElem?_modify]
  split
  · rw [Option.map_map]
    congr 1
    funext b
    exact hf b
  · rfl

theorem shapes_await (bs : BlockStack) (id : Nat) (op : Opcode) (i : Nat) :
    (bs.await id op i).shapes = bs.shapes := bs.shapes_modify id _ fun _ => rfl

theorem shapes_awaitContinue (bs : BlockStack) (id i : Nat) :
    (bs.awaitContinue id i).shapes = bs.shapes :=
  bs.shapes_modify id _ fun b => by simp [Block.shape]

theorem shapes_settle (bs : BlockStack) (id : Nat) (op : Option Opcode) (target : Nat) (code : Code) :
    (bs.settle id op target code).2.1.shapes = bs.shapes := bs.shapes_modify id _ fun _ => rfl

theorem shapes_settleContinue (bs : BlockStack) (id target : Nat) (code : Code) :
    (bs.settleContinue id target code).2.1.shapes = bs.shapes :=
  bs.shapes_modify id _ fun b => by simp [Block.shape]

/-- Stacks of one shape have innermost blocks of one shape. -/
theorem Innermost.congr {bs cs : BlockStack} {id : Nat} {b : Block} (hb : bs.Innermost id b)
    (h : cs.shapes = bs.shapes) : ∃ b', cs.Innermost id b' ∧ b'.shape = b.shape := by
  have hsize : cs.blocks.size = bs.blocks.size := by
    have := congrArg Array.size h
    simpa [shapes] using this
  have hget : (cs.get? id).map Block.shape = some b.shape := by
    have hid : cs.shapes[id]? = bs.shapes[id]? := by rw [h]
    simp only [shapes, Array.getElem?_map] at hid
    have hs : bs.blocks[id]? = some b := hb.block
    rw [hs] at hid
    exact hid
  obtain ⟨b', hb', hshape⟩ := Option.map_eq_some_iff.mp hget
  exact ⟨b', ⟨by rw [hsize, hb.size], hb'⟩, hshape⟩

/-- Leaving puts back the blocks from before entering. -/
theorem shapes_leave {bs cs : BlockStack} {b : Block} (hbs : 0 < bs.blocks.size)
    (h : cs.shapes = (BlockStack.mk (bs.blocks.push b)).shapes) : cs.leave.shapes = bs.shapes := by
  have hsize : cs.blocks.size = bs.blocks.size + 1 := by
    have := congrArg Array.size h
    simpa [shapes] using this
  unfold leave
  rw [if_neg (by omega)]
  have hpop := congrArg Array.pop h
  simpa [shapes, ← Array.map_pop] using hpop

end BlockStack

/-- What every run leaves as it is: reports stay, code never gets shorter, the blocks around it keep their
shapes and the tables of catch clauses their numbers. -/
structure Frame (s t : GenState) : Prop where
  reports : s.reports <+: t.reports
  grows : s.code.size ≤ t.code.size
  shapes : 0 < s.blocks.blocks.size → t.blocks.shapes = s.blocks.shapes
  exceptions : s.program.exceptions.length ≤ t.program.exceptions.length

namespace Frame

variable {s t u : GenState}

theorem size (h : Frame s t) (hs : 0 < s.blocks.blocks.size) : t.blocks.blocks.size = s.blocks.blocks.size := by
  have := congrArg Array.size (h.shapes hs)
  simpa [BlockStack.shapes] using this

theorem trans (h : Frame s t) (h' : Frame t u) : Frame s u where
  reports := h.reports.trans h'.reports
  grows := Nat.le_trans h.grows h'.grows
  shapes := by
    intro hs
    have ht := h.shapes hs
    have hsize := h.size hs
    rw [h'.shapes (by omega), ht]
  exceptions := Nat.le_trans h.exceptions h'.exceptions

/-- A step that touches nothing but what a frame does not mention. -/
theorem same (hr : t.reports = s.reports) (hc : s.code.size ≤ t.code.size)
    (hb : t.blocks.shapes = s.blocks.shapes) (he : t.program.exceptions = s.program.exceptions) :
    Frame s t :=
  ⟨by simp [hr], hc, fun _ => hb, Nat.le_of_eq (by rw [he])⟩

theorem put (op : Opcode) (p1 : Int) (p2 : Nat) (p3 : Operand) : Frame s (after (put op p1 p2 p3) s) :=
  same rfl (by simp [after_put]) rfl rfl

/-- Replacing the last instruction keeps the length. -/
theorem rewrite (op : Opcode) (p1 : Int) (p2 : Nat) (p3 : Operand) :
    Frame s (after (Gen.put op p1 p2 p3) (after takeBack s)) := by
  refine same rfl ?_ rfl rfl
  rw [after_put, after_takeBack, Array.size_push, Array.size_pop]
  omega

theorem mark : Frame s (after markCallee s) :=
  same rfl (by simp [markCallee, after_modifyLast]) rfl rfl

theorem landHere (i : Nat) : Frame s (after (landHere i) s) :=
  same rfl (Nat.le_of_eq (Code.size_patch ..).symm) rfl rfl

theorem await (id : Nat) (op : Opcode) (p3 : Operand) : Frame s (after (await id op p3) s) :=
  same rfl (by simp [after_await]) (s.blocks.shapes_await id op _) rfl

theorem awaitContinue (id : Nat) : Frame s (after (awaitContinue id) s) :=
  same rfl (by simp [after_awaitContinue]) (BlockStack.shapes_awaitContinue ..) rfl

theorem recordJump (id : Nat) : Frame s (after (recordJump id) s) := same rfl (Nat.le_refl _) rfl rfl

/-- A `break` or `continue` waits, or goes back. -/
theorem jumpOn (jump : LoopJump) (id : Nat) (b : Block) : Frame s (after (jumpOn jump id b) s) := by
  unfold Gen.jumpOn
  split
  · exact await _ _ _
  · split
    · exact awaitContinue _
    · exact put _ _ _ _

theorem settle (id : Nat) (op : Option Opcode) : Frame s (after (settle id op) s) := by
  rw [after_settle]
  exact same rfl (Nat.le_of_eq (s.blocks.size_settle ..).symm)
    (s.blocks.shapes_settle id op s.code.size s.code) rfl

theorem settleContinue (id : Nat) : Frame s (after (settleContinue id) s) := by
  rw [after_settleContinue]
  exact same rfl (Nat.le_of_eq (s.blocks.size_settleContinue ..).symm)
    (s.blocks.shapes_settleContinue id s.code.size s.code) rfl

theorem restartHere (id : Nat) : Frame s (after (restartHere id) s) :=
  same rfl (Nat.le_refl _) (BlockStack.shapes_modify _ _ _ fun _ => rfl) rfl

theorem reserveException : Frame s (after reserveException s) := by
  refine ⟨List.prefix_rfl, Nat.le_refl _, fun _ => rfl, ?_⟩
  rw [after_reserveException, List.length_append]
  exact Nat.le_add_right _ _

theorem reserveSwitch : Frame s (after reserveSwitch s) := same rfl (Nat.le_refl _) rfl rfl

theorem fillSwitch (id : Nat) (table : SwitchTable) : Frame s (after (fillSwitch id table) s) :=
  same rfl (Nat.le_refl _) rfl rfl

/-- A block that is entered and left again. -/
theorem inside {tags : List BlockTag} {first : Nat} {owner : BlockOwner} {deferred : Option (List Nat)}
    (h : Frame (after (enter tags first owner deferred) s) t) : Frame s (after leave t) where
  reports := h.reports
  grows := h.grows
  shapes := by
    intro hs
    refine BlockStack.shapes_leave hs (h.shapes ?_)
    rw [after_enter, Array.size_push]
    exact Nat.succ_pos _
  exceptions := h.exceptions

theorem exitBlock {tags : List BlockTag} {first id : Nat} {owner : BlockOwner}
    {deferred : Option (List Nat)} (h : Frame (after (enter tags first owner deferred) s) t) :
    Frame s (t.exitBlock id) :=
  inside ((h.trans (settle id none)).trans (settleContinue id))

/-- Code made on the side leaves the container around it as it was. -/
theorem aside (h : Frame (after openContainer s) t) : Frame s (after (closeContainer s.container) t) where
  reports := h.reports
  grows := Nat.le_refl _
  shapes := h.shapes
  exceptions := h.exceptions

end Frame

/-- A block is innermost again behind everything generated inside it. -/
theorem Frame.innermost {s t : GenState} {id : Nat} {b : Block} (h : Frame s t)
    (hb : s.blocks.Innermost id b) : ∃ b', t.blocks.Innermost id b' ∧ b'.shape = b.shape := by
  refine hb.congr (h.shapes ?_)
  rw [hb.size]
  exact Nat.succ_pos id

theorem Run.frame {k : Kind} {s t : GenState} (h : Run k s t) : Frame s t := by
  induction h with
  | refl s => exact Frame.same rfl (Nat.le_refl _) rfl rfl
  | trans _ _ ih ih' => exact ih.trans ih'
  | quiet h =>
      refine ⟨h.reports, Nat.le_of_eq (by rw [h.code]), fun _ => by rw [h.blocks], ?_⟩
      exact Nat.le_of_eq (congrArg (fun p : Program => p.exceptions.length) h.program).symm
  | put s _ p1 p2 p3 _ _ => exact Frame.put _ p1 p2 p3
  | rewrite _ _ _ _ p1 p2 p3 _ _ ih => exact ih.trans (Frame.rewrite _ p1 p2 p3)
  | mark _ _ ih => exact ih.trans Frame.mark
  | skip _ _ ih => exact ((Frame.put _ 1 0 .none).trans ih).trans (Frame.landHere _)
  | choose _ _ ih ih' =>
      have first := (Frame.put .jmpz 0 0 .none).trans ih
      have second := ((first.trans (Frame.put .jmp 0 0 .none)).trans (Frame.landHere _)).trans ih'
      exact second.trans (Frame.landHere _)
  | discard _ ih =>
      refine ⟨ih.reports, ?_, ih.shapes, ih.exceptions⟩
      have := ih.grows
      simp only [GenState.code, Array.take_eq_extract, Array.size_extract] at this ⊢
      omega
  | thunk _ _ ih => exact Frame.aside (ih.trans (Frame.put _ _ _ _))
  | body _ _ _ ih => exact Frame.aside ((ih.trans (Frame.settle _ _)).trans (Frame.put _ _ _ _))
  | statics _ ih => exact ⟨ih.reports, ih.grows, ih.shapes, ih.exceptions⟩
  | static _ _ _ ih => exact ⟨ih.reports, ih.grows, ih.shapes, ih.exceptions⟩
  | owned _ _ _ _ ih => exact ih.inside
  | file _ hq ih =>
      refine ⟨ih.reports, ih.grows, ih.shapes, ?_⟩
      rw [hq.exceptions]
      exact ih.exceptions
  | lost _ _ _ ih =>
      refine ih.trans ⟨?_, Nat.le_refl _, fun _ => rfl, Nat.le_refl _⟩
      exact List.prefix_append _ _
  | value _ ih => exact ih
  | seq _ _ ih ih' => exact ih.trans ih'
  | wait _ _ => exact Frame.await _ _ _
  | leap jump _ _ => exact (Frame.recordJump _).trans (Frame.jumpOn _ _ _)
  | throw s => exact Frame.await _ _ _
  | settle _ => exact Frame.settle _ _
  | settleContinue _ => exact Frame.settleContinue _
  | block _ _ ih => exact ih.exitBlock
  | loop _ _ _ ih => exact (ih.trans (Frame.put _ _ _ _)).exitBlock
  | @each _ _ _ p3 _ _ _ ih ih' =>
      have head := (((ih.trans (Frame.await _ .foreachInit p3)).trans (Frame.restartHere _)).trans
        (Frame.await _ .foreachStep p3)).trans ih'
      exact (head.trans (Frame.put _ _ _ _)).exitBlock
  | braces _ ih => exact ih.inside
  | try_ _ ih =>
      have body := (Frame.reserveException.trans (Frame.await _ _ _)).trans ih
      exact ((body.trans (Frame.settle _ none)).trans (Frame.put _ _ _ _)).inside
  | switch _ _ ih ih' =>
      have head := ((ih.trans Frame.reserveSwitch).trans (Frame.put _ _ _ _)).trans ih'
      exact (head.trans (Frame.fillSwitch _ _)).exitBlock
  | aside _ _ ih => exact ih
  | join _ _ ih ih' => exact ih.trans ih'
  | case_ _ _ _ ih ih' => exact ih.trans ih'
  | default_ _ _ _ ih ih' => exact ih.trans ih'

end StackScript
