/-
What instructions refer to is there.

A number is handed out before its entry is complete, targets are filled in behind the code, and after an
error an operator may take over what another instruction referred to.  Still no reference dangles: tables
only grow, a target is only ever filled into a jump, so no constant is lost, and what an operator takes
over was a reference already.  `Cites` says this of code that computes values and `Directs` of
statements; `Directs` also follows the switches, whose tables are known once they have been filled in.
-/
import StackScript.Proofs.Evaluation
import StackScript.Proofs.Handlers
import StackScript.Proofs.Kept
import StackScript.Proofs.Origin

namespace StackScript

open Gen

theorem ConstantPool.Grows.size_le {p q : ConstantPool} (h : p.Grows q) : p.size ≤ q.size := by
  apply Nat.le_of_not_lt
  intro hlt
  have hsome : p.get? q.size = some (p.slots[q.size].value) := by
    simp [ConstantPool.get?, Array.getElem?_eq_getElem hlt]
  have hnone : q.get? q.size = none := by
    simp [ConstantPool.get?, ConstantPool.size]
  rw [h.get? hsome] at hnone
  cases hnone

/-- What an instruction refers to is there. -/
structure Instruction.Refers (q : Program) (x : Instruction) : Prop where
  slot : x.op = .loadc → x.p2 < q.constants.size
  entry : x.p3.Exists q

/-- What the instructions of some code refer to is there. -/
def Refers (q : Program) (code : Code) : Prop := ∀ (i : Nat) (x : Instruction), code[i]? = some x → x.Refers q

theorem Refers.push {q : Program} {code : Code} (h : Refers q code) {x : Instruction} (hx : x.Refers q) :
    Refers q (code.push x) := by
  intro i y hy
  rw [Array.getElem?_push] at hy
  split at hy
  · cases hy
    exact hx
  · exact h i y hy

/-- A slot that is there when an instruction loads it. -/
theorem ConstantPool.HasSlot.lt {p q : ConstantPool} {slot : Nat} (h : p.HasSlot slot) (hpq : p.Grows q)
    (hq : falseSlot < q.size) : slot < q.size := by
  have := hpq.size_le
  rcases h with h | h <;> omega

/-- Loads and switches, which must not be confused with anything else. -/
def Opcode.isCited (op : Opcode) : Bool := op == .loadc || op == .switch

variable {q : Program}

/-! ### Code that computes values -/

variable (q) in
/-- Code that computes values refers to what is there.  Among what was there before, nothing has become a
load or a switch that was none, and what was added holds no switch. -/
structure Cites (s t : GenState) : Prop where
  refers : Refers q s.code → Refers q t.code
  old : ∀ (i : Nat) (x : Instruction), i < s.code.size → t.code[i]? = some x → x.op.isCited = true →
    ∃ y, s.code[i]? = some y ∧ y.op = x.op ∧ y.p3 = x.p3
  fresh : ∀ (i : Nat) (x : Instruction), s.code.size ≤ i → t.code[i]? = some x → x.op ≠ .switch

namespace Cites

variable {s t u : GenState}

theorem same (hc : t.code = s.code) : Cites q s t where
  refers := by
    rw [hc]
    exact id
  old := by
    intro i x _ hx _
    exact ⟨x, hc ▸ hx, rfl, rfl⟩
  fresh := by
    intro i x hi hx
    rw [hc, Array.getElem?_eq_none hi] at hx
    cases hx

theorem trans (h : Cites q s t) (h' : Cites q t u) (hst : Frame s t) : Cites q s u where
  refers := fun hs => h'.refers (h.refers hs)
  old := by
    intro i x hi hx hcited
    obtain ⟨y, hy, hop, hp3⟩ := h'.old i x (Nat.lt_of_lt_of_le hi hst.grows) hx hcited
    obtain ⟨z, hz, hop', hp3'⟩ := h.old i y hi hy (by rw [hop]; exact hcited)
    exact ⟨z, hz, hop'.trans hop, hp3'.trans hp3⟩
  fresh := by
    intro i x hi hx hswitch
    by_cases hlt : i < t.code.size
    · obtain ⟨y, hy, hop, -⟩ := h'.old i x hlt hx (by simp [Opcode.isCited, hswitch])
      exact h.fresh i y hi hy (hop.trans hswitch)
    · exact h'.fresh i x (Nat.le_of_not_lt hlt) hx hswitch

theorem push {x : Instruction} (hx : x.Refers q) (hswitch : x.op ≠ .switch) (hc : t.code = s.code.push x) :
    Cites q s t where
  refers := by
    rw [hc]
    exact fun hs => hs.push hx
  old := by
    intro i y hi hy _
    rw [hc, (Extends.push s.code x).kept i hi] at hy
    exact ⟨y, hy, rfl, rfl⟩
  fresh := by
    intro i y hi hy
    rw [hc, Array.getElem?_push] at hy
    split at hy
    · cases hy
      exact hswitch
    · rw [Array.getElem?_eq_none hi] at hy
      cases hy

/-- Instructions that have changed in their places are no switches, and loads only if they were. -/
theorem revise (h : Cites q s t)
    (hcode : ∀ (i : Nat) (x : Instruction), u.code[i]? = some x → t.code[i]? = some x ∨
      (Refers q t.code → x.Refers q) ∧
        (x.op.isCited = true → ∃ y, t.code[i]? = some y ∧ y.op = x.op ∧ y.p3 = x.p3)) : Cites q s u where
  refers := by
    intro hs i x hx
    rcases hcode i x hx with hx | ⟨hx, -⟩
    · exact h.refers hs i x hx
    · exact hx (h.refers hs)
  old := by
    intro i x hi hx hcited
    rcases hcode i x hx with hx | ⟨-, hx⟩
    · exact h.old i x hi hx hcited
    · obtain ⟨y, hy, hop, hp3⟩ := hx hcited
      obtain ⟨z, hz, hop', hp3'⟩ := h.old i y hi hy (by rw [hop]; exact hcited)
      exact ⟨z, hz, hop'.trans hop, hp3'.trans hp3⟩
  fresh := by
    intro i x hi hx hswitch
    rcases hcode i x hx with hx | ⟨-, hx⟩
    · exact h.fresh i x hi hx hswitch
    · obtain ⟨y, hy, hop, -⟩ := hx (by simp [Opcode.isCited, hswitch])
      exact h.fresh i y hi hy (hop.trans hswitch)

theorem rewrite (h : Cites q s t) {last : Instruction} (hlast : t.code.back? = some last) {op : Opcode}
    (hop : op.isPlain = true) (p1 : Int) (p2 : Nat) {p3 : Operand} (hslot : op ≠ .loadc)
    (hp3 : p3 = .none ∨ p3 = last.p3) : Cites q s (after (Gen.put op p1 p2 p3) (after takeBack t)) := by
  refine h.revise fun i x hx => ?_
  rw [after_put, after_takeBack] at hx
  have hx' : (t.code.pop.push _)[i]? = some x := hx
  rw [Array.getElem?_push] at hx'
  split at hx'
  · cases hx'
    refine .inr ⟨fun ht => ⟨fun hload => absurd hload hslot, ?_⟩, fun hcited => ?_⟩
    · rcases hp3 with rfl | rfl
      · trivial
      · rw [Array.back?_eq_getElem?] at hlast
        exact (ht _ last hlast).entry
    · have hswitch : op ≠ .switch := by
        rintro rfl
        cases hop
      simp [Opcode.isCited, hslot, hswitch] at hcited
  · rw [Array.getElem?_pop] at hx'
    split at hx'
    · exact .inl hx'
    · cases hx'

theorem mark (h : Cites q s t) : Cites q s (after markCallee t) := by
  refine h.revise fun i x hx => ?_
  unfold markCallee at hx
  rw [after_modifyLast] at hx
  have hx' : (t.code.modify _ _)[i]? = some x := hx
  rw [Array.getElem?_modify] at hx'
  split at hx'
  · obtain ⟨y, hy, rfl⟩ := Option.map_eq_some_iff.mp hx'
    refine .inr ⟨fun ht => ?_, fun _ => ⟨y, hy, ?_, ?_⟩⟩
    · have refers := ht i y hy
      -- A name stays the constant it was; members and objects are none.
      split
      · exact ⟨refers.slot, refers.entry⟩
      · rename_i hop
        exact ⟨fun hload => by simp [hop] at hload, refers.entry⟩
      · rename_i hop
        exact ⟨fun hload => by simp [hop] at hload, refers.entry⟩
      · exact refers
    · split <;> rfl
    · split <;> rfl
  · exact .inl hx'

/-- A jump among what was added is filled in. -/
theorem land (h : Cites q s t) {i : Nat}
    (hi : ∀ x, t.code[i]? = some x → x.op.isCited = false) : Cites q s (after (landHere i) t) := by
  refine h.revise fun k x hx => ?_
  rw [after_landHere] at hx
  have hx' : (t.code.patch i t.code.size)[k]? = some x := hx
  rw [Code.getElem?_patch] at hx'
  split at hx'
  · rename_i hik
    subst hik
    obtain ⟨y, hy, rfl⟩ := Option.map_eq_some_iff.mp hx'
    have hcited := hi y hy
    refine .inr ⟨fun ht => ⟨fun hload => ?_, (ht i y hy).entry⟩, fun hc => ?_⟩
    · have hop : y.op = .loadc := hload
      simp [Opcode.isCited, hop] at hcited
    · rw [hcited] at hc
      cases hc
  · exact .inl hx'

/-- What was neither a load nor a switch has become none. -/
theorem uncited (h : Cites q s t) {i : Nat} {y : Instruction} (hy : s.code[i]? = some y)
    (hop : y.op.isCited = false) {x : Instruction} (hx : t.code[i]? = some x) : x.op.isCited = false := by
  cases hcited : x.op.isCited with
  | false => rfl
  | true =>
      obtain ⟨z, hz, hzop, -⟩ := h.old i x (Array.getElem?_eq_some_iff.mp hy).1 hx hcited
      rw [hy] at hz
      cases hz
      rw [hzop, hcited] at hop
      cases hop

theorem discard (h : Cites q s t) :
    Cites q s { t with buffer := { t.buffer with code := t.code.take s.code.size } } := by
  refine h.revise fun i x hx => .inl ?_
  have hx' : (t.code.take s.code.size)[i]? = some x := hx
  rw [Array.take_eq_extract, Array.getElem?_extract, Nat.zero_add] at hx'
  split at hx'
  · exact hx'
  · cases hx'

theorem emit (jump : Opcode) (hj : jump.isCited = false) (p1 : Int) :
    Cites q s (after (emit jump p1 0 .none) s) := by
  simp only [Opcode.isCited, Bool.or_eq_false_iff, beq_eq_false_iff_ne] at hj
  refine push (x := ⟨jump, p1, 0, .none, s.buffer.line⟩) ⟨fun hload => absurd hload hj.1, trivial⟩ hj.2 rfl

/-- Code that is skipped when the value in front of it decides. -/
theorem skip {jump : Opcode} (hjump : jump.isCited = false) (h : Cites q (after (Gen.emit jump 1 0 .none) s) t) :
    Cites q s (after (landHere s.code.size) t) :=
  ((emit jump hjump 1).trans h (.put jump 1 0 .none)).land fun _ hx => h.uncited Array.getElem?_push_size hjump hx

/-- Code of which one half is skipped. -/
theorem choose (h : Cites q (after (Gen.emit .jmpz 0 0 .none) s) t) (hf : Frame (after (Gen.emit .jmpz 0 0 .none) s) t)
    (h' : Cites q (after (landHere s.code.size) (after (Gen.emit .jmp 0 0 .none) t)) u) :
    Cites q s (after (landHere t.code.size) u) := by
  have hyes : Frame s t := (Frame.put .jmpz 0 0 .none).trans hf
  have hlt : s.code.size < t.code.size := by
    have := hf.grows
    simp only [after_emit, GenState.code, Array.size_push] at this ⊢
    omega
  have test : ∀ x, (after (Gen.emit .jmp 0 0 .none) t).code[s.code.size]? = some x → x.op.isCited = false := by
    intro x hx
    have hx' : (t.code.push _)[s.code.size]? = some x := hx
    rw [(Extends.push t.code _).kept _ hlt] at hx'
    exact h.uncited Array.getElem?_push_size rfl hx'
  have first := ((emit .jmpz rfl 0).trans h (.put .jmpz 0 0 .none)).trans (emit .jmp rfl 0) hyes
  have landed : Frame s (after (landHere s.code.size) (after (Gen.emit .jmp 0 0 .none) t)) :=
    (hyes.trans (.put .jmp 0 0 .none)).trans (.landHere _)
  refine ((first.land test).trans h' landed).land fun x hx => ?_
  refine h'.uncited (y := ⟨.jmp, 0, 0, .none, t.buffer.line⟩) ?_ rfl hx
  rw [after_landHere]
  exact Code.getElem?_patch_push (Nat.ne_of_lt hlt) _ _

end Cites

/-! ### Statements -/

/-- What waits on a block that can be seen is no load. -/
def Sited (s : GenState) : Prop :=
  ∀ id b, s.blocks.get? id = some b → ¬s.blocks.Hides id → ∀ i, b.Pends i →
    ∃ x, s.code[i]? = some x ∧ x.op ≠ .loadc

/-- The table of a switch is there, and its targets are no further than a limit. -/
def Instruction.Switches (q : Program) (limit : Nat) (x : Instruction) : Prop :=
  ∃ id table, x.p3 = .switch id ∧ q.switches[id]? = some table ∧ ∀ n ∈ table.targets, n ≤ limit

variable (q) in
/-- Statements refer to what is there, and fill no target into a load. -/
structure Directs (s t : GenState) : Prop where
  frame : Frame s t
  refers : Refers q s.code → Refers q t.code
  old : ∀ (i : Nat) (x : Instruction), i < s.code.size → t.code[i]? = some x → x.op.isCited = true →
    ∃ y, s.code[i]? = some y ∧ y.op = x.op ∧ y.p3 = x.p3
  fresh : ∀ (i : Nat) (x : Instruction), s.code.size ≤ i → t.code[i]? = some x → x.op = .switch →
    x.Switches q t.code.size
  sited : Sited t

theorem Instruction.Switches.congr {x y : Instruction} {m n : Nat} (h : y.Switches q m) (hp3 : y.p3 = x.p3)
    (hmn : m ≤ n) : x.Switches q n := by
  obtain ⟨id, table, hid, htable, hn⟩ := h
  exact ⟨id, table, hp3 ▸ hid, htable, fun k hk => Nat.le_trans (hn k hk) hmn⟩

/-- Blocks that keep their places, with no more waiting on them than jumps of the code. -/
theorem Sited.of {s t : GenState} (h : Sited s) (hshapes : t.blocks.shapes = s.blocks.shapes)
    (hcode : ∀ (i : Nat) (x : Instruction), s.code[i]? = some x → x.op ≠ .loadc →
      ∃ y, t.code[i]? = some y ∧ y.op ≠ .loadc)
    (hpends : ∀ id b c, s.blocks.get? id = some b → t.blocks.get? id = some c → ∀ i, c.Pends i →
      b.Pends i ∨ ∃ y, t.code[i]? = some y ∧ y.op ≠ .loadc) : Sited t := by
  intro id c hc hseen i hi
  obtain ⟨b, hb, -⟩ := BlockStack.get?_congr hshapes.symm hc
  rcases hpends id b c hb hc i hi with hi | hi
  · obtain ⟨x, hx, hop⟩ := h id b hb (fun hides => hseen (BlockStack.hides_congr hshapes hides)) i hi
    exact hcode i x hx hop
  · exact hi

namespace Directs

variable {s t u : GenState} {id : Nat} {b : Block}

theorem trans (h : Directs q s t) (h' : Directs q t u) : Directs q s u where
  frame := h.frame.trans h'.frame
  refers := fun hs => h'.refers (h.refers hs)
  old := by
    intro i x hi hx hcited
    obtain ⟨y, hy, hop, hp3⟩ := h'.old i x (Nat.lt_of_lt_of_le hi h.frame.grows) hx hcited
    obtain ⟨z, hz, hop', hp3'⟩ := h.old i y hi hy (by rw [hop]; exact hcited)
    exact ⟨z, hz, hop'.trans hop, hp3'.trans hp3⟩
  fresh := by
    intro i x hi hx hswitch
    by_cases hlt : i < t.code.size
    · obtain ⟨y, hy, hop, hp3⟩ := h'.old i x hlt hx (by simp [Opcode.isCited, hswitch])
      exact (h.fresh i y hi hy (hop.trans hswitch)).congr hp3 h'.frame.grows
    · exact h'.fresh i x (Nat.le_of_not_lt hlt) hx hswitch
  sited := h'.sited

/-- Code that computes values may follow anywhere. -/
theorem value (hs : Sited s) (h : Cites q s t) (hf : Frame s t) (hb : t.blocks = s.blocks) : Directs q s t where
  frame := hf
  refers := h.refers
  old := h.old
  fresh := fun i x hi hx hswitch => absurd hswitch (h.fresh i x hi hx)
  sited := by
    refine hs.of (by rw [hb]) (fun i x hx hop => ?_) fun id b c hb' hc i hi => ?_
    · have hlt := (Array.getElem?_eq_some_iff.mp hx).1
      have hlt' : i < t.code.size := Nat.lt_of_lt_of_le hlt hf.grows
      refine ⟨t.code[i], Array.getElem?_eq_getElem hlt', fun hload => hop ?_⟩
      obtain ⟨y, hy, hyop, -⟩ := h.old i _ hlt (Array.getElem?_eq_getElem hlt') (by simp [Opcode.isCited, hload])
      rw [hx] at hy
      cases hy
      exact hyop.trans hload
    · rw [hb, hb'] at hc
      cases hc
      exact .inl hi

/-- A step that adds instructions, none of which is a switch, and fills in targets of no loads. -/
theorem step (hf : Frame s t) (ht : Sited t)
    (hcode : ∀ (i : Nat) (x : Instruction), t.code[i]? = some x →
      (∃ y, s.code[i]? = some y ∧ y.op = x.op ∧ y.p3 = x.p3 ∧ (x.op = .loadc → y.p2 = x.p2)) ∨
      s.code.size ≤ i ∧ x.Refers q ∧ x.op ≠ .switch) : Directs q s t where
  frame := hf
  refers := by
    intro hs i x hx
    rcases hcode i x hx with ⟨y, hy, hop, hp3, hp2⟩ | ⟨-, hx, -⟩
    · have refers := hs i y hy
      refine ⟨fun hload => ?_, hp3 ▸ refers.entry⟩
      rw [← hp2 hload]
      exact refers.slot (hop.trans hload)
    · exact hx
  old := by
    intro i x hi hx _
    rcases hcode i x hx with ⟨y, hy, hop, hp3, -⟩ | ⟨hle, -⟩
    · exact ⟨y, hy, hop, hp3⟩
    · omega
  fresh := by
    intro i x hi hx hswitch
    rcases hcode i x hx with ⟨y, hy, -⟩ | ⟨-, -, hne⟩
    · rw [Array.getElem?_eq_none hi] at hy
      cases hy
    · exact absurd hswitch hne
  sited := ht

/-- A step that adds one instruction. -/
theorem push {x : Instruction} (hf : Frame s t) (hc : t.code = s.code.push x) (ht : Sited t) (hx : x.Refers q)
    (hswitch : x.op ≠ .switch) : Directs q s t := by
  refine step hf ht fun i y hy => ?_
  rw [hc, Array.getElem?_push] at hy
  split at hy
  · rename_i hi
    cases hy
    exact .inr ⟨Nat.le_of_eq hi.symm, hx, hswitch⟩
  · exact .inl ⟨y, hy, rfl, rfl, fun _ => rfl⟩

/-- What stood in front of one more instruction still does. -/
theorem kept_push {x y : Instruction} {i : Nat} {code : Code} (hx : code[i]? = some x) (hop : x.op ≠ .loadc) :
    ∃ z, (code.push y)[i]? = some z ∧ z.op ≠ .loadc :=
  ⟨x, ((Extends.push code y).kept i (Array.getElem?_eq_some_iff.mp hx).1).trans hx, hop⟩

theorem sited_put (hs : Sited s) (op : Opcode) (p1 : Int) (p2 : Nat) (p3 : Operand) :
    Sited (after (Gen.put op p1 p2 p3) s) := by
  refine hs.of rfl (fun i x hx hop => kept_push hx hop) fun id b c hb hc i hi => ?_
  rw [after_put, hb] at hc
  cases hc
  exact .inl hi

theorem put (hs : Sited s) (op : Opcode) (p1 : Int) (p2 : Nat) (p3 : Operand) (hslot : op ≠ .loadc)
    (hp3 : p3.Exists q) (hswitch : op ≠ .switch) : Directs q s (after (put op p1 p2 p3) s) :=
  push (.put op p1 p2 p3) rfl (sited_put hs op p1 p2 p3) (x := ⟨op, p1, p2, p3, s.buffer.line⟩)
    ⟨fun h => absurd h hslot, hp3⟩ hswitch

theorem size_put (s : GenState) (op : Opcode) (p1 : Int) (p2 : Nat) (p3 : Operand) :
    (after (Gen.put op p1 p2 p3) s).code.size = s.code.size + 1 := Array.size_push _

/-- A switch with the sections behind it, when its table is known. -/
theorem dispatch {n : Nat} (h : Directs q (after (Gen.put .switch 0 0 (.switch n)) s) t)
    (hn : (Operand.switch n).Exists q) {table : SwitchTable} (htable : q.switches[n]? = some table)
    (htargets : ∀ k ∈ table.targets, k ≤ t.code.size) : Directs q s t where
  frame := (Frame.put .switch 0 0 (.switch n)).trans h.frame
  refers := fun hs => h.refers (hs.push ⟨fun hload => by simp at hload, hn⟩)
  old := by
    intro i x hi hx hcited
    obtain ⟨y, hy, hop, hp3⟩ := h.old i x (by rw [size_put]; omega) hx hcited
    have hy' : (s.code.push _)[i]? = some y := hy
    rw [(Extends.push s.code _).kept i hi] at hy'
    exact ⟨y, hy', hop, hp3⟩
  fresh := by
    intro i x hi hx hswitch
    by_cases hlt : s.code.size < i
    · exact h.fresh i x (by rw [size_put]; omega) hx hswitch
    · obtain rfl : i = s.code.size := by omega
      obtain ⟨y, hy, -, hp3⟩ := h.old s.code.size x (by rw [size_put]; omega) hx
        (by simp [Opcode.isCited, hswitch])
      have hy' : (s.code.push _)[s.code.size]? = some y := hy
      rw [Array.getElem?_push_size] at hy'
      cases hy'
      exact ⟨n, table, hp3.symm, htable, htargets⟩
  sited := h.sited

theorem await (hs : Sited s) (id : Nat) (op : Opcode) (p3 : Operand) (hslot : op ≠ .loadc)
    (hp3 : p3.Exists q) (hswitch : op ≠ .switch) : Directs q s (after (await id op p3) s) := by
  refine push (.await id op p3) rfl ?_ (x := ⟨op, 0, 0, p3, s.buffer.line⟩)
    ⟨fun h => absurd h hslot, hp3⟩ hswitch
  refine hs.of (s.blocks.shapes_await id op _) (fun i x hx hop => kept_push hx hop) fun k b c hb hc i hi => ?_
  have hc' : (s.blocks.modify id _).get? k = some c := hc
  rw [BlockStack.get?_modify, hb] at hc'
  split at hc'
  · cases hc'
    refine (Block.pends_await hi).imp_right ?_
    rintro rfl
    exact ⟨_, Array.getElem?_push_size, hslot⟩
  · cases hc'
    exact .inl hi

theorem awaitContinue (hs : Sited s) (id : Nat) : Directs q s (after (awaitContinue id) s) := by
  refine push ?_ rfl ?_ (x := ⟨.jmp, 0, 0, .none, s.buffer.line⟩) ⟨fun h => by simp at h, trivial⟩
    (by simp)
  · exact .awaitContinue id
  refine hs.of (s.blocks.shapes_awaitContinue id _) (fun i x hx hop => kept_push hx hop)
    fun k b c hb hc i hi => ?_
  have hc' : (s.blocks.modify id _).get? k = some c := hc
  rw [BlockStack.get?_modify, hb] at hc'
  split at hc'
  · cases hc'
    refine (Block.pends_awaitContinue hi).imp_right ?_
    rintro rfl
    exact ⟨_, Array.getElem?_push_size, by simp⟩
  · cases hc'
    exact .inl hi

/-- Filling in targets of what waits on a block that can be seen. -/
theorem fill {α : Type} (hs : Sited s) (hf : Frame s t) (index : α → Nat) (js : List α) (target : Nat)
    (hcode : t.code = js.foldl (fun code j => code.patch (index j) target) s.code)
    (hjs : ∀ j ∈ js, ∃ x, s.code[index j]? = some x ∧ x.op ≠ .loadc)
    (hshapes : t.blocks.shapes = s.blocks.shapes)
    (hpends : ∀ id b c, s.blocks.get? id = some b → t.blocks.get? id = some c → ∀ i, c.Pends i → b.Pends i) :
    Directs q s t := by
  have hget := getElem?_foldl_patch index target js s.code
  refine step hf (hs.of hshapes (fun i x hx hop => ?_) fun id b c hb hc i hi => .inl (hpends id b c hb hc i hi))
    fun i x hx => .inl ?_
  · rw [hcode, hget]
    split
    · exact ⟨{ x with p2 := target }, by rw [hx]; rfl, hop⟩
    · exact ⟨x, hx, hop⟩
  · rw [hcode, hget] at hx
    split at hx
    · rename_i hi
      obtain ⟨y, hy, rfl⟩ := Option.map_eq_some_iff.mp hx
      obtain ⟨j, hj, rfl⟩ := List.mem_map.mp hi
      obtain ⟨z, hz, hop⟩ := hjs j hj
      rw [hy] at hz
      cases hz
      exact ⟨y, hy, rfl, rfl, fun hload => absurd hload hop⟩
    · exact ⟨x, hx, rfl, rfl, fun _ => rfl⟩

theorem settle (hs : Sited s) (hseen : ¬s.blocks.Hides id) (op : Option Opcode) :
    Directs q s (after (settle id op) s) := by
  refine fill hs (.settle id op) PendingJump.index _ s.code.size rfl (fun j hj => ?_)
    (s.blocks.shapes_settle id op s.code.size s.code) fun k b c hb hc i hi => ?_
  · obtain ⟨b, hb, pends⟩ := BlockStack.exists_pending (List.mem_filter.mp hj).1
    exact hs id b hb hseen _ pends
  · have hc' : (s.blocks.modify id _).get? k = some c := hc
    rw [BlockStack.get?_modify, hb] at hc'
    split at hc'
    · cases hc'
      exact Block.pends_settle hi
    · cases hc'
      exact hi

theorem settleContinue (hs : Sited s) (hseen : ¬s.blocks.Hides id) :
    Directs q s (after (settleContinue id) s) := by
  refine fill hs (.settleContinue id) (fun i => i) _ s.code.size rfl (fun j hj => ?_)
    (s.blocks.shapes_settleContinue id s.code.size s.code) fun k b c hb hc i hi => ?_
  · obtain ⟨b, hb, pends⟩ := BlockStack.exists_deferred hj
    exact hs id b hb hseen _ pends
  · have hc' : (s.blocks.modify id _).get? k = some c := hc
    rw [BlockStack.get?_modify, hb] at hc'
    split at hc'
    · cases hc'
      exact Block.pends_settleContinue hi
    · cases hc'
      exact hi

/-- A step that changes neither code nor what waits. -/
theorem still (hs : Sited s) (hf : Frame s t) (hc : t.code = s.code) (hshapes : t.blocks.shapes = s.blocks.shapes)
    (hpends : ∀ id b c, s.blocks.get? id = some b → t.blocks.get? id = some c → ∀ i, c.Pends i → b.Pends i) :
    Directs q s t :=
  fill hs hf (fun i : Nat => i) [] 0 hc (fun j hj => by simp at hj) hshapes hpends

/-- A step that changes neither code nor blocks. -/
theorem same (hs : Sited s) (hf : Frame s t) (hc : t.code = s.code) (hb : t.blocks = s.blocks) : Directs q s t := by
  refine still hs hf hc (by rw [hb]) fun id b c hb' hc i hi => ?_
  rw [hb, hb'] at hc
  cases hc
  exact hi

theorem restartHere (hs : Sited s) (id : Nat) : Directs q s (after (restartHere id) s) := by
  refine still hs (.restartHere id) rfl (BlockStack.shapes_modify _ _ _ fun _ => rfl) fun k b c hb hc i hi => ?_
  have hc' : (s.blocks.modify id _).get? k = some c := hc
  rw [BlockStack.get?_modify, hb] at hc'
  split at hc' <;> cases hc' <;> exact hi

/-- A `break` or `continue` waits, or goes back. -/
theorem leap (hs : Sited s) (jump : LoopJump) (id : Nat) (b : Block) :
    Directs q s (after (jumpOn jump id b) (after (recordJump id) s)) := by
  have record : Directs q s (after (recordJump id) s) := same hs (.recordJump id) rfl rfl
  refine record.trans ?_
  unfold jumpOn
  split
  · exact await record.sited id .jmp .none (by decide) trivial (by decide)
  · split
    · exact awaitContinue record.sited id
    · exact put record.sited .jmp 0 _ .none (by decide) trivial (by decide)

/-- A loop over a source takes what the source has come to, and goes back behind that. -/
theorem iterate (h : Directs q s t) (id : Nat) {p3 : Operand} (hp3 : p3.Exists q) :
    Directs q s (after (Gen.await id .foreachStep p3) (after (Gen.restartHere id) (after (Gen.await id .foreachInit p3) t))) := by
  have init := h.trans (await h.sited id .foreachInit p3 (by decide) hp3 (by decide))
  have restart := init.trans (restartHere init.sited id)
  exact restart.trans (await restart.sited id .foreachStep p3 (by decide) hp3 (by decide))

/-- A protected body starts with the instruction that installs its handler. -/
theorem protect (hs : Sited s) (id : Nat) {p3 : Operand} (hp3 : p3.Exists q) :
    Directs q s (after (Gen.await id .loadException p3) (after reserveException s)) := by
  have reserve : Directs q s (after reserveException s) := same hs .reserveException rfl rfl
  exact reserve.trans (await reserve.sited id .loadException p3 (by decide) hp3 (by decide))

end Directs

/-! ### Statements inside a block of their own -/

section

variable {s t : GenState} {tags : List BlockTag} {first : Nat} {owner : BlockOwner}
  {deferred : Option (List Nat)}

theorem Sited.enter (h : Sited s) (tags : List BlockTag) (first : Nat) (owner : BlockOwner)
    (deferred : Option (List Nat)) (hd : deferred.getD [] = []) : Sited (after (enter tags first owner deferred) s) := by
  intro id b hb hseen i hi
  rw [after_enter, BlockStack.get?_push] at hb
  split at hb
  · cases hb
    rcases hi with ⟨j, hj, -⟩ | hi
    · simp at hj
    · simp [hd] at hi
  · exact h id b hb (fun hides => hseen (BlockStack.hides_push hides _)) i hi

/-- The block that was entered can be seen from inside. -/
theorem Directs.seen (h : Directs q (after (enter tags first owner deferred) s) t) :
    ¬t.blocks.Hides s.blocks.blocks.size := by
  obtain ⟨b, hb, -⟩ := h.frame.innermost (innermost_enter tags first owner deferred s)
  exact hb.reaches.not_hides

/-- Leaving a block that hid none of those around it. -/
theorem Directs.inside (h : Directs q (after (enter tags first owner deferred) s) t)
    (ht : tags.contains .guarded = false ∧ tags.contains .function = false) (hs : 0 < s.blocks.blocks.size) :
    Directs q s (after leave t) := by
  obtain ⟨b, hb, hshape⟩ := h.frame.innermost (innermost_enter tags first owner deferred s)
  have hsize := hb.size
  have hleave := BlockStack.get?_leave t.blocks (by omega)
  have htags : b.tags = tags := congrArg Prod.fst hshape
  refine ⟨h.frame.inside, h.refers, h.old, h.fresh, fun id c hc hseen i hi => ?_⟩
  rw [after_leave, hleave] at hc
  split at hc
  · refine h.sited id c hc ?_ i hi
    rintro ⟨k, d, hk, hd, hboundary, hany⟩
    by_cases hlast : k = s.blocks.blocks.size
    · rw [hlast, hb.block] at hd
      cases hd
      simp [Block.isBoundary, Block.hasAny, htags] at hboundary
      simp at ht
      exact hboundary.elim ht.1 ht.2
    · have hlt := (Array.getElem?_eq_some_iff.mp hd).1
      refine hseen ⟨k, d, hk, ?_, hboundary, hany⟩
      rw [after_leave, hleave, if_pos (by omega)]
      exact hd
  · cases hc

theorem Directs.exitBlock (h : Directs q (after (enter tags first owner deferred) s) t)
    (ht : tags.contains .guarded = false ∧ tags.contains .function = false) (hs : 0 < s.blocks.blocks.size) :
    Directs q s (t.exitBlock s.blocks.blocks.size) := by
  have settled := h.trans (.settle h.sited h.seen none)
  have continued := settled.trans (.settleContinue settled.sited settled.seen)
  exact continued.inside ht hs

end

/-- Nothing waits where a container of its own is started. -/
theorem sited_body {s : GenState} {id : Nat} {b : Block} {op : Option Opcode} (hb : s.blocks.Innermost id b)
    (hop : IsBody b op) : Sited (after openContainer s) := by
  intro k c hc hseen i hi
  rw [after_openContainer] at hc hseen
  have hsize := hb.size
  have hlt : k < s.blocks.blocks.size := (Array.getElem?_eq_some_iff.mp hc).1
  by_cases hk : k = id
  · subst hk
    rw [hb.block] at hc
    cases hc
    rcases hi with ⟨j, hj, -⟩ | hi
    · simp [hop.pending] at hj
    · simp [hop.deferred] at hi
  · refine absurd ⟨id, b, by omega, hb.block, hop.isBoundary, ?_⟩ hseen
    rcases hop.tags with ⟨htags, -⟩ | ⟨htags, -⟩ <;> simp [Block.hasAny, htags]

/-! ### A whole run -/

variable (q) in
/-- What a run of a kind refers to is there, in the program that comes of it. -/
def Referring : Kind → GenState → GenState → Prop
  | .value _, s, t => t.program.Precedes q → Cites q s t
  | .flow, s, t => t.program.Precedes q → Agrees q.switches s t → 0 < s.blocks.blocks.size → Sited s → Directs q s t
  | .sections before after, s, t => t.program.Precedes q → Agrees q.switches s t → 0 < s.blocks.blocks.size →
      Sited s → Directs q s t ∧ ∀ n ∈ after.starts, n ∈ before.starts ∨ n ≤ t.code.size

theorem Run.referring (hq : ConstantPool.falseSlot < q.constants.size) {k : Kind} {s t : GenState}
    (h : Run k s t) : Referring q k s t := by
  induction h with
  | refl s => exact fun _ => .same rfl
  | trans h h' ih ih' => exact fun hp => (ih (h'.precedes.trans hp)).trans (ih' hp) h.frame
  | quiet h => exact fun _ => .same h.code
  | put s hop p1 p2 p3 hslot hp3 =>
      intro hp
      refine .push (x := ⟨_, p1, p2, p3, s.buffer.line⟩) ⟨fun hload => ?_, hp3.mono hp⟩ ?_ rfl
      · exact (hslot hload).lt hp.constants hq
      · rintro rfl
        cases hop
  | rewrite _ _ hlast hop p1 p2 p3 hslot hp3 ih => exact fun hp => (ih hp).rewrite hlast hop p1 p2 hslot hp3
  | mark _ _ ih => exact fun hp => (ih hp).mark
  | skip hj _ ih => exact fun hp => .skip (by rcases hj with rfl | rfl <;> rfl) (ih hp)
  | choose h h' ih ih' => exact fun hp => .choose (ih (h'.precedes.trans hp)) h.frame (ih' hp)
  | discard _ ih => exact fun hp => (ih hp).discard
  | thunk | body => exact fun _ => .same rfl
  | statics _ ih => exact fun hp => ⟨(ih hp).refers, (ih hp).old, (ih hp).fresh⟩
  | static _ _ _ ih => exact fun hp => ⟨(ih hp).refers, (ih hp).old, (ih hp).fresh⟩
  | owned _ _ _ _ ih => exact fun hp => ⟨(ih hp).refers, (ih hp).old, (ih hp).fresh⟩
  | file _ hq ih =>
      intro hp
      have cites := ih ((Program.Precedes.files hq).trans hp)
      exact ⟨cites.refers, cites.old, cites.fresh⟩
  | lost _ _ _ ih => exact fun hp => ⟨(ih hp).refers, (ih hp).old, (ih hp).fresh⟩
  | value h ih => exact fun hp _ hpos hs => .value hs (ih hp) h.frame (h.spares hpos).blocks
  | seq h h' ih ih' =>
      intro hp ha hpos hs
      have first := ih (h'.precedes.trans hp) (ha.front h'.keeps) hpos hs
      exact first.trans (ih' hp (ha.back h.keeps) (by rw [h.frame.size hpos]; exact hpos) first.sited)
  | @wait s id b hb op hop =>
      intro _ _ _ hs
      refine .await hs id _ .none ?_ trivial ?_ <;> cases hop <;> decide
  | leap jump _ _ => exact fun _ _ _ hs => .leap hs jump _ _
  | throw s => exact fun _ _ _ hs => .await hs _ .throw .none (by decide) trivial (by decide)
  | settle hb => exact fun _ _ _ hs => .settle hs hb.reaches.not_hides _
  | settleContinue hb => exact fun _ _ _ hs => .settleContinue hs hb.reaches.not_hides
  | block ht h ih =>
      intro hp ha hpos hs
      exact (ih hp ha (stack_enter ..) (hs.enter _ _ _ _ ht.undeferred)).exitBlock ht.hides hpos
  | @loop s t back hback _ ht h ih =>
      intro hp ha hpos hs
      have ends : Local t ((after (Gen.put back 0 s.code.size .none) t).exitBlock s.blocks.blocks.size) := .exitBlock (.put .refl)
      have body := ih (ends.precedes hp) (.within (.enter .refl) ends ha) (stack_enter ..) (hs.enter _ _ _ _ ht.undeferred)
      refine (body.trans (.put body.sited _ 0 _ .none ?_ trivial ?_)).exitBlock ht.hides hpos
      · rcases hback with rfl | rfl <;> decide
      · rcases hback with rfl | rfl <;> decide
  | @each s t u p3 hp3 h h' ih ih' =>
      intro hp ha hpos hs
      have ends : Local u ((after (Gen.put .jmp 0 (t.code.size + 1) .none) u).exitBlock s.blocks.blocks.size) :=
        .exitBlock (.put .refl)
      have hp' := h'.precedes.trans (ends.precedes hp)
      have source := Directs.value (hs.enter [.loop] s.code.size .none none rfl) (ih hp') h.frame
        (h.spares (stack_enter ..)).blocks
      have step := source.iterate s.blocks.blocks.size (hp3.mono hp')
      have body := step.trans (ih' (ends.precedes hp) ?_ ?_ step.sited)
      · exact (body.trans (.put body.sited .jmp 0 _ .none (by decide) trivial (by decide))).exitBlock ⟨by decide, by decide⟩ hpos
      · have started := runLaw_keeps.between (.enter .refl) h.keeps .refl
        exact .within (.await (.restartHere (.await .refl))) ends (ha.back started)
      · rw [step.frame.size (stack_enter ..)]
        exact stack_enter ..
  | braces _ ih =>
      intro hp ha hpos hs
      exact (ih hp ha (stack_enter ..) (hs.enter _ _ _ _ rfl)).inside ⟨by decide, by decide⟩ hpos
  | @try_ s t h ih =>
      intro hp ha hpos hs
      have hexists : (Operand.exception s.program.exceptions.length).Exists q := by
        have := h.precedes.exceptions
        have := hp.exceptions
        simp only [after_await, after_reserveException, after_enter, List.length_append, List.length_singleton] at *
        exact Nat.lt_of_lt_of_le (Nat.lt_succ_self _) (Nat.le_trans ‹_› ‹_›)
      have load := Directs.protect (hs.enter [.exception] s.code.size .none none rfl) s.blocks.blocks.size hexists
      have body := load.trans (ih hp ha ?_ load.sited)
      · have settled := body.trans (.settle body.sited body.seen none)
        exact (settled.trans (.put settled.sited .popException 0 0 _ (by decide) hexists (by decide))).inside
          ⟨by decide, by decide⟩ hpos
      · rw [load.frame.size (stack_enter ..)]
        exact stack_enter ..
  | @switch s t u table h h' ih ih' =>
      intro hp ha hpos hs
      have ends : Local (after (fillSwitch t.program.switches.length { table with out := u.code.size }) u)
          ((after (fillSwitch t.program.switches.length { table with out := u.code.size }) u).exitBlock
            s.blocks.blocks.size) := .exitBlock .refl
      have hp' : u.program.Precedes q := (precedes_fillSwitch _ _ _).trans (ends.precedes hp)
      have hp'' : t.program.Precedes q := (precedes_reserveSwitch _).trans (h'.precedes.trans hp')
      -- Of the finished program's tables, this one is known here, and those of the sections there.
      have started := runLaw_keeps.between (.enter .refl) h.keeps .refl
      obtain ⟨htable, hsections⟩ := ((ha.within .refl ends).back started).reserved
        (runLaw_keeps.between (.put .refl) h'.keeps .refl)
      have subject := Directs.value (hs.enter [.loop, .switch] s.code.size .none none rfl) (ih hp'') h.frame
        (h.spares (stack_enter ..)).blocks
      have reserved := subject.trans (.same (t := after reserveSwitch t) subject.sited .reserveSwitch rfl rfl)
      obtain ⟨body, hstarts⟩ := ih' hp' (hsections.within (.put .refl) .refl)
        (by rw [after_put, reserved.frame.size (stack_enter ..)]; exact stack_enter ..)
        (Directs.sited_put reserved.sited _ _ _ _)
      have hexists : (Operand.switch t.program.switches.length).Exists q := (List.getElem?_eq_some_iff.mp htable).1
      have sections := reserved.trans (body.dispatch hexists htable fun n hn => ?_)
      · have filled := sections.trans
          (.same (t := after (fillSwitch t.program.switches.length { table with out := u.code.size }) u) sections.sited
            (.fillSwitch _ _) rfl rfl)
        exact filled.exitBlock ⟨by decide, by decide⟩ hpos
      · rcases List.mem_append.mp hn with hn | hn
        · exact (hstarts n hn).resolve_left List.not_mem_nil
        · exact Nat.le_of_eq (List.mem_singleton.mp hn)
  | aside table h ih =>
      intro hp _ hpos hs
      exact ⟨.value hs (ih hp) h.frame (h.spares hpos).blocks, fun n hn => .inl hn⟩
  | join h h' ih ih' =>
      intro hp ha hpos hs
      obtain ⟨first, hn⟩ := ih (h'.precedes.trans hp) (ha.front h'.keeps) hpos hs
      obtain ⟨second, hn'⟩ := ih' hp (ha.back h.keeps) (by rw [h.frame.size hpos]; exact hpos) first.sited
      refine ⟨first.trans second, fun n hmem => ?_⟩
      rcases hn' n hmem with hmem | hle
      · exact (hn n hmem).imp id fun hle => Nat.le_trans hle second.frame.grows
      · exact .inr hle
  | @case_ table s t u guard h h' ih ih' =>
      intro hp ha hpos hs
      have made := Directs.value hs (ih (h'.precedes.trans hp)) h.frame (h.spares hpos).blocks
      have body := ih' hp (ha.back h.keeps) (by rw [h.frame.size hpos]; exact hpos) made.sited
      refine ⟨made.trans body, fun n hn => (table.mem_starts_case hn).imp_right ?_⟩
      rintro rfl
      exact body.frame.grows
  | @default_ table s t u h h' ih ih' =>
      intro hp ha hpos hs
      have front := Directs.value hs (ih (h'.precedes.trans hp)) h.frame (h.spares hpos).blocks
      have body := ih' hp (ha.back h.keeps) (by rw [h.frame.size hpos]; exact hpos) front.sited
      refine ⟨front.trans body, fun n hn => (table.mem_starts_default hn).imp_right ?_⟩
      rintro rfl
      exact body.frame.grows

/-! ### Containers -/

variable (q) in
/-- A finished container: what it refers to is there, and its switches stay inside. -/
structure Linked (code : Code) : Prop where
  refers : Refers q code
  switches : ∀ (i : Nat) (x : Instruction), code[i]? = some x → x.op = .switch →
    ∃ id table, x.p3 = .switch id ∧ q.switches[id]? = some table ∧ ∀ n ∈ table.targets, n < code.size

theorem linked_empty : Linked q #[] :=
  ⟨fun i x hx => by simp at hx, fun i x hx => by simp at hx⟩

theorem done_refers (p1 : Int) (p2 line : Nat) : Instruction.Refers q ⟨.done, p1, p2, .none, line⟩ :=
  ⟨fun hload => by simp at hload, trivial⟩

/-- Code that computes values, from the start of its container. -/
theorem Cites.linked {s t : GenState} (h : Cites q s t) (hs : s.code = #[]) (p1 : Int) :
    Linked q (after (put .done p1 1 .none) t).code := by
  have refers : Refers q t.code := h.refers fun i x hx => by simp [hs] at hx
  refine ⟨refers.push (done_refers ..), fun i x hx hswitch => ?_⟩
  rw [after_put] at hx
  have hx' : (t.code.push _)[i]? = some x := hx
  rw [Array.getElem?_push] at hx'
  split at hx'
  · cases hx'
    cases hswitch
  · exact absurd hswitch (h.fresh i x (by rw [hs]; exact Nat.zero_le _) hx')

/-- Statements, from the start of their container. -/
theorem Directs.linked {s t : GenState} (h : Directs q s t) (hs : s.code = #[]) {id : Nat}
    (hseen : ¬t.blocks.Hides id) (op : Option Opcode) :
    Linked q (after (Gen.put .done 0 0 .none) (after (Gen.settle id op) t)).code := by
  have settled := h.trans (.settle h.sited hseen op)
  have refers := settled.refers fun i x hx => by simp [hs] at hx
  refine ⟨refers.push (done_refers ..), fun i x hx hswitch => ?_⟩
  have hx' : ((after (Gen.settle id op) t).code.push _)[i]? = some x := hx
  rw [Array.getElem?_push] at hx'
  split at hx'
  · cases hx'
    cases hswitch
  · obtain ⟨n, table, hp3, htable, htargets⟩ := settled.fresh i x (by rw [hs]; exact Nat.zero_le _) hx' hswitch
    refine ⟨n, table, hp3, htable, fun k hk => ?_⟩
    rw [size_put]
    exact Nat.lt_succ_of_le (htargets k hk)

/-- Whatever was filled in the course of a compilation is linked to the program that came of it. -/
theorem Origin.linked {s t : GenState} {c : Code} (h : Origin s t c)
    (ht : ConstantPool.falseSlot < t.program.constants.size) : Linked t.program c := by
  cases h with
  | empty => exact linked_empty
  | thunk p1 run during _ => exact Cites.linked (run.referring ht during.tables) rfl p1
  | @body s' t' id b op hb hop run during _ =>
      have hpos : 0 < s'.blocks.blocks.size := by
        rw [hb.size]
        exact Nat.succ_pos _
      have agrees : Agrees t.program.switches (after openContainer s') t' :=
        fun k hs ht => (during.switches k hs ht).symm
      have directs := run.referring ht during.tables agrees hpos (sited_body hb hop)
      obtain ⟨b', hb', -⟩ := directs.frame.innermost (s := after openContainer s') hb
      exact directs.linked rfl hb'.reaches.not_hides op

/-! ### A whole compilation -/

theorem sited_initial (config : Config) : Sited (GenState.initial config) := by
  intro id b hb _ i hi
  have hid : id < 1 := (Array.getElem?_eq_some_iff.mp hb).1
  obtain rfl : id = 0 := by omega
  cases hb
  rcases hi with ⟨j, hj, -⟩ | hi
  · cases hj
  · cases hi

theorem Finish.linked {config : Config} {t : GenState} (h : Finish (GenState.initial config) t) :
    Linked t.program t.code ∧ ∀ c, c ∈ t.program.bodies ∨ c ∈ t.program.thunks → Linked t.program c := by
  have pool : ConstantPool.falseSlot < t.program.constants.size := by
    have grows : (GenState.initial config).program.constants.Grows t.program.constants := by
      cases h with
      | statements run => exact run.constants
      | expression run p1 => exact run.constants
    exact Nat.lt_of_lt_of_le (Nat.lt_succ_self 2) grows.size_le
  refine ⟨?_, fun c hc => (h.origins c hc).linked pool⟩
  cases h with
  | @statements t run =>
      have directs := run.referring pool (.refl _) (fun _ _ _ => rfl) (Nat.zero_lt_one) (sited_initial config)
      refine directs.linked rfl ?_ _
      -- Only the root is there, and nothing hides it.
      have hsize : t.blocks.blocks.size = 1 := directs.frame.size Nat.zero_lt_one
      rintro ⟨k, b, hk, hb, -⟩
      have := (Array.getElem?_eq_some_iff.mp hb).1
      omega
  | expression run p1 => exact Cites.linked (run.referring pool (.refl _)) rfl p1

namespace Config

/-- Whatever a compilation returns, also one that reports errors, every constant that is loaded has its
slot, every operand names an entry of its table, and a switch goes only to instructions of the container it
stands in. -/
theorem references_exist (config : Config) (source : String) (c : Compilation)
    (h : (config.compile source).result = .ok c) :
    ∀ k ∈ c.program.containers, ∀ (i : Nat) (x : Instruction), k.code[i]? = some x →
      (x.op = .loadc → x.p2 < c.program.constants.size) ∧ x.p3.Exists c.program ∧
      (x.op = .switch → ∃ id table, x.p3 = .switch id ∧ c.program.switches[id]? = some table ∧
        (∀ e ∈ table.cases, e.start < k.code.size) ∧ (∀ n, table.default? = some n → n < k.code.size) ∧
        table.out < k.code.size) := by
  obtain ⟨read, -, hprogram, -⟩ := compile_ok h
  obtain ⟨main, others⟩ := (config.finish_generate source.utf8ByteSize read).linked
  intro k hk i x hx
  rw [hprogram] at hk
  have linked : Linked (config.generate source.utf8ByteSize read).program k.code := by
    rcases (Program.lists_containers _ _).mp ⟨k, hk, rfl⟩ with hk | hk
    · rw [hk]
      exact main
    · exact others _ hk
  have refers := linked.refers i x hx
  rw [hprogram]
  refine ⟨refers.slot, ?_, fun hswitch => ?_⟩
  · have entry := refers.entry
    cases hp3 : x.p3 <;> rw [hp3] at entry <;> exact entry
  · obtain ⟨id, table, hp3, htable, htargets⟩ := linked.switches i x hx hswitch
    refine ⟨id, table, hp3, htable, fun e he => htargets _ ?_, fun n hn => htargets _ ?_, htargets _ ?_⟩
    · simp only [SwitchTable.targets, SwitchTable.starts, List.mem_append, List.mem_map]
      exact .inl (.inl ⟨e, he, rfl⟩)
    · simp [SwitchTable.targets, SwitchTable.starts, hn]
    · simp [SwitchTable.targets]

/-- A compilation that reports an error: in the default section nothing is stored anywhere. -/
theorem references_exist_of_error :
    ∃ c, (({} : Config).compile "function f($a) { switch ($a) { case 1: g(1.5); default: ${} = ${}; } }").result =
        .ok c ∧ 0 < c.errors ∧ ∀ k ∈ c.program.containers, ∀ (i : Nat) (x : Instruction),
          k.code[i]? = some x → x.op = .loadc → x.p2 < c.program.constants.size := by
  have errors : ((({} : Config).compile
      "function f($a) { switch ($a) { case 1: g(1.5); default: ${} = ${}; } }").result.toOption.map
        Compilation.errors) = some 2 := by
    rw [compile_ofList rfl rfl]
    decide +kernel
  obtain ⟨c, hr, two⟩ := Outcome.ok_of_map errors
  refine ⟨c, hr, ?_, fun k hk i x hx => (references_exist _ _ c hr k hk i x hx).1⟩
  rw [two]
  decide

end Config

end StackScript
