/-
How many values are on the operand stack.

Every operation takes some values and leaves some.  A container is disciplined when every index can be
given a depth, zero at the start, such that no operation takes more than there is and all ways control may
go agree on what is left.  A stretch of code that computes values is described by how much higher it leaves
the stack than it finds it: `Lifts` asks for depths above the unknown depth at its start, so that stretches
are put behind each other without looking into them.
-/
import StackScript.Proofs.Handlers

namespace StackScript

namespace Instruction

/-- How many values an instruction takes from the stack. -/
def takes (x : Instruction) : Nat :=
  match x.op with
  | .done | .halt => if x.p1 = 0 then 0 else 1
  | .jmpz | .jmpnz | .consume | .foreachInit | .throw | .switch => 1
  | .pop | .loadMap | .loadList => x.p1.toNat
  | .load => if x.p3 = .none then 1 else 0
  | .loadIdx => if x.p1 = 0 then 1 else 2
  | .store => if x.p3 = .none then 2 else 1
  | .storeIdx | .storeIdxRef => if x.p1 = 0 then 2 else 3
  | .call | .new => x.p1.toNat + 1
  | .member => if x.p3 = .none then 2 else 1
  | .add => if x.p2 = 0 then 2 else x.p1.toNat
  | .loadRef | .clone | .cvtInt | .cvtReal | .cvtStr | .cvtBool | .cvtChar | .cvtObj | .cvtCall | .cvtRes
  | .cvtVoid | .uminus | .uplus | .bitnot | .lnot | .incr | .decr => 1
  | .is | .mul | .div | .mod | .sub | .shl | .shr | .lt | .le | .gt | .ge | .eq | .neq | .band | .bxor | .bor
  | .land | .lor | .lxor | .nullc | .addStore | .subStore | .mulStore | .divStore | .modStore | .shlStore
  | .shrStore | .bandStore | .borStore | .bxorStore => 2
  | .jmp | .noop | .declare | .loadc | .loadClosure | .classInit | .interfaceInit | .foreachStep
  | .loadException | .popException => 0

/-- How many values an instruction leaves in their place. -/
def leaves (x : Instruction) : Nat :=
  match x.op with
  | .jmpz | .jmpnz => if x.p1 = 0 then 0 else 1
  | .done | .halt | .jmp | .noop | .pop | .consume | .declare | .classInit | .interfaceInit | .foreachInit
  | .foreachStep | .loadException | .popException | .throw | .switch => 0
  | _ => 1

/-- The depth behind an instruction, from the depth in front of it. -/
def pass (x : Instruction) (depth : Nat) : Nat := depth - x.takes + x.leaves

/-- Where control may go from an instruction other than on to the next one, on its own or with an exception,
given the tables of the switches. -/
def exits (tables : List SwitchTable) (x : Instruction) : List Nat :=
  if x.op.isJump then [x.p2] else x.targets tables

/-- The depths agree around an instruction at an index: there is enough to take, and every way control may
go from there starts with what it leaves. -/
structure Fits (tables : List SwitchTable) (depth : Nat → Nat) (i : Nat) (x : Instruction) : Prop where
  enough : x.takes ≤ depth i
  next : x.op.falls = true → depth (i + 1) = x.pass (depth i)
  exits : ∀ j ∈ x.exits tables, depth j = x.pass (depth i)

end Instruction

/-- A depth for every index, zero at the start, that agrees along every way control may go. -/
def Disciplined (tables : List SwitchTable) (code : Code) (depth : Nat → Nat) : Prop :=
  depth 0 = 0 ∧ ∀ (i : Nat) (x : Instruction), code[i]? = some x → x.Fits tables depth i

/-- A container is disciplined, and the stack is empty wherever a statement starts or ends. -/
def Filled.IsDisciplined (tables : List SwitchTable) (r : Filled) : Prop :=
  ∃ depth, Disciplined tables r.code depth ∧ ∀ i ∈ r.boundaries, depth i = 0

/-! ### Single instructions -/

namespace Instruction

variable {x y : Instruction}

theorem exits_of_isJump {tables : List SwitchTable} (h : x.op.isJump = true) : x.exits tables = [x.p2] := if_pos h

/-- What does not jump may still switch. -/
theorem exits_of_not_isJump {F : List SwitchTable} {j : Nat} (h : x.op.isJump = false) (hj : j ∈ x.exits F) :
    ∃ id table, x.op = .switch ∧ x.p3 = .switch id ∧ F[id]? = some table ∧ j ∈ table.targets := by
  obtain ⟨op, p1, p2, p3, line⟩ := x
  unfold exits at hj
  rw [if_neg (by rw [h]; decide)] at hj
  obtain rfl : op = .switch := by
    cases op <;> first
      | rfl
      | (cases h; done)
      | exact absurd hj List.not_mem_nil
  cases p3 with
  | switch id =>
      have hmem : j ∈ (F[id]?.map SwitchTable.targets).getD [] := hj
      cases hF : F[id]? with
      | none =>
          rw [hF] at hmem
          cases hmem
      | some table =>
          rw [hF] at hmem
          exact ⟨id, table, rfl, rfl, hF, hmem⟩
  | _ => cases hj

/-- What lies below does not matter to an instruction that finds enough. -/
theorem pass_add {n : Nat} (h : x.takes ≤ n) (m : Nat) : x.pass (m + n) = m + x.pass n := by
  unfold pass
  omega

/-- A jump takes and leaves the same wherever it goes. -/
theorem takes_patch (h : x.op.isJump = true) (target : Nat) : { x with p2 := target }.takes = x.takes := by
  unfold takes
  cases hop : x.op <;> rw [hop] at h <;> first | rfl | cases h

theorem pass_patch (h : x.op.isJump = true) (target depth : Nat) :
    { x with p2 := target }.pass depth = x.pass depth := by
  unfold pass
  rw [takes_patch h target]
  rfl

/-- Two instructions that make no difference to the stack: they take and leave the same, and neither goes
anywhere but on. -/
structure Interchanges (x y : Instruction) : Prop where
  takes : y.takes = x.takes
  leaves : y.leaves = x.leaves
  falls : y.op.falls = x.op.falls
  plain : x.op.isPlain = true → y.op.isPlain = true
  same : x.op.isPlain = false → y = x

theorem Interchanges.refl (x : Instruction) : Interchanges x x := ⟨rfl, rfl, rfl, id, fun _ => rfl⟩

theorem Interchanges.pass (h : Interchanges x y) (depth : Nat) : y.pass depth = x.pass depth := by
  unfold Instruction.pass
  rw [h.takes, h.leaves]

/-- The depths agree around an instruction of a stretch of code from `start` to `stop`, which it does not
leave. -/
structure Lies (depth : Nat → Nat) (start stop i : Nat) (x : Instruction) : Prop where
  steady : x.op.isSteady = true
  enough : x.takes ≤ depth i
  next : x.op.falls = true → depth (i + 1) = x.pass (depth i)
  jump : x.op.isJump = true → start ≤ x.p2 ∧ x.p2 ≤ stop ∧ depth x.p2 = x.pass (depth i)

theorem falls_of_isPlain {op : Opcode} (h : op.isPlain = true) : op.isJump = false := by
  cases op <;> first | rfl | cases h

/-- An instruction that only works on the stack lies where there is enough to take. -/
theorem lies_plain {depth : Nat → Nat} {i : Nat} (hop : x.op.isPlain = true) (start stop : Nat)
    (henough : x.takes ≤ depth i) (hnext : x.op.falls = true → depth (i + 1) = x.pass (depth i)) :
    x.Lies depth start stop i where
  steady := (Opcode.isSteady_of_isPlain hop).1
  enough := henough
  next := hnext
  jump := by
    intro hj
    rw [falls_of_isPlain hop] at hj
    cases hj

/-- Where the jumps of a container stay inside it, the depths agree along all ways. -/
theorem Lies.fits {depth : Nat → Nat} {start stop i : Nat} (h : x.Lies depth start stop i)
    (tables : List SwitchTable) : x.Fits tables depth i where
  enough := h.enough
  next := h.next
  exits := by
    intro j hj
    cases hjump : x.op.isJump with
    | true =>
        rw [exits_of_isJump hjump] at hj
        rw [List.mem_singleton.mp hj]
        exact (h.jump hjump).2.2
    | false =>
        obtain ⟨id, table, hop, -⟩ := exits_of_not_isJump hjump hj
        have hsteady := h.steady
        rw [hop] at hsteady
        cases hsteady

/-- The same depths some values higher, in a longer stretch. -/
theorem Lies.shift {depth depth' : Nat → Nat} {start stop start' stop' i base : Nat} (h : x.Lies depth start stop i)
    (hi : start ≤ i ∧ i < stop) (hd : ∀ j, start ≤ j → j ≤ stop → depth' j = base + depth j)
    (hstart : start' ≤ start) (hstop : stop ≤ stop') : x.Lies depth' start' stop' i where
  steady := h.steady
  enough := by
    rw [hd i hi.1 (Nat.le_of_lt hi.2)]
    exact Nat.le_trans h.enough (Nat.le_add_left _ _)
  next := by
    intro hf
    rw [hd i hi.1 (Nat.le_of_lt hi.2), hd (i + 1) (Nat.le_succ_of_le hi.1) hi.2, x.pass_add h.enough, h.next hf]
  jump := by
    intro hj
    obtain ⟨hge, hle, heq⟩ := h.jump hj
    refine ⟨Nat.le_trans hstart hge, Nat.le_trans hle hstop, ?_⟩
    rw [hd i hi.1 (Nat.le_of_lt hi.2), hd _ hge hle, x.pass_add h.enough, heq]

end Instruction

/-! ### Stretches of code -/

/-- The code from `start` up to `stop` leaves the stack `n` values higher than it finds it.  It needs none of
those below, and its jumps stay inside it. -/
def Climbs (code : Code) (start stop n : Nat) : Prop :=
  start ≤ stop ∧ ∃ depth : Nat → Nat, depth start = 0 ∧ depth stop = n ∧
    ∀ (i : Nat) (x : Instruction), start ≤ i → i < stop → code[i]? = some x → x.Lies depth start stop i

namespace Climbs

variable {code code' : Code} {start mid stop n m : Nat} {x y : Instruction}

theorem nil (code : Code) (start : Nat) : Climbs code start start 0 :=
  ⟨Nat.le_refl _, fun _ => 0, rfl, rfl, fun _ _ hi hlt => absurd hlt (Nat.not_lt.mpr hi)⟩

/-- Only the instructions of the stretch matter. -/
theorem congr (h : Climbs code start stop n) (hc : ∀ i, start ≤ i → i < stop → code'[i]? = code[i]?) :
    Climbs code' start stop n := by
  obtain ⟨hle, depth, hstart, hstop, hlies⟩ := h
  refine ⟨hle, depth, hstart, hstop, fun i x hi hlt hx => ?_⟩
  rw [hc i hi hlt] at hx
  exact hlies i x hi hlt hx

/-- And of those only what they do to the stack. -/
theorem alike (h : Climbs code start stop n)
    (hc : ∀ i y, start ≤ i → i < stop → code'[i]? = some y → ∃ x, code[i]? = some x ∧ x.Interchanges y) :
    Climbs code' start stop n := by
  obtain ⟨hle, depth, hstart, hstop, hlies⟩ := h
  refine ⟨hle, depth, hstart, hstop, fun i y hi hlt hy => ?_⟩
  obtain ⟨x, hx, halike⟩ := hc i y hi hlt hy
  have lies := hlies i x hi hlt hx
  cases hop : x.op.isPlain with
  | true =>
      refine Instruction.lies_plain (halike.plain hop) _ _ ?_ fun hf => ?_
      · rw [halike.takes]
        exact lies.enough
      · rw [halike.pass, lies.next (halike.falls.symm.trans hf)]
  | false =>
      rw [halike.same hop]
      exact lies

/-- One stretch behind another. -/
theorem append (h : Climbs code start mid n) (h' : Climbs code mid stop m) : Climbs code start stop (n + m) := by
  obtain ⟨hle, depth, hstart, hmid, hlies⟩ := h
  obtain ⟨hle', depth', hmid', hstop, hlies'⟩ := h'
  let joined : Nat → Nat := fun i => if i < mid then depth i else n + depth' i
  have before : ∀ j, start ≤ j → j ≤ mid → joined j = 0 + depth j := by
    intro j _ hj
    by_cases hlt : j < mid
    · simp only [joined, if_pos hlt, Nat.zero_add]
    · obtain rfl : j = mid := by omega
      simp only [joined, if_neg hlt, hmid', hmid, Nat.add_zero, Nat.zero_add]
  have behind : ∀ j, mid ≤ j → j ≤ stop → joined j = n + depth' j := fun j hj _ => if_neg (Nat.not_lt.mpr hj)
  refine ⟨Nat.le_trans hle hle', joined, ?_, ?_, fun i x hi hlt hx => ?_⟩
  · rw [before start (Nat.le_refl _) hle, hstart]
  · rw [behind stop hle' (Nat.le_refl _), hstop]
  · by_cases hm : i < mid
    · exact (hlies i x hi hm hx).shift ⟨hi, hm⟩ before (Nat.le_refl _) hle'
    · have hm := Nat.le_of_not_lt hm
      exact (hlies' i x hm hlt hx).shift ⟨hm, hlt⟩ behind hle (Nat.le_refl _)

/-- One more instruction that only works on the stack. -/
theorem snoc (h : Climbs code start stop n) (hx : code[stop]? = some x) (hop : x.op.isPlain = true)
    (henough : x.takes ≤ n) : Climbs code start (stop + 1) (x.pass n) := by
  obtain ⟨hle, depth, hstart, hstop, hlies⟩ := h
  let further : Nat → Nat := fun i => if i ≤ stop then depth i else x.pass n
  have before : ∀ j, start ≤ j → j ≤ stop → further j = 0 + depth j := by
    intro j _ hj
    simp only [further, if_pos hj, Nat.zero_add]
  have last : further (stop + 1) = x.pass n := if_neg (Nat.not_succ_le_self _)
  refine ⟨Nat.le_succ_of_le hle, further, ?_, last, fun i y hi hlt hy => ?_⟩
  · rw [before start (Nat.le_refl _) hle, hstart]
  · by_cases hlt' : i < stop
    · exact (hlies i y hi hlt' hy).shift ⟨hi, hlt'⟩ before (Nat.le_refl _) (Nat.le_succ _)
    · obtain rfl : i = stop := by omega
      obtain rfl : x = y := Option.some.inj (hx.symm.trans hy)
      have here : further i = n := by rw [before i hle (Nat.le_refl _), hstop, Nat.zero_add]
      exact Instruction.lies_plain hop _ _ (by rw [here]; exact henough) fun _ => by rw [here, last]

/-- A value decides whether a stretch behind it is skipped; where it is not, its value and that one are made
into one. -/
theorem decide (jump : Instruction) (h : Climbs code start mid 1) (hjump : code[mid]? = some jump)
    (hop : jump.op = .jmpz ∨ jump.op = .jmpnz) (hp1 : jump.p1 ≠ 0) (hp2 : jump.p2 = stop + 1)
    (h' : Climbs code (mid + 1) stop 1) (hx : code[stop]? = some x) (hplain : x.op.isPlain = true)
    (htakes : x.takes = 2) (hleaves : x.leaves = 1) : Climbs code start (stop + 1) 1 := by
  obtain ⟨hle, depth, hstart, hmid, hlies⟩ := h
  obtain ⟨hle', depth', hmid', hstop, hlies'⟩ := h'
  let joined : Nat → Nat := fun i => if i ≤ mid then depth i else if i ≤ stop then 1 + depth' i else 1
  have before : ∀ j, start ≤ j → j ≤ mid → joined j = 0 + depth j := by
    intro j _ hj
    simp only [joined, if_pos hj, Nat.zero_add]
  have behind : ∀ j, mid + 1 ≤ j → j ≤ stop → joined j = 1 + depth' j := by
    intro j hj hj'
    simp only [joined, if_neg (Nat.not_le.mpr hj), if_pos hj']
  have last : joined (stop + 1) = 1 := by
    simp only [joined, if_neg (show ¬stop + 1 ≤ mid by omega), if_neg (Nat.not_succ_le_self stop)]
  have atJump : joined mid = 1 := by rw [before mid hle (Nat.le_refl _), hmid]
  have jumpTakes : jump.takes = 1 := by unfold Instruction.takes; rcases hop with hop | hop <;> rw [hop]
  have jumpPass : jump.pass 1 = 1 := by
    unfold Instruction.pass Instruction.leaves
    rw [jumpTakes]
    rcases hop with hop | hop <;> simp [hop, hp1]
  refine ⟨by omega, joined, ?_, last, fun i y hi hlt hy => ?_⟩
  · rw [before start (Nat.le_refl _) hle, hstart]
  · rcases Nat.lt_trichotomy i mid with hm | rfl | hm
    · exact (hlies i y hi hm hy).shift ⟨hi, hm⟩ before (Nat.le_refl _) (by omega)
    · obtain rfl : jump = y := Option.some.inj (hjump.symm.trans hy)
      refine ⟨by rcases hop with hop | hop <;> rw [hop] <;> rfl, ?_, fun _ => ?_, fun _ => ⟨by omega, by omega, ?_⟩⟩
      · exact Nat.le_of_eq (by rw [atJump, jumpTakes])
      · rw [atJump, jumpPass, behind _ (Nat.le_refl _) hle', hmid']
      · rw [hp2, last, atJump, jumpPass]
    · by_cases hs : i < stop
      · exact (hlies' i y hm hs hy).shift ⟨hm, hs⟩ behind (by omega) (by omega)
      · obtain rfl : i = stop := by omega
        obtain rfl : x = y := Option.some.inj (hx.symm.trans hy)
        have here : joined i = 2 := by rw [behind i hle' (Nat.le_refl _), hstop]
        refine Instruction.lies_plain hplain _ _ (Nat.le_of_eq (by rw [here, htakes])) fun _ => ?_
        rw [last, here, Instruction.pass, htakes, hleaves]

/-- A value decides which of two stretches makes the value. -/
theorem choose (test out : Instruction) (join : Nat) (h : Climbs code start mid 1) (htest : code[mid]? = some test)
    (htestOp : test.op = .jmpz) (hp1 : test.p1 = 0) (hp2 : test.p2 = join + 1)
    (h' : Climbs code (mid + 1) join 1) (hout : code[join]? = some out) (houtOp : out.op = .jmp)
    (houtP2 : out.p2 = stop) (h'' : Climbs code (join + 1) stop 1) : Climbs code start stop 1 := by
  obtain ⟨hle, depth, hstart, hmid, hlies⟩ := h
  obtain ⟨hle', depth', hmid', hjoin, hlies'⟩ := h'
  obtain ⟨hle'', depth'', hjoin', hstop, hlies''⟩ := h''
  let joined : Nat → Nat := fun i => if i ≤ mid then depth i else if i ≤ join then depth' i else depth'' i
  have first : ∀ j, start ≤ j → j ≤ mid → joined j = 0 + depth j := by
    intro j _ hj
    simp only [joined, if_pos hj, Nat.zero_add]
  have second : ∀ j, mid + 1 ≤ j → j ≤ join → joined j = 0 + depth' j := by
    intro j hj hj'
    simp only [joined, if_neg (Nat.not_le.mpr hj), if_pos hj', Nat.zero_add]
  have third : ∀ j, join + 1 ≤ j → j ≤ stop → joined j = 0 + depth'' j := by
    intro j hj _
    simp only [joined, if_neg (show ¬j ≤ mid by omega), if_neg (Nat.not_le.mpr hj), Nat.zero_add]
  have atTest : joined mid = 1 := by rw [first mid hle (Nat.le_refl _), hmid]
  have atOut : joined join = 1 := by rw [second join hle' (Nat.le_refl _), hjoin]
  have testTakes : test.takes = 1 := by unfold Instruction.takes; rw [htestOp]
  have testPass : test.pass 1 = 0 := by
    unfold Instruction.pass Instruction.leaves
    rw [testTakes]
    simp [htestOp, hp1]
  have outTakes : out.takes = 0 := by unfold Instruction.takes; rw [houtOp]
  have outPass : out.pass 1 = 1 := by
    unfold Instruction.pass Instruction.leaves
    rw [outTakes]
    simp [houtOp]
  refine ⟨by omega, joined, ?_, ?_, fun i y hi hlt hy => ?_⟩
  · rw [first start (Nat.le_refl _) hle, hstart]
  · rw [third stop hle'' (Nat.le_refl _), hstop]
  · rcases Nat.lt_trichotomy i mid with hm | rfl | hm
    · exact (hlies i y hi hm hy).shift ⟨hi, hm⟩ first (Nat.le_refl _) (by omega)
    · obtain rfl : test = y := Option.some.inj (htest.symm.trans hy)
      refine ⟨by rw [htestOp]; rfl, ?_, fun _ => ?_, fun _ => ⟨by omega, by omega, ?_⟩⟩
      · exact Nat.le_of_eq (by rw [atTest, testTakes])
      · rw [atTest, testPass, second _ (Nat.le_refl _) hle', hmid']
      · rw [hp2, third _ (Nat.le_refl _) hle'', hjoin', atTest, testPass]
    · rcases Nat.lt_trichotomy i join with hj | rfl | hj
      · exact (hlies' i y hm hj hy).shift ⟨hm, hj⟩ second (by omega) (by omega)
      · obtain rfl : out = y := Option.some.inj (hout.symm.trans hy)
        refine ⟨by rw [houtOp]; rfl, ?_, fun hf => ?_, fun _ => ⟨by omega, by omega, ?_⟩⟩
        · rw [outTakes]
          exact Nat.zero_le _
        · rw [houtOp] at hf
          cases hf
        · rw [houtP2, third stop hle'' (Nat.le_refl _), hstop, atOut, outPass]
      · exact (hlies'' i y hj hlt hy).shift ⟨hj, hlt⟩ third (by omega) (Nat.le_refl _)

end Climbs

/-! ### Code that was added -/

/-- Code that leaves the stack `n` values higher has been added. -/
structure Lifts (a b : Code) (n : Nat) : Prop where
  longer : Extends a b
  climbs : Climbs b a.size b.size n

namespace Lifts

variable {a b e : Code} {n m : Nat} {x : Instruction}

theorem refl (a : Code) : Lifts a a 0 := ⟨Extends.refl a, Climbs.nil a a.size⟩

/-- Code that stands alone is disciplined. -/
theorem disciplined (h : Lifts #[] b n) (tables : List SwitchTable) : ∃ depth, Disciplined tables b depth := by
  obtain ⟨-, depth, hstart, -, hlies⟩ := h.climbs
  refine ⟨depth, hstart, fun i x hx => ?_⟩
  exact (hlies i x (Nat.zero_le i) (Array.getElem?_eq_some_iff.mp hx).1 hx).fits tables

theorem trans (h : Lifts a b n) (h' : Lifts b e m) : Lifts a e (n + m) :=
  ⟨h.longer.trans h'.longer, (h.climbs.congr fun i _ hi => h'.longer.kept i hi).append h'.climbs⟩

theorem push (h : Lifts a b n) (hop : x.op.isPlain = true) (henough : x.takes ≤ n) :
    Lifts a (b.push x) (x.pass n) := by
  have grown := Extends.push b x
  refine ⟨h.longer.trans grown, ?_⟩
  rw [Array.size_push]
  exact (h.climbs.congr fun i _ hi => grown.kept i hi).snoc Array.getElem?_push_size hop henough

/-- Instructions that were added are changed into others that make no difference. -/
theorem alike (h : Lifts a b n) (hsize : e.size = b.size) (hkept : ∀ i < a.size, e[i]? = b[i]?)
    (hfresh : ∀ (i : Nat) (y : Instruction), a.size ≤ i → e[i]? = some y →
      ∃ x : Instruction, b[i]? = some x ∧ x.Interchanges y) : Lifts a e n := by
  refine ⟨⟨?_, fun i hi => ?_⟩, ?_⟩
  · rw [hsize]
    exact h.longer.grows
  · rw [hkept i hi, h.longer.kept i hi]
  · rw [hsize]
    exact h.climbs.alike fun i y hi _ hy => hfresh i y hi hy

/-- The last instruction that was added is changed into another one that makes no difference. -/
theorem modifyLast (h : Lifts a b n) (hlt : a.size < b.size) (f : Instruction → Instruction)
    (hf : ∀ x : Instruction, x.Interchanges (f x)) : Lifts a (b.modify (b.size - 1) f) n := by
  refine h.alike (Array.size_modify ..) (fun i hi => ?_) fun i y _ hy => ?_
  · rw [Array.getElem?_modify, if_neg (by omega)]
  · rw [Array.getElem?_modify] at hy
    split at hy
    · obtain ⟨x, hx, rfl⟩ := Option.map_eq_some_iff.mp hy
      exact ⟨x, hx, hf x⟩
    · exact ⟨y, hy, .refl y⟩

/-- The last instruction that was added is taken back for another one that makes no difference. -/
theorem replaceLast (h : Lifts a b n) (hlt : a.size < b.size) {last : Instruction} (hlast : b.back? = some last)
    (hx : last.Interchanges x) : Lifts a (b.pop.push x) n := by
  have hget := Code.getElem?_pop_push (Nat.zero_lt_of_lt hlt) x
  refine h.alike ?_ (fun i hi => ?_) fun i y _ hy => ?_
  · rw [Array.size_push, Array.size_pop]
    omega
  · rw [hget, if_neg (by omega)]
  · rw [hget] at hy
    split at hy
    · rename_i hi
      cases hy
      rw [Array.back?_eq_getElem?] at hlast
      exact ⟨last, hi ▸ hlast, hx⟩
    · exact ⟨y, hy, .refl y⟩

/-- Code that leaves values is not empty. -/
theorem size_lt (h : Lifts a b n) (hn : 0 < n) : a.size < b.size := by
  refine Nat.lt_of_le_of_ne h.longer.grows fun heq => ?_
  obtain ⟨-, depth, hstart, hstop, -⟩ := h.climbs
  rw [heq] at hstart
  omega

/-- A value that may decide, and the operand that is skipped where it does. -/
theorem decide {jump : Instruction} (h : Lifts a b 1) (hop : jump.op = .jmpz ∨ jump.op = .jmpnz)
    (hp1 : jump.p1 ≠ 0) (h' : Lifts (b.push jump) e 1) (hplain : x.op.isPlain = true) (htakes : x.takes = 2)
    (hleaves : x.leaves = 1) : Lifts a (Code.patch (e.push x) b.size (e.push x).size) 1 := by
  have operand := h'.climbs
  have both : Extends (b.push jump) (e.push x) := h'.longer.trans (Extends.push e x)
  have grown : Extends b (Code.patch (e.push x) b.size (e.push x).size) :=
    ((Extends.push b jump).trans both).patch (Nat.le_refl _) _
  refine ⟨h.longer.trans grown, ?_⟩
  rw [Code.size_patch]
  rw [Array.size_push] at operand grown ⊢
  refine (h.climbs.congr fun i _ hi => grown.kept i hi).decide { jump with p2 := e.size + 1 } (both.jump _) hop hp1 rfl
    (operand.congr fun i hi hlt => ?_) (Code.getElem?_patch_push (Nat.ne_of_lt h'.longer.lt) x _) hplain htakes hleaves
  rw [Code.getElem?_patch, if_neg (Nat.ne_of_lt hi), (Extends.push e x).kept i hlt]

/-- A value that decides, and the two operands of which one is skipped. -/
theorem choose {d : Code} {test out : Instruction} (h : Lifts a b 1) (htest : test.op = .jmpz) (hp1 : test.p1 = 0)
    (h' : Lifts (b.push test) e 1) (hout : out.op = .jmp)
    (h'' : Lifts (Code.patch (e.push out) b.size (e.push out).size) d 1) :
    Lifts a (Code.patch d e.size d.size) 1 := by
  have choice : Chooses b e d test out := ⟨h'.longer, h''.longer⟩
  refine ⟨h.longer.trans choice.longer, ?_⟩
  rw [Code.size_patch]
  have before := h.climbs.congr fun i _ hi => choice.longer.kept i hi
  have yes := h'.climbs
  have no := h''.climbs
  rw [Array.size_push] at yes
  rw [Code.size_patch, Array.size_push] at no
  exact before.choose { test with p2 := e.size + 1 } { out with p2 := d.size } e.size choice.at_test htest hp1 rfl
    (yes.congr fun _ hi hlt => choice.at_yes hi hlt) choice.at_out hout rfl (no.congr fun _ hi _ => Chooses.at_no hi)

end Lifts

end StackScript
