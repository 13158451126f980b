/-
Where the branches of an operand meet.

A few operators take the last instruction of an operand into themselves.  That is one place of the code, but more
than one way may lead behind it: the branches of a conditional and the decided half of a short circuit jump there.
A branch that jumps past the instruction is not touched by what becomes of it.

`CodeEnd` tells from the tree alone what the code of an operand ends with and whether a jump goes to its end, and
`Leaf.leads_genTree` shows that the code does.  An operator therefore rewrites an instruction that a branch jumps
past exactly where it takes the last instruction of an operand with a join at its end.
-/
import StackScript.Proofs.Evaluation
import StackScript.Proofs.Jumps
import StackScript.Proofs.Kept

namespace StackScript

open Gen

/-! ### How operands end -/

/-- Some jump of the code goes to its end. -/
def Code.Joined (code : Code) : Prop :=
  ∃ (i : Nat) (x : Instruction), code[i]? = some x ∧ x.op.isJump = true ∧ x.p2 = code.size

/-- How the code of an operand ends. -/
structure CodeEnd where
  /-- Its last instruction. -/
  op : Opcode
  /-- Whether that one calls a member. -/
  method : Bool
  /-- Whether a jump goes behind it. -/
  joined : Bool
deriving DecidableEq

/-- An operator that looks at the last instruction of an operand. -/
inductive Rewriter where
  | store
  | create
  | staticMember
  | markCallee
deriving DecidableEq

namespace Rewriter

def gen : Rewriter → Gen Unit
  | store => Gen.store
  | create => Gen.create
  | staticMember => Gen.staticMember
  | markCallee => Gen.markCallee

/-- Whether the operator takes the last instruction of the operand back or changes it. -/
def takes : Rewriter → CodeEnd → Bool
  | store, e => e.op != .member
  | create, e => e.op == .call && !e.method
  | staticMember, e => e.op == .load
  | markCallee, e => [.loadc, .member, .new].contains e.op

end Rewriter

namespace CodeEnd

/-- One instruction. -/
def single (op : Opcode) : CodeEnd := ⟨op, false, false⟩

/-- An instruction behind an operand. -/
def behind (e : CodeEnd) (op : Opcode) : CodeEnd := ⟨op, e.op == .member, false⟩

/-- The instruction of an operator behind an operand, if it has one. -/
def operated (e : CodeEnd) (op : Operator) : CodeEnd :=
  match op.opcode? with
  | some code => e.behind code
  | none => e

/-- What an operator makes of the last instruction: what takes its place has the same jumps behind it. -/
def rewritten (e : CodeEnd) (w : Rewriter) : CodeEnd :=
  match w with
  | .store => ⟨if e.op = .loadIdx then .storeIdx else .store, false, e.joined && w.takes e⟩
  | .create => ⟨.new, false, e.joined && w.takes e⟩
  | .staticMember => ⟨.member, false, e.joined && w.takes e⟩
  | .markCallee => e

/-- The right operand of an operator; past the one of a short circuit goes a jump. -/
def between (e : CodeEnd) (op : Operator) : CodeEnd :=
  match op with
  | .comma => e
  | .logAnd | .logOr => { e.operated op with joined := true }
  | .doubleColon => e.rewritten .staticMember
  | _ => e.operated op

end CodeEnd

mutual

/-- How the code of an expression ends. -/
def Leaf.treeEnding : Tree Leaf → CodeEnd
  | .leaf _ content => content.ending
  | .prefixed _ op x =>
    if op = .new then (Leaf.treeEnding x).rewritten .create else (Leaf.treeEnding x).operated op
  | .postfixed _ op x => (Leaf.treeEnding x).operated op
  | .binary _ op _ y => (Leaf.treeEnding y).between op
  | .assign _ op target _ =>
    if op = .assign then (Leaf.treeEnding target).rewritten .store else (Leaf.treeEnding target).operated op
  | .ternary _ _ _ no => { Leaf.treeEnding no with joined := true }
  | .call _ f _ => (Leaf.treeEnding f).behind .call
  | .index _ _ _ | .append _ _ => .single .loadIdx

def Leaf.ending : Leaf → CodeEnd
  | .number _ | .simpleString _ | .name _ _ => .single .loadc
  | .template first [] => first.ending
  | .template _ (_ :: _) => .single .add
  | .variable _ _ _ | .computedVariable _ _ _ _ _ => .single .load
  | .array _ _ => .single .loadMap
  | .list _ => .single .loadList
  | .closure _ _ _ _ captures _ => .single (if captures.isSome then .loadClosure else .loadc)
  | .construct _ _ => .single .call
  -- What is reported has no code.
  | .unread _ | .blankVariable _ _ => .single .loadc

def Piece.ending : Piece → CodeEnd
  | .text _ => .single .loadc
  | .value _ root => Leaf.treeEnding root
  | .rejected _ _ => .single .loadc

end

/-- The code ends so. -/
structure EndsWith (code : Code) (e : CodeEnd) : Prop where
  op : code.back?.map Instruction.op = some e.op
  plain : e.op.isJump = false
  method : e.op = .call → code.beforeLast?.any (·.op == .member) = e.method
  joined : code.Joined ↔ e.joined = true

namespace Code

variable {code : Code} {x y : Instruction}

theorem beforeLast?_push (code : Code) (x : Instruction) : Code.beforeLast? (code.push x) = code.back? := by
  unfold beforeLast?
  rw [Array.size_push, Array.back?_eq_getElem?]
  split
  · rw [Array.getElem?_push, if_neg (by omega)]
    congr 1
  · rw [Array.getElem?_eq_none (by omega)]

/-- No jump goes behind an instruction that was just added. -/
theorem not_joined_push (hb : Bounded code code.size) (hx : x.op.isJump = false) : ¬Code.Joined (code.push x) := by
  rintro ⟨i, y, hy, hj, hp⟩
  have := hb.push (x := x) (fun h => absurd (hx.symm.trans h) (by decide)) i y hy hj
  rw [Array.size_push] at hp
  omega

/-- Where the last instruction is no jump, another one in its place has the same jumps behind it. -/
theorem joined_congr {other : Code} (hsize : other.size = code.size)
    (h : ∀ (i : Nat) (x : Instruction), x.op.isJump = true → (other[i]? = some x ↔ code[i]? = some x)) :
    Code.Joined other ↔ Code.Joined code := by
  unfold Joined
  rw [hsize]
  constructor
  · rintro ⟨i, x, hx, hj, hp⟩
    exact ⟨i, x, (h i x hj).mp hx, hj, hp⟩
  · rintro ⟨i, x, hx, hj, hp⟩
    exact ⟨i, x, (h i x hj).mpr hx, hj, hp⟩

end Code

namespace EndsWith

variable {code : Code} {e : CodeEnd}

theorem last (h : EndsWith code e) :
    ∃ x, code.back? = some x ∧ x.op = e.op ∧ code[code.size - 1]? = some x ∧ 0 < code.size := by
  obtain ⟨x, hx, hop⟩ := Option.map_eq_some_iff.mp h.op
  have hget : code[code.size - 1]? = some x := by
    rw [← Array.back?_eq_getElem?]
    exact hx
  refine ⟨x, hx, hop, hget, ?_⟩
  have := (Array.getElem?_eq_some_iff.mp hget).1
  omega

/-- An instruction that calls nothing. -/
theorem push (hb : Bounded code code.size) {x : Instruction} (hx : x.op.isJump = false) (hcall : x.op ≠ .call) :
    EndsWith (code.push x) (.single x.op) where
  op := by rw [Array.back?_push]; rfl
  plain := hx
  method := fun h => absurd h hcall
  joined := iff_of_false (Code.not_joined_push hb hx) Bool.false_ne_true

/-- An instruction behind an operand. -/
theorem behind (h : EndsWith code e) (hb : Bounded code code.size) {x : Instruction} (hx : x.op.isJump = false) :
    EndsWith (code.push x) (e.behind x.op) where
  op := by rw [Array.back?_push]; rfl
  plain := hx
  method := by
    intro _
    obtain ⟨y, hy, hop, -⟩ := h.last
    rw [Code.beforeLast?_push, hy, Option.any_some, hop]
    rfl
  joined := iff_of_false (Code.not_joined_push hb hx) Bool.false_ne_true

/-- An instruction that takes the place of the last one. -/
theorem rewrite (h : EndsWith code e) {x : Instruction} (hx : x.op.isJump = false) (hcall : x.op ≠ .call) :
    EndsWith (code.pop.push x) ⟨x.op, false, e.joined⟩ where
  op := by rw [Array.back?_push]; rfl
  plain := hx
  method := fun h => absurd h hcall
  joined := by
    obtain ⟨y, -, hop, hy, hpos⟩ := h.last
    refine Iff.trans (Code.joined_congr ?_ fun i z hz => ?_) h.joined
    · rw [Array.size_push, Array.size_pop]
      omega
    · rw [Code.getElem?_pop_push hpos]
      split
      · rename_i hi
        rw [hi, hy]
        constructor
        · rintro ⟨rfl⟩
          exact absurd (hx.symm.trans hz) (by decide)
        · rintro ⟨rfl⟩
          exact absurd ((hop ▸ h.plain).symm.trans hz) (by decide)
      · exact Iff.rfl

/-- A jump that is pointed to the end. -/
theorem land (h : EndsWith code e) {i : Nat} {x : Instruction} (hx : code[i]? = some x) (hj : x.op.isJump = true) :
    EndsWith (code.patch i code.size) { e with joined := true } where
  op := by
    rw [← h.op, Array.back?_eq_getElem?, Array.back?_eq_getElem?, Code.size_patch, Code.getElem?_patch]
    split
    · rw [Option.map_map]
      rfl
    · rfl
  plain := h.plain
  method := by
    intro hcall
    rw [← h.method hcall]
    unfold Code.beforeLast?
    rw [Code.size_patch, Code.getElem?_patch]
    split
    · split
      · rw [Option.any_map]
      · rfl
    · rfl
  joined := by
    refine iff_of_true ⟨i, { x with p2 := code.size }, ?_, hj, ?_⟩ rfl
    · rw [Code.getElem?_patch, if_pos rfl, hx]
      rfl
    · exact (Code.size_patch ..).symm

end EndsWith

/-! ### Errors -/

/-- An error counts. -/
theorem errors_lt_report (line : Nat) (s : GenState) {problem : Problem} (hp : problem.severity = .error) :
    s.errors < (after (report line problem) s).errors := by
  rcases Grown.report (s := s) line hp with h | h
  · exact absurd h (Nat.lt_irrefl _)
  · exact h

theorem errors_operator (op : Operator) (p1 : Int) (s : GenState) : (after (operator op p1) s).errors = s.errors := by
  unfold operator
  split <;> rfl

/-! ### What operators make of the ends of their operands -/

/-- The jumps so far go no further than the next instruction, and what was put away is finished. -/
structure SteadyState (s : GenState) : Prop where
  filed : Filed s
  bounded : Bounded s.code s.code.size

theorem SteadyState.beside {made : List Made} {s t : GenState} (hs : SteadyState s) (h : Beside made s t) :
    SteadyState t :=
  ⟨h.filed, h.bounded hs.bounded⟩

theorem SteadyState.run {made : List Made} {s t : GenState} (hs : SteadyState s) (h : Run (.value made) s t) :
    SteadyState t :=
  hs.beside (h.sound hs.filed)

namespace EndsWith

variable {s : GenState} {e : CodeEnd}

theorem put (hs : Bounded s.code s.code.size) {op : Opcode} (hop : op.isJump = false) (hcall : op ≠ .call) (p1 : Int)
    (p2 : Nat) (p3 : Operand) : EndsWith (after (Gen.put op p1 p2 p3) s).code (.single op) :=
  push hs (x := ⟨op, p1, p2, p3, s.buffer.line⟩) hop hcall

theorem putBehind (h : EndsWith s.code e) (hs : SteadyState s) {op : Opcode} (hop : op.isJump = false) (p1 : Int) (p2 : Nat)
    (p3 : Operand) : EndsWith (after (Gen.put op p1 p2 p3) s).code (e.behind op) :=
  h.behind hs.bounded (x := ⟨op, p1, p2, p3, s.buffer.line⟩) hop

theorem replace (h : EndsWith s.code e) {op : Opcode} (hop : op.isJump = false) (hcall : op ≠ .call) (p1 : Int)
    (p2 : Nat) (p3 : Operand) :
    EndsWith (after (do takeBack; Gen.put op p1 p2 p3) s).code ⟨op, false, e.joined⟩ :=
  h.rewrite (x := ⟨op, p1, p2, p3, s.buffer.line⟩) hop hcall

theorem operator (h : EndsWith s.code e) (hs : SteadyState s) (op : Operator) (p1 : Int) :
    EndsWith (after (Gen.operator op p1) s).code (e.operated op) := by
  unfold Gen.operator CodeEnd.operated
  cases hcode : op.opcode? with
  | none => exact h
  | some code =>
      have hplain := (isPlain_opcode hcode).1
      simp [Opcode.isPlain] at hplain
      exact h.putBehind hs hplain.1.1 p1 0 .none

theorem modifyLast {f : Instruction → Instruction} (h : EndsWith s.code e) (hop : ∀ x, (f x).op = x.op)
    (hjump : ∀ x, x.op.isJump = true → f x = x) : EndsWith (after (Gen.modifyLast f) s).code e := by
  rw [after_modifyLast]
  show EndsWith (s.code.modify (s.code.size - 1) f) e
  refine ⟨?_, h.plain, fun hcall => ?_, Iff.trans (Code.joined_congr (Array.size_modify ..) fun i x hx => ?_) h.joined⟩
  · rw [← h.op, Array.back?_eq_getElem?, Array.back?_eq_getElem?, Array.size_modify, Array.getElem?_modify, if_pos rfl,
      Option.map_map]
    exact congrArg (Option.map · _) (funext hop)
  · rw [← h.method hcall]
    unfold Code.beforeLast?
    rw [Array.size_modify]
    split
    · rw [Array.getElem?_modify, if_neg (by omega)]
    · rfl
  · rw [Array.getElem?_modify]
    split
    · rw [Option.map_eq_some_iff]
      constructor
      · rintro ⟨y, hy, rfl⟩
        rw [hjump y (hop y ▸ hx)]
        exact hy
      · exact fun hi => ⟨x, hi, hjump x hx⟩
    · exact Iff.rfl

end EndsWith

/-- What an operator does with an operand that ends with `e`. -/
inductive Rewriter.Does (w : Rewriter) (e : CodeEnd) (s : GenState) : Prop
  /-- It puts an instruction in the place of the last one. -/
  | takes (ht : w.takes e = true) {op : Opcode} (hop : op.isJump = false) (hcall : op ≠ .call) (p1 : Int) (p2 : Nat)
      (p3 : Operand) (hgen : after w.gen s = after (do takeBack; put op p1 p2 p3) s)
      (hend : e.rewritten w = ⟨op, false, e.joined⟩)
  /-- It adds an instruction. -/
  | adds (ht : w.takes e = false) {op : Opcode} (hop : op.isJump = false) (hcall : op ≠ .call) (p1 : Int) (p2 : Nat)
      (p3 : Operand) (hgen : after w.gen s = after (put op p1 p2 p3) s) (hend : e.rewritten w = .single op)
  | marks (hw : w = .markCallee)

theorem Rewriter.does (w : Rewriter) {s : GenState} {e : CodeEnd} (h : EndsWith s.code e) : w.Does e s := by
  obtain ⟨x, hx, hop, -⟩ := h.last
  cases w with
  | store =>
      have gen : after Rewriter.store.gen s = after (if e.op = .member then put .store 0 1 .none
          else if e.op = .loadIdx then do
            takeBack
            put .storeIdx x.p1 0 .none
          else do
            takeBack
            put .store 0 0 x.p3) s := by
        unfold Rewriter.gen Gen.store
        rw [after_bind, result_last?, after_last?, hx, ← hop]
        dsimp only
        split
        · rename_i hmember
          rw [if_pos hmember]
        · rename_i hindex
          rw [if_neg (by simp [hindex]), if_pos hindex]
        · rename_i hmember hindex
          rw [if_neg hmember, if_neg hindex]
      split at gen
      · rename_i hmember
        exact .adds (by rw [takes, hmember]; rfl) rfl (by decide) 0 1 .none gen
          (by simp [CodeEnd.rewritten, takes, CodeEnd.single, hmember])
      split at gen
      · rename_i hindex
        exact .takes (by rw [takes, hindex]; rfl) rfl (by decide) x.p1 0 .none gen
          (by simp [CodeEnd.rewritten, takes, hindex])
      · rename_i hmember hindex
        exact .takes (by simpa [takes] using hmember) rfl (by decide) 0 0 x.p3 gen
          (by simp [CodeEnd.rewritten, takes, hmember, hindex])
  | create =>
      have condition : (x.op == .call && !(result beforeLast? s).any (·.op == .member)) = Rewriter.create.takes e := by
        rw [takes, hop]
        by_cases hcall : e.op = .call
        · rw [← h.method hcall]
          rfl
        · rw [beq_eq_false_iff_ne.mpr hcall, Bool.false_and, Bool.false_and]
      have gen : after Rewriter.create.gen s = after (if Rewriter.create.takes e then do
            takeBack
            put .new x.p1 0 .none
          else put .new 0 0 .none) s := by
        unfold Rewriter.gen Gen.create
        rw [after_bind, result_last?, after_last?, hx]
        dsimp only
        rw [after_bind, condition]
        rfl
      cases htakes : Rewriter.create.takes e with
      | true =>
          rw [htakes] at gen
          exact .takes htakes rfl (by decide) x.p1 0 .none gen (by rw [CodeEnd.rewritten, htakes, Bool.and_true])
      | false =>
          rw [htakes] at gen
          exact .adds htakes rfl (by decide) 0 0 .none gen (by rw [CodeEnd.rewritten, htakes, Bool.and_false]; rfl)
  | staticMember =>
      have gen : after Rewriter.staticMember.gen s = after (if Rewriter.staticMember.takes e then do
            takeBack
            put .member 1 0 x.p3
          else put .member 1 0 .none) s := by
        unfold Rewriter.gen Gen.staticMember
        rw [after_bind, result_last?, after_last?, hx]
        dsimp only
        rw [hop]
        rfl
      cases htakes : Rewriter.staticMember.takes e with
      | true =>
          rw [htakes] at gen
          exact .takes htakes rfl (by decide) 1 0 x.p3 gen (by rw [CodeEnd.rewritten, htakes, Bool.and_true])
      | false =>
          rw [htakes] at gen
          exact .adds htakes rfl (by decide) 1 0 .none gen (by rw [CodeEnd.rewritten, htakes, Bool.and_false]; rfl)
  | markCallee => exact .marks rfl

namespace EndsWith

variable {s : GenState} {e : CodeEnd}

/-- What is called stays the same instruction, and it is no jump. -/
theorem markCallee (h : EndsWith s.code e) : EndsWith (after Gen.markCallee s).code e := by
  unfold Gen.markCallee
  refine h.modifyLast (fun x => ?_) fun x hx => ?_
  · split <;> rfl
  · split
    · rename_i hop
      rw [hop] at hx
      cases hx
    · rename_i hop
      rw [hop] at hx
      cases hx
    · rename_i hop
      rw [hop] at hx
      cases hx
    · rfl

theorem rewriter (h : EndsWith s.code e) (hs : SteadyState s) (w : Rewriter) :
    EndsWith (after w.gen s).code (e.rewritten w) := by
  cases w.does h with
  | takes _ hop hcall p1 p2 p3 hgen hend =>
      rw [hgen, hend]
      exact h.replace hop hcall p1 p2 p3
  | adds _ hop hcall p1 p2 p3 hgen hend =>
      rw [hgen, hend]
      exact put hs.bounded hop hcall p1 p2 p3
  | marks hw =>
      rw [hw]
      exact h.markCallee

/-- A function is loaded by itself, or by its name if it has one to itself. -/
theorem loadFunction (f : FunctionDef) (hs : Bounded s.code s.code.size) :
    s.errors ≤ (after (Gen.loadFunction f) s).errors ∧
    ((after (Gen.loadFunction f) s).errors = s.errors →
      EndsWith (after (Gen.loadFunction f) s).code (.single (if f.flags.isClosure then .loadClosure else .loadc))) := by
  unfold Gen.loadFunction
  cases f.flags.isClosure with
  | true => exact ⟨Nat.le_refl _, fun _ => put (s := after (addClosure f) s) hs rfl (by decide) 0 0 _⟩
  | false =>
      rw [if_neg (by decide), if_neg (by decide), after_bind]
      have code : (after (installFunction f) s).code = s.code := by
        unfold installFunction
        rw [after_modifyGet]
        split <;> rfl
      have reports : (after (installFunction f) s).errors = s.errors := by
        unfold installFunction
        rw [after_modifyGet]
        split <;> rfl
      rw [← reports]
      cases result (installFunction f) s with
      | true =>
          refine ⟨Nat.le_refl _, fun _ => ?_⟩
          exact put (s := after (Gen.intern (·.addOwnString f.name)) (after (installFunction f) s)) (code ▸ hs) rfl
            (by decide) 0 _ .none
      | false =>
          have lost := errors_lt_report f.line (after (installFunction f) s)
            (show (Problem.duplicateClosure f.name).severity = .error from rfl)
          exact ⟨Nat.le_of_lt lost, fun he => absurd he (Nat.ne_of_gt lost)⟩

end EndsWith

/-! ### Generators and how they end -/

/-- A generator takes no error back. -/
def Rises {α : Type} (m : Gen α) : Prop := ∀ s, s.errors ≤ (after m s).errors

theorem Rises.bind {α β : Type} {m : Gen α} {f : α → Gen β} (hm : Rises m) (hf : ∀ a, Rises (f a)) : Rises (m >>= f) := by
  intro s
  rw [after_bind]
  exact Nat.le_trans (hm s) (hf _ _)

theorem rises_of_valued {α : Type} {m : Gen α} (h : Valued m) : Rises m := fun s => Grown.errors_le (h s).frame

theorem rises_of_eq {α : Type} {m : Gen α} (h : ∀ s, (after m s).errors = s.errors) : Rises m :=
  fun s => Nat.le_of_eq (h s).symm

/-- Without an error, the code of a generator ends so. -/
structure LeadsTo (m : Gen Unit) (e : CodeEnd) : Prop where
  rises : Rises m
  ends : ∀ s, SteadyState s → (after m s).errors = s.errors → EndsWith (after m s).code e

theorem Rewriter.errors_gen (w : Rewriter) (s : GenState) : (after w.gen s).errors = s.errors := by
  cases w with
  | markCallee => rfl
  | store =>
      unfold Rewriter.gen Gen.store
      rw [after_bind, result_last?, after_last?]
      cases s.code.back? with
      | none => rfl
      | some x =>
          dsimp only
          split <;> rfl
  | create =>
      unfold Rewriter.gen Gen.create
      rw [after_bind, result_last?, after_last?]
      cases s.code.back? with
      | none => rfl
      | some x =>
          dsimp only
          rw [after_bind]
          split <;> rfl
  | staticMember =>
      unfold Rewriter.gen Gen.staticMember
      rw [after_bind, result_last?, after_last?]
      cases s.code.back? with
      | none => rfl
      | some x =>
          dsimp only
          split <;> rfl

namespace LeadsTo

variable {e : CodeEnd} {operand left right value target condition yes no args callee base key : Gen Unit}

/-- What comes first does not matter. -/
theorem behind {α : Type} {m : Gen α} {f : α → Gen Unit} (hm : Valued m) (h : ∀ a, LeadsTo (f a) e) :
    LeadsTo (m >>= f) e where
  rises := (rises_of_valued hm).bind fun a => (h a).rises
  ends := by
    intro s hs he
    rw [after_bind] at he ⊢
    have first := rises_of_valued hm s
    have second := (h (result m s)).rises (after m s)
    exact (h _).ends _ (hs.run (hm s)) (by omega)

/-- What comes behind an operand, and reports nothing, changes its end. -/
theorem andThen {m : Gen Unit} {e' : CodeEnd} (h : LeadsTo operand e) (hv : Valued operand)
    (hm : ∀ t, (after m t).errors = t.errors)
    (hends : ∀ t, SteadyState t → EndsWith t.code e → EndsWith (after m t).code e') :
    LeadsTo (do operand; m) e' where
  rises := h.rises.bind fun _ => rises_of_eq hm
  ends := by
    intro s hs he
    rw [after_bind, hm] at he
    rw [after_bind]
    exact hends _ (hs.run (hv s)) (h.ends s hs he)

/-- What is reported leads nowhere. -/
theorem report (line : Nat) {problem : Problem} (hp : problem.severity = .error) (e : CodeEnd) :
    LeadsTo (Gen.report line problem) e where
  rises := rises_of_valued (valued_report line problem)
  ends := fun s _ he => absurd he (Nat.ne_of_gt (errors_lt_report line s hp))

theorem put {op : Opcode} (hop : op.isJump = false) (hcall : op ≠ .call) (p1 : Int) (p2 : Nat) (p3 : Operand) :
    LeadsTo (Gen.put op p1 p2 p3) (.single op) where
  rises := fun _ => Nat.le_refl _
  ends := fun _ hs _ => .put hs.bounded hop hcall p1 p2 p3

/-- Behind what an operand leaves, the operand's own end is changed. -/
theorem rewriter (w : Rewriter) (h : LeadsTo operand e) (hv : Valued operand) :
    LeadsTo (do operand; w.gen) (e.rewritten w) := by
  exact h.andThen hv w.errors_gen fun t ht he => he.rewriter ht w

theorem operator (h : LeadsTo operand e) (hv : Valued operand) (op : Operator) (p1 : Int) :
    LeadsTo (do operand; Gen.operator op p1) (e.operated op) :=
  h.andThen hv (errors_operator op p1) fun _ ht he => he.operator ht op p1

/-! ### Nodes of an expression tree -/

theorem prefixed (line : Nat) (op : Operator) (h : LeadsTo operand e) (hv : Valued operand) :
    LeadsTo (Gen.prefixed line op operand) (if op = .new then e.rewritten .create else e.operated op) := by
  refine behind (valued_setLine line) fun _ => ?_
  split
  · exact h.rewriter .create hv
  · exact h.operator hv .incr 1
  · exact h.operator hv .decr 1
  · rename_i hnew _ _
    rw [if_neg hnew]
    exact h.operator hv op 0

theorem postfixed (line : Nat) (op : Operator) (h : LeadsTo operand e) (hv : Valued operand) :
    LeadsTo (Gen.postfixed line op operand) (e.operated op) :=
  behind (valued_setLine line) fun _ => h.operator hv op 0

theorem assign (line : Nat) (op : Operator) (hvalue : Valued value) (h : LeadsTo target e) (hv : Valued target) :
    LeadsTo (Gen.assign line op value target) (if op = .assign then e.rewritten .store else e.operated op) := by
  refine behind (valued_setLine line) fun _ => behind hvalue fun _ => ?_
  split
  · exact h.rewriter .store hv
  · rename_i hassign
    rw [if_neg hassign]
    exact h.operator hv op 0

end LeadsTo

/-- A jump that is emitted to be filled in later. -/
theorem SteadyState.emit {s : GenState} (hs : SteadyState s) (op : Opcode) (p1 : Int) (p3 : Operand) :
    SteadyState (after (Gen.emit op p1 0 p3) s) :=
  hs.beside (.emit hs.filed op p1 p3)

/-- The second branch of a conditional starts behind the jump past it. -/
theorem SteadyState.otherwise {yes : Gen Unit} (hyes : Valued yes) {s : GenState} (hs : SteadyState s) :
    SteadyState (after (landHere s.code.size)
      (after (Gen.emit .jmp 0 0 .none) (after yes (after (Gen.emit .jmpz 0 0 .none) s)))) := by
  have branch := (Beside.emit hs.filed .jmpz 0 .none).trans ((hyes _).sound (hs.emit .jmpz 0 .none).filed)
  exact hs.beside ((branch.trans (.emit branch.filed .jmp 0 .none)).land (Nat.le_refl _))

/-- Where nothing is reported, what is generated behind an instruction leaves it. -/
theorem SteadyState.kept {m : Gen Unit} (hm : Valued m) {s : GenState} (hs : SteadyState s)
    (he : (after m s).errors = s.errors) {i : Nat} {x : Instruction} (hx : s.code[i]? = some x) :
    (after m s).code[i]? = some x := by
  have hi : i < s.code.size := (Array.getElem?_eq_some_iff.mp hx).1
  rw [((hm s).spares hs.filed.stack).kept i hi (.inr he), hx]

namespace LeadsTo

variable {e : CodeEnd} {operand left right value target condition yes no args callee base key : Gen Unit}

/-- The right operand of a short circuit ends at a join. -/
theorem shortCircuit {jump : Opcode} (hj : jump.isJump = true) (op : Operator) (h : LeadsTo right e)
    (hv : Valued right) : LeadsTo (Gen.shortCircuit jump op right) { e.operated op with joined := true } where
  rises := by
    refine (rises_of_eq fun _ => rfl).bind fun _ => h.rises.bind fun _ => ?_
    exact (rises_of_eq (errors_operator op 0)).bind fun _ => rises_of_eq fun _ => rfl
  ends := by
    intro s hs he
    have opened := hs.emit jump 1 .none
    have ended := (h.operator hv op 0).ends _ opened he
    refine ended.land (x := ⟨jump, 1, 0, .none, s.buffer.line⟩) ?_ hj
    exact opened.kept (hv.bind fun _ => valued_operator op 0) he Array.getElem?_push_size

theorem binary (line : Nat) (op : Operator) (hleft : Valued left) (h : LeadsTo right e) (hv : Valued right) :
    LeadsTo (Gen.binary line op left right) (e.between op) := by
  refine behind (valued_setLine line) fun _ => behind hleft fun _ => ?_
  split
  · exact behind emits_drop.valued fun _ => h
  · exact shortCircuit rfl _ h hv
  · exact shortCircuit rfl _ h hv
  · exact h.rewriter .staticMember hv
  · have ending : e.between op = e.operated op := by
      unfold CodeEnd.between
      split <;> first | rfl | contradiction
    rw [ending]
    exact h.operator hv op 0

/-- The branches of a conditional meet behind the last one. -/
theorem ternary (line : Nat) (hcondition : Valued condition) (hyes : Valued yes) (h : LeadsTo no e) (hv : Valued no) :
    LeadsTo (Gen.ternary line condition yes no) { e with joined := true } := by
  refine behind (valued_setLine line) fun _ => behind hcondition fun _ => ⟨?_, fun s hs he => ?_⟩
  · exact (rises_of_eq fun _ => rfl).bind fun _ => (rises_of_valued hyes).bind fun _ => (rises_of_eq fun _ => rfl).bind
      fun _ => (rises_of_eq fun _ => rfl).bind fun _ => h.rises.bind fun _ => rises_of_eq fun _ => rfl
  · -- The first branch ends at `t` with the jump past the second one, which starts at `u`.
    obtain ⟨t, ht⟩ : ∃ t, t = after yes (after (emit .jmpz 0 0 .none) s) := ⟨_, rfl⟩
    obtain ⟨u, hu⟩ : ∃ u, u = after (landHere s.code.size) (after (emit .jmp 0 0 .none) t) := ⟨_, rfl⟩
    have first := rises_of_valued hyes (after (emit .jmpz 0 0 .none) s)
    have second := h.rises u
    have end_ : after (do
        let skip ← emit .jmpz 0 0 .none
        yes
        let out ← emit .jmp 0 0 .none
        landHere skip
        no
        landHere out) s = after (landHere t.code.size) (after no u) := by
      rw [hu, ht]
      rfl
    rw [end_] at he ⊢
    have errors_t : t.errors = u.errors := by
      rw [hu]
      rfl
    have errors_s : s.errors = (after (emit .jmpz 0 0 .none) s).errors := rfl
    have errors_no : (after (landHere t.code.size) (after no u)).errors = (after no u).errors := rfl
    have steady : SteadyState u := by
      rw [hu, ht]
      exact hs.otherwise hyes
    have silent : (after no u).errors = u.errors := by
      rw [← ht] at first
      omega
    have behind : s.code.size + 1 ≤ t.code.size := by
      have grows := (hyes (after (emit .jmpz 0 0 .none) s)).frame.grows
      rwa [← ht, after_emit, Array.size_push] at grows
    have out : u.code[t.code.size]? = some ⟨.jmp, 0, 0, .none, t.buffer.line⟩ := by
      rw [hu, after_landHere]
      exact Code.getElem?_patch_push (Nat.ne_of_lt behind) _ _
    exact (h.ends u steady silent).land (steady.kept hv silent out) rfl

/-- What is marked is called behind it. -/
theorem call (line count : Nat) (hargs : Valued args) (h : LeadsTo callee e) (hv : Valued callee) :
    LeadsTo (Gen.call line count args callee) (e.behind .call) := by
  refine behind (valued_setLine line) fun _ => behind hargs fun _ => ?_
  refine h.andThen hv (fun _ => rfl) fun t ht he => ?_
  exact he.markCallee.putBehind (ht.beside (Beside.refl ht.filed).mark) rfl _ _ _

theorem index (line : Nat) (store : Bool) (hbase : Valued base) (hkey : Valued key) :
    LeadsTo (Gen.index line store base key) (.single .loadIdx) :=
  behind (valued_setLine line) fun _ => behind hbase fun _ => behind hkey fun _ => put rfl (by decide) _ _ _

theorem append (line : Nat) (store : Bool) (hbase : Valued base) :
    LeadsTo (Gen.append line store base) (.single .loadIdx) :=
  behind (valued_setLine line) fun _ => behind hbase fun _ => put rfl (by decide) _ _ _

/-! ### Leaves -/

theorem loadSlot (slot : Nat) : LeadsTo (Gen.loadSlot slot) (.single .loadc) := put rfl (by decide) 0 slot .none

theorem intern {add : ConstantPool → Nat × ConstantPool} (h : ∀ p : ConstantPool, p.Grows (add p).2) (p1 : Int) :
    LeadsTo (do Gen.put .loadc p1 (← Gen.intern add) .none) (.single .loadc) :=
  behind (valued_intern h) fun slot => put rfl (by decide) p1 slot .none

theorem string (text : String) : LeadsTo (Gen.string text) (.single .loadc) :=
  intern (fun _ => ConstantPool.Grows.refl.string text) 0

theorem number (t : Token) : LeadsTo (Gen.number t) (.single .loadc) := by
  have int (v : Int64) : LeadsTo (loadConstant (·.addInt v)) (.single .loadc) :=
    intern (fun _ => ConstantPool.Grows.refl.int v) 0
  have real : LeadsTo (loadConstant (·.addReal (readReal t.text.toList))) (.single .loadc) :=
    intern (fun _ => ConstantPool.Grows.refl.real _) 0
  unfold Gen.number
  split
  · split
    · exact int _
    · split
      · exact real
      · exact behind (valued_report _ _) fun _ => int _
  · exact real

theorem nameOrNull (name : Option String) : LeadsTo (Gen.nameOrNull name) (.single .loadc) := by
  cases name with
  | none => exact loadSlot _
  | some text => exact string text

theorem name (path : Option Nat) (t : Token) : LeadsTo (Gen.name path t) (.single .loadc) := by
  refine behind (valued_notePath path) fun _ => ?_
  split
  · exact loadSlot _
  · split
    · exact intern (fun _ => ConstantPool.Grows.refl.int _) 0
    · exact behind Valued.get fun _ => string _
    · exact behind Valued.get fun _ => string _
    · exact behind valued_currentClass fun _ => nameOrNull _
    · exact behind valued_currentFunction fun _ => nameOrNull _
    · exact behind valued_currentFunction fun _ => nameOrNull _
    · exact intern (fun _ => ConstantPool.Grows.refl.string _) 1

/-- The last look-up of a variable. -/
theorem lookUp (access : Access) (p1 : Int) {p3 : Operand} (hp3 : ∀ p, p3.Exists p) (n : Nat) :
    LeadsTo (do Gen.put .load p1 0 p3; Gen.lookUp access n) (.single .load) := by
  induction n generalizing p1 p3 with
  | zero => exact ⟨fun _ => Nat.le_refl _, fun _ hs _ => .put hs.bounded rfl (by decide) p1 0 p3⟩
  | succ n ih =>
      exact behind (emits_put rfl p1 0 p3 (by decide) hp3).valued fun _ => ih _ (by exact fun _ => trivial)

theorem loadVariable (access : Access) (line : Nat) (name : String) (extra : Nat) :
    LeadsTo (Gen.loadVariable access line name extra) (.single .load) :=
  behind (valued_setLine line) fun _ => lookUp access _ (by exact fun _ => trivial) extra

theorem computedVariable (access : Access) (line braceLine : Nat) (isPresent : Bool) {name : Gen Unit}
    (h : Valued name) (stray : Option Nat) (extra : Nat) :
    LeadsTo (Gen.computedVariable access line braceLine isPresent name stray extra) (.single .load) := by
  refine behind (valued_setLine braceLine) fun _ => behind h fun _ => behind (valued_cutShort stray) fun _ => ?_
  split
  · exact lookUp access _ (by exact fun _ => trivial) extra
  · exact report _ rfl _

theorem array (count : Nat) {entries : Gen Unit} (h : Valued entries) (incomplete : Option Nat) :
    LeadsTo (Gen.array count entries incomplete) (.single .loadMap) := by
  refine behind h fun _ => ?_
  split
  · exact behind (valued_setLine _) fun _ => report _ rfl _
  · exact put rfl (by decide) _ _ _

theorem list (count : Nat) {targets : Gen Unit} (h : Valued targets) :
    LeadsTo (Gen.list count targets) (.single .loadList) :=
  behind h fun _ => put rfl (by decide) _ _ _

/-- The word of a construct is called like a name. -/
theorem construct (word : String) (isPresent : Bool) {argument : Gen Unit} (h : Valued argument) :
    LeadsTo (Gen.construct word isPresent argument) (.single .call) :=
  behind h fun _ => (string word).andThen (emits_string word).valued (fun _ => rfl) fun _ ht he =>
    he.putBehind ht rfl _ _ _

/-- A function is loaded behind its making, as what its head says. -/
theorem ends_functionDef {s t : GenState} {body : Gen Unit} (head : FunctionHead) (args : List Argument)
    (captures : List Capture) (hb : Flows body) (hs : SteadyState s) (h : Run (.value (Argument.made args)) s t)
    (he : (after (do loadFunction { (← functionDef head args body) with captures := captures }) t).errors = s.errors) :
    EndsWith (after (do loadFunction { (← functionDef head args body) with captures := captures }) t).code
      (.single (if head.flags.isClosure then .loadClosure else .loadc)) := by
  have made := run_functionDef head args hb h
  have rises := Grown.errors_le made.frame
  have flags : (result (functionDef head args body) t).flags = head.flags := by
    unfold functionDef
    dsimp only
    split <;> rfl
  rw [after_bind] at he ⊢
  obtain ⟨more, ends⟩ := EndsWith.loadFunction { result (functionDef head args body) t with captures := captures }
    (hs.run made).bounded
  rw [flags] at ends
  exact ends (by omega)

theorem closure {params : Gen (List Argument)} {body : Gen Unit} (line : Nat) (returns : TypeSpec)
    (hp : Makes params Argument.made) (fault : Option Report) (captures : Option CaptureList) (hb : Flows body) :
    LeadsTo (Gen.closure line returns params fault captures body)
      (.single (if captures.isSome then .loadClosure else .loadc)) where
  rises := rises_of_valued (emits_closure line returns hp fault captures hb).valued
  ends := by
    intro s hs he
    have hname : Valued nextClosureName :=
      valued_of_quiet fun _ =>
        ⟨rfl, rfl, rfl, rfl, rfl, rfl, List.prefix_rfl, .refl, rfl, List.prefix_rfl, List.prefix_rfl, List.prefix_rfl⟩
    have args := (makes_arguments hp fault (after nextClosureName s)).andThen (valued_captureReports captures _)
    unfold Gen.closure at he ⊢
    rw [after_bind, after_bind, after_bind] at he ⊢
    exact ends_functionDef ⟨result nextClosureName s, returns, line,
      { isAnonymous := true, isClosure := captures.isSome }⟩ _ _ hb (hs.run (hname s)) args he

end LeadsTo

/-! ### Expressions -/

/-- A piece of a string that is not there is reported. -/
theorem Piece.isPresent_of_silent (p : Piece) {s : GenState} (h : (after p.gen s).errors = s.errors) :
    p.isPresent = true := by
  cases p with
  | text | value => rfl
  | rejected errors error =>
      change (after (report error.line (.tree error.fault)) (after (reportAll (lexReports errors)) s)).errors = s.errors at h
      have first := rises_of_valued (valued_reportAll (lexReports errors)) s
      have second := errors_lt_report error.line (after (reportAll (lexReports errors)) s)
        (show (Problem.tree error.fault).severity = .error from rfl)
      omega

theorem Piece.isPresent_of_allSilent (ps : List Piece) {s : GenState} (h : (after (Piece.genAll ps) s).errors = s.errors) :
    ∀ p ∈ ps, p.isPresent = true := by
  induction ps generalizing s with
  | nil => exact nofun
  | cons p ps ih =>
      rw [Piece.genAll_cons, after_bind] at h
      have first := rises_of_valued (Piece.emits_gen p).valued s
      have second := rises_of_valued (Piece.valued_genAll ps) (after p.gen s)
      exact List.forall_mem_cons.mpr ⟨p.isPresent_of_silent (s := s) (by omega), ih (s := after p.gen s) (by omega)⟩

/-- The pieces of a string are put together at its end. -/
theorem leads_pieces (first second : Piece) (rest : List Piece) :
    LeadsTo (do
      first.gen
      Piece.genAll (second :: rest)
      joinPieces ((first :: second :: rest).countP Piece.isPresent)) (.single .add) where
  rises := rises_of_valued ((Piece.emits_gen first).bind fun _ =>
    (Piece.valued_genAll (second :: rest)).bind fun _ => valued_joinPieces _).valued
  ends := by
    intro s hs he
    have pieces := Piece.valued_genAll (second :: rest)
    have one := rises_of_valued (Piece.emits_gen first).valued s
    have others := rises_of_valued pieces (after first.gen s)
    have silent : (after (Piece.genAll (second :: rest)) (after first.gen s)).errors = s.errors := by
      have joining := rises_of_valued (valued_joinPieces ((first :: second :: rest).countP Piece.isPresent))
        (after (Piece.genAll (second :: rest)) (after first.gen s))
      rw [after_bind, after_bind] at he
      omega
    have present : ∀ p ∈ first :: second :: rest, p.isPresent = true :=
      List.forall_mem_cons.mpr ⟨first.isPresent_of_silent (s := s) (by omega),
        Piece.isPresent_of_allSilent (second :: rest) (s := after first.gen s) (by omega)⟩
    rw [after_bind, after_bind, List.countP_eq_length.mpr present, joinPieces,
      if_pos (by rw [List.length_cons, List.length_cons]; omega)]
    exact .put ((hs.run ((Piece.emits_gen first).valued s)).run (pieces _)).bounded rfl (by decide) _ _ _

/-- A string of one piece is that piece. -/
theorem leads_piece {first : Piece} {e : CodeEnd} (h : LeadsTo first.gen e) :
    LeadsTo (do
      first.gen
      Piece.genAll []
      joinPieces ([first].countP Piece.isPresent)) e := by
  have alone : ∀ t, after (do Piece.genAll []; joinPieces ([first].countP Piece.isPresent)) t = t := by
    intro t
    have few : ¬1 < [first].countP Piece.isPresent := Nat.not_lt.mpr List.countP_le_length
    rw [joinPieces, if_neg few]
    rfl
  refine h.andThen (Piece.emits_gen first).valued (fun t => ?_) fun t _ he => ?_
  · rw [alone]
  · rw [alone]
    exact he

mutual

theorem Leaf.leads_genTree (access : Access) : (t : Tree Leaf) → LeadsTo (Leaf.genTree access t) (Leaf.treeEnding t)
  | .leaf _ content => Leaf.leads_gen access content
  | .prefixed _ _ x => (Leaf.leads_genTree access x).prefixed _ _ (Leaf.emits_genTree access x).valued
  | .postfixed _ _ x => (Leaf.leads_genTree access x).postfixed _ _ (Leaf.emits_genTree access x).valued
  | .binary _ _ x y =>
    (Leaf.leads_genTree access y).binary _ _ (Leaf.emits_genTree access x).valued
      (Leaf.emits_genTree access y).valued
  | .assign _ _ target value =>
    (Leaf.leads_genTree access.target target).assign _ _ (Leaf.emits_genTree access value).valued
      (Leaf.emits_genTree access.target target).valued
  | .ternary _ c x y =>
    (Leaf.leads_genTree access y).ternary _ (Leaf.emits_genTree access c).valued
      (Leaf.emits_genTree access x).valued (Leaf.emits_genTree access y).valued
  | .call _ f xs =>
    (Leaf.leads_genTree access f).call _ _ (Leaf.valued_genTrees access.argument xs)
      (Leaf.emits_genTree access f).valued
  | .index _ x k => LeadsTo.index _ _ (Leaf.emits_genTree access x).valued (Leaf.emits_genTree access.key k).valued
  | .append _ x => LeadsTo.append _ _ (Leaf.emits_genTree access x).valued

theorem Leaf.leads_gen (access : Access) : (l : Leaf) → LeadsTo (l.gen access) l.ending
  | .unread line => LeadsTo.report line rfl _
  | .number t => LeadsTo.number t
  | .simpleString _ => LeadsTo.string _
  | .template first [] => leads_piece (Piece.leads_gen first)
  | .template first (second :: rest) => leads_pieces first second rest
  | .variable _ _ _ => LeadsTo.loadVariable _ _ _ _
  | .computedVariable _ _ name _ _ =>
    LeadsTo.computedVariable _ _ _ _ (Expr.valued_gen _ _ name) _ _
  | .blankVariable _ _ => LeadsTo.behind (valued_setLine _) fun _ => LeadsTo.report _ rfl _
  | .name _ _ => LeadsTo.name _ _
  | .array entries _ => LeadsTo.array _ (Entry.valued_genAll entries) _
  | .list targets => LeadsTo.list _ (Expr.valued_genTargets targets)
  | .closure _ _ params _ _ body =>
    LeadsTo.closure _ _ (Parameter.makes_genAll params) _ _ (Stmt.flows_gen body)
  | .construct _ argument => LeadsTo.construct _ _ (Expr.valued_gen _ _ argument)

theorem Piece.leads_gen : (p : Piece) → LeadsTo p.gen p.ending
  | .text text => LeadsTo.string text
  | .value _ root => LeadsTo.behind (valued_reportAll _) fun _ => Leaf.leads_genTree {} root
  | .rejected _ _ => LeadsTo.behind (valued_reportAll _) fun _ => LeadsTo.report _ rfl _

end

/-! ### Every rewriting of an expression -/

/-- What an operator emits between its operands. -/
def Operator.separator : Operator → Gen Unit
  | .comma => drop
  | .logAnd => put .jmpz 1 0 .none
  | .logOr => put .jmpnz 1 0 .none
  | _ => pure ()

/-- The direct parts of a tree, each with what it is wanted for and the state it is generated from when the tree is
generated from `s`. -/
inductive Part (access : Access) (s : GenState) : Tree Leaf → Access → Tree Leaf → GenState → Prop
  | prefixed (p : Place) (op : Operator) (x : Tree Leaf) :
      Part access s (.prefixed p op x) access x (after (setLine p.line) s)
  | postfixed (p : Place) (op : Operator) (x : Tree Leaf) :
      Part access s (.postfixed p op x) access x (after (setLine p.line) s)
  | left (p : Place) (op : Operator) (x y : Tree Leaf) :
      Part access s (.binary p op x y) access x (after (setLine p.line) s)
  | right (p : Place) (op : Operator) (x y : Tree Leaf) :
      Part access s (.binary p op x y) access y
        (after op.separator (after (Leaf.genTree access x) (after (setLine p.line) s)))
  | value (p : Place) (op : Operator) (target value : Tree Leaf) :
      Part access s (.assign p op target value) access value (after (setLine p.line) s)
  | target (p : Place) (op : Operator) (target value : Tree Leaf) :
      Part access s (.assign p op target value) access.target target
        (after (Leaf.genTree access value) (after (setLine p.line) s))
  | condition (p : Place) (c x y : Tree Leaf) :
      Part access s (.ternary p c x y) access c (after (setLine p.line) s)
  | yes (p : Place) (c x y : Tree Leaf) {t : GenState} (ht : t = after (Leaf.genTree access c) (after (setLine p.line) s)) :
      Part access s (.ternary p c x y) access x (after (emit .jmpz 0 0 .none) t)
  | no (p : Place) (c x y : Tree Leaf) {t : GenState} (ht : t = after (Leaf.genTree access c) (after (setLine p.line) s)) :
      Part access s (.ternary p c x y) access y (after (landHere t.code.size)
        (after (emit .jmp 0 0 .none) (after (Leaf.genTree access x) (after (emit .jmpz 0 0 .none) t))))
  | argument (p : Place) (f x : Tree Leaf) (before behind : List (Tree Leaf)) :
      Part access s (.call p f (before ++ x :: behind)) access.argument x
        (after (Leaf.genTrees access.argument before) (after (setLine p.line) s))
  | callee (p : Place) (f : Tree Leaf) (xs : List (Tree Leaf)) :
      Part access s (.call p f xs) access f (after (Leaf.genTrees access.argument xs) (after (setLine p.line) s))
  | base (p : Place) (x k : Tree Leaf) : Part access s (.index p x k) access x (after (setLine p.line) s)
  | key (p : Place) (x k : Tree Leaf) :
      Part access s (.index p x k) access.key k (after (Leaf.genTree access x) (after (setLine p.line) s))
  | appended (p : Place) (x : Tree Leaf) : Part access s (.append p x) access x (after (setLine p.line) s)

/-- While a tree is generated from `s`, an operator looks at the last instruction of an operand, behind which the
state is `r`. -/
inductive Rewrites : Access → Tree Leaf → GenState → Rewriter → Tree Leaf → GenState → Prop
  | create (access : Access) (p : Place) (x : Tree Leaf) (s : GenState) :
      Rewrites access (.prefixed p .new x) s .create x (after (Leaf.genTree access x) (after (setLine p.line) s))
  | staticMember (access : Access) (p : Place) (x y : Tree Leaf) (s : GenState) :
      Rewrites access (.binary p .doubleColon x y) s .staticMember y
        (after (Leaf.genTree access y) (after (Leaf.genTree access x) (after (setLine p.line) s)))
  | store (access : Access) (p : Place) (target value : Tree Leaf) (s : GenState) :
      Rewrites access (.assign p .assign target value) s .store target
        (after (Leaf.genTree access.target target) (after (Leaf.genTree access value) (after (setLine p.line) s)))
  | markCallee (access : Access) (p : Place) (f : Tree Leaf) (xs : List (Tree Leaf)) (s : GenState) :
      Rewrites access (.call p f xs) s .markCallee f
        (after (Leaf.genTree access f) (after (Leaf.genTrees access.argument xs) (after (setLine p.line) s)))
  | part {access access' : Access} {t u operand : Tree Leaf} {s r q : GenState} {w : Rewriter}
      (h : Part access s t access' u r) (hr : Rewrites access' u r w operand q) : Rewrites access t s w operand q

theorem Leaf.rises_genTree (access : Access) (t : Tree Leaf) : Rises (Leaf.genTree access t) :=
  rises_of_valued (Leaf.emits_genTree access t).valued

theorem Leaf.after_genTrees_append (access : Access) (ts us : List (Tree Leaf)) (s : GenState) :
    after (Leaf.genTrees access (ts ++ us)) s = after (Leaf.genTrees access us) (after (Leaf.genTrees access ts) s) := by
  induction ts generalizing s with
  | nil => rfl
  | cons t ts ih => rw [List.cons_append, Leaf.genTrees_cons, Leaf.genTrees_cons, after_bind, after_bind, ih]

theorem Operator.rises_separator (op : Operator) : Rises op.separator := by
  unfold Operator.separator
  split <;> exact rises_of_eq fun _ => rfl

theorem SteadyState.separator {s : GenState} (hs : SteadyState s) (op : Operator) : SteadyState (after op.separator s) := by
  unfold Operator.separator
  split
  · exact hs.run (emits_drop.valued s)
  · exact hs.emit .jmpz 1 .none
  · exact hs.emit .jmpnz 1 .none
  · exact hs

/-- What follows the operand of an operator in front of it. -/
theorem rises_prefixing (op : Operator) : Rises (match op with
    | .new => Gen.create
    | .incr | .decr => Gen.operator op 1
    | _ => Gen.operator op 0) := by
  split
  · exact rises_of_eq (Rewriter.errors_gen .create)
  · exact rises_of_eq (errors_operator _ 1)
  · exact rises_of_eq (errors_operator _ 1)
  · exact rises_of_eq (errors_operator _ 0)

/-- What an operator does with its right operand comes to the same or more than the operand itself. -/
theorem errors_between (op : Operator) (right : Gen Unit) (s : GenState) :
    (after right (after op.separator s)).errors ≤ (after (match op with
      | .comma => do
        drop
        right
      | .logAnd => Gen.shortCircuit .jmpz op right
      | .logOr => Gen.shortCircuit .jmpnz op right
      | .doubleColon => do
        right
        Gen.staticMember
      | _ => do
        right
        Gen.operator op 0) s).errors := by
  split
  · exact Nat.le_refl _
  · exact rises_of_eq (errors_operator .logAnd 0) (after right (after (emit .jmpz 1 0 .none) s))
  · exact rises_of_eq (errors_operator .logOr 0) (after right (after (emit .jmpnz 1 0 .none) s))
  · exact rises_of_eq (Rewriter.errors_gen .staticMember) _
  · have none : op.separator = pure () := by
      unfold Operator.separator
      split <;> first | rfl | contradiction
    rw [none]
    exact rises_of_eq (errors_operator op 0) _

theorem rises_assigning (op : Operator) : Rises (match op with
    | .assign => Gen.store
    | _ => Gen.operator op 0) := by
  split
  · exact rises_of_eq (Rewriter.errors_gen .store)
  · exact rises_of_eq (errors_operator _ 0)

theorem errors_otherwise {no : Gen Unit} (h : Rises no) (skip out : Nat) (t : GenState) : t.errors ≤
    (after (landHere out) (after no (after (landHere skip) (after (emit .jmp 0 0 .none) t)))).errors :=
  h (after (landHere skip) (after (emit .jmp 0 0 .none) t))

namespace Part

variable {access access' : Access} {t u : Tree Leaf} {s r : GenState}

/-- A part starts with a steady state. -/
theorem steady (h : Part access s t access' u r) (hs : SteadyState s) : SteadyState r := by
  have started (line : Nat) : SteadyState (after (setLine line) s) := hs.run (valued_setLine line s)
  have ran {s : GenState} (hs : SteadyState s) (access : Access) (x : Tree Leaf) :
      SteadyState (after (Leaf.genTree access x) s) :=
    hs.run ((Leaf.emits_genTree access x).valued s)
  cases h with
  | prefixed p | postfixed p | left p | value p | condition p | base p | appended p => exact started p.line
  | right p op x y => exact (ran (started p.line) access x).separator op
  | target p op target value => exact ran (started p.line) access value
  | yes p c x y ht =>
      rw [ht]
      exact (ran (started p.line) access c).emit .jmpz 0 .none
  | no p c x y ht =>
      rw [ht]
      exact (ran (started p.line) access c).otherwise (Leaf.emits_genTree access x).valued
  | argument p f x before behind => exact (started p.line).run (Leaf.valued_genTrees access.argument before _)
  | callee p f xs => exact (started p.line).run (Leaf.valued_genTrees access.argument xs _)
  | key p x k => exact ran (started p.line) access x

/-- What is reported before a part, in it and behind it adds up. -/
theorem rises (h : Part access s t access' u r) :
    s.errors ≤ r.errors ∧ (after (Leaf.genTree access' u) r).errors ≤ (after (Leaf.genTree access t) s).errors := by
  cases h with
  | prefixed p op x =>
      exact ⟨Nat.le_refl _, rises_prefixing op _⟩
  | postfixed p op x =>
      exact ⟨Nat.le_refl _, rises_of_eq (errors_operator op 0) _⟩
  | left p op x y =>
      refine ⟨Nat.le_refl _, ?_⟩
      have right := (op.rises_separator.bind fun _ => Leaf.rises_genTree access y)
        (after (Leaf.genTree access u) (after (setLine p.line) s))
      exact Nat.le_trans right (errors_between op (Leaf.genTree access y) _)
  | right p op x y =>
      exact ⟨((Leaf.rises_genTree access x).bind fun _ => op.rises_separator) (after (setLine p.line) s),
        errors_between op (Leaf.genTree access u) _⟩
  | value p op target value =>
      exact ⟨Nat.le_refl _, ((Leaf.rises_genTree access.target target).bind fun _ => rises_assigning op) _⟩
  | target p op target value =>
      exact ⟨Leaf.rises_genTree access value (after (setLine p.line) s), rises_assigning op _⟩
  | condition p c x y =>
      have yes := Leaf.rises_genTree access x
        (after (emit .jmpz 0 0 .none) (after (Leaf.genTree access u) (after (setLine p.line) s)))
      exact ⟨Nat.le_refl _, Nat.le_trans yes (errors_otherwise (Leaf.rises_genTree access y) _ _ _)⟩
  | yes p c x y ht =>
      rw [Leaf.genTree_ternary, ht]
      exact ⟨Leaf.rises_genTree access c (after (setLine p.line) s), errors_otherwise (Leaf.rises_genTree access y) _ _ _⟩
  | no p c x y ht =>
      rw [Leaf.genTree_ternary, ht]
      have condition := Leaf.rises_genTree access c (after (setLine p.line) s)
      have yes := Leaf.rises_genTree access x
        (after (emit .jmpz 0 0 .none) (after (Leaf.genTree access c) (after (setLine p.line) s)))
      exact ⟨Nat.le_trans condition yes, Nat.le_refl _⟩
  | argument p f x before behind =>
      refine ⟨rises_of_valued (Leaf.valued_genTrees access.argument before) (after (setLine p.line) s), ?_⟩
      have others := rises_of_valued (Leaf.valued_genTrees access.argument behind)
        (after (Leaf.genTree access.argument u) (after (Leaf.genTrees access.argument before) (after (setLine p.line) s)))
      have called : (after (Leaf.genTree access (.call p f (before ++ u :: behind))) s).errors =
          (after (Leaf.genTree access f)
            (after (Leaf.genTrees access.argument (before ++ u :: behind)) (after (setLine p.line) s))).errors := rfl
      rw [called, Leaf.after_genTrees_append, Leaf.genTrees_cons, after_bind]
      exact Nat.le_trans others (Leaf.rises_genTree access f _)
  | callee p f xs =>
      exact ⟨rises_of_valued (Leaf.valued_genTrees access.argument xs) (after (setLine p.line) s), Nat.le_refl _⟩
  | base p x k =>
      exact ⟨Nat.le_refl _, Leaf.rises_genTree access.key k _⟩
  | key p x k =>
      exact ⟨Leaf.rises_genTree access x (after (setLine p.line) s), Nat.le_refl _⟩
  | appended p x =>
      exact ⟨Nat.le_refl _, Nat.le_refl _⟩

end Part

/-- Where nothing is reported in a tree, nothing is in its parts. -/
theorem Part.silent {access access' : Access} {t u : Tree Leaf} {s r : GenState} (h : Part access s t access' u r)
    (he : (after (Leaf.genTree access t) s).errors = s.errors) :
    (after (Leaf.genTree access' u) r).errors = r.errors := by
  have around := h.rises
  have inside := Leaf.rises_genTree access' u r
  omega

/-- A part ends as it says, in a steady state. -/
theorem Part.ends {access access' : Access} {t u : Tree Leaf} {s r : GenState} (h : Part access s t access' u r)
    (hs : SteadyState s) (he : (after (Leaf.genTree access t) s).errors = s.errors) :
    SteadyState (after (Leaf.genTree access' u) r) ∧
      EndsWith (after (Leaf.genTree access' u) r).code (Leaf.treeEnding u) :=
  ⟨(h.steady hs).run ((Leaf.emits_genTree access' u).valued r),
    (Leaf.leads_genTree access' u).ends r (h.steady hs) (h.silent he)⟩

/-- What an operator looks at is the end of its operand. -/
theorem Rewrites.ends {access : Access} {t operand : Tree Leaf} {s r : GenState} {w : Rewriter}
    (h : Rewrites access t s w operand r) (hs : SteadyState s) (he : (after (Leaf.genTree access t) s).errors = s.errors) :
    SteadyState r ∧ EndsWith r.code (Leaf.treeEnding operand) := by
  induction h with
  | create access p x s => exact (Part.prefixed p .new x).ends hs he
  | staticMember access p x y s => exact (Part.right p .doubleColon x y).ends hs he
  | store access p target value s => exact (Part.target p .assign target value).ends hs he
  | markCallee access p f xs s => exact (Part.callee p f xs).ends hs he
  | part h _ ih => exact ih (h.steady hs) (h.silent he)

/-- What takes the place of an instruction has the same jumps behind it. -/
theorem CodeEnd.joined_rewritten {w : Rewriter} {e : CodeEnd} (h : w.takes e = true) :
    (e.rewritten w).joined = e.joined := by
  cases w <;> simp [rewritten, h]

/-- An operator that does not take the last instruction of an operand leaves its code as it is. -/
theorem Rewriter.extends_of_not_takes {w : Rewriter} {e : CodeEnd} {s : GenState} (h : EndsWith s.code e)
    (hw : w.takes e = false) : Extends s.code (after w.gen s).code := by
  cases w.does h with
  | takes ht => exact absurd (ht.symm.trans hw) (by decide)
  | adds _ _ _ _ _ _ hgen _ =>
      rw [hgen]
      exact .push s.code _
  | marks hmark =>
      obtain ⟨x, -, hop, hx, -⟩ := h.last
      subst hmark
      refine ⟨Nat.le_of_eq (Array.size_modify ..).symm, fun i _ => ?_⟩
      show (s.code.modify (s.code.size - 1) _)[i]? = _
      rw [Array.getElem?_modify]
      split
      · rename_i hi
        rw [← hi, hx, Option.map_some]
        simp [Rewriter.takes, ← hop] at hw
        split <;> simp_all
      · rfl

/-- An operator that takes the last instruction of an operand has one in its place. -/
theorem Rewriter.size_of_takes {w : Rewriter} {e : CodeEnd} {s : GenState} (h : EndsWith s.code e)
    (hw : w.takes e = true) : (after w.gen s).code.size = s.code.size := by
  cases w.does h with
  | takes _ _ _ _ _ _ hgen _ =>
      obtain ⟨x, -, -, -, hpos⟩ := h.last
      rw [hgen, after_bind, after_put, after_takeBack, Array.size_push, Array.size_pop]
      omega
  | adds ht => exact absurd (ht.symm.trans hw) (by decide)
  | marks hmark =>
      rw [hmark]
      exact Array.size_modify ..

/-- Where an expression that reports nothing is generated, every operator that looks at the last instruction of an
operand either leaves all code as it is, or takes that one instruction into itself, and whether it does and whether a
jump goes past the instruction are both told by how the operand ends.  So a branch escapes the rewriting exactly if
the operand ends where branches meet and its last instruction is one that the operator takes. -/
theorem Leaf.rewrites_past_joins {access : Access} {t operand : Tree Leaf} {s r : GenState} {w : Rewriter}
    (hs : SteadyState s) (he : (after (Leaf.genTree access t) s).errors = s.errors)
    (h : Rewrites access t s w operand r) :
    (Code.Joined r.code ↔ (Leaf.treeEnding operand).joined = true) ∧
    (w.takes (Leaf.treeEnding operand) = false → Extends r.code (after w.gen r).code) ∧
    (w.takes (Leaf.treeEnding operand) = true → (after w.gen r).code.size = r.code.size ∧
      (Code.Joined (after w.gen r).code ↔ Code.Joined r.code)) := by
  obtain ⟨steady, ends⟩ := h.ends hs he
  refine ⟨ends.joined, Rewriter.extends_of_not_takes ends, fun hw => ⟨Rewriter.size_of_takes ends hw, ?_⟩⟩
  rw [(ends.rewriter steady w).joined, CodeEnd.joined_rewritten hw, ends.joined]

/-- In `($a ? f : g)()` the name `g` is marked as what is called and `f`, behind which the jump to the call goes, is
not. -/
theorem Leaf.rewrites_past_joins_conditional :
    let place : Place := ⟨0, 0, 1⟩
    let name (text : String) : Tree Leaf := .leaf place (.name none ⟨.name, text, 1⟩)
    let callee : Tree Leaf := .ternary place (.leaf place (.variable 1 "a" 0)) (name "f") (name "g")
    let s := GenState.initial {}
    let r := after (Leaf.genTree {} callee) (after (Leaf.genTrees .reading []) (after (setLine 1) s))
    (after (Leaf.genTree {} (.call place callee [])) s).errors = s.errors ∧
    (after (Leaf.genTree {} (.call place callee [])) s).code =
      #[⟨.load, 0, 0, .name "a", 1⟩, ⟨.jmpz, 0, 4, .none, 1⟩, ⟨.loadc, 1, 3, .none, 1⟩, ⟨.jmp, 0, 5, .none, 1⟩,
        ⟨.loadc, 0, 4, .none, 1⟩, ⟨.call, 0, 0, .none, 1⟩] ∧
    Code.Joined r.code ∧ (after Gen.markCallee r).code.size = r.code.size := by
  intro place name callee s r
  have silent : (after (Leaf.genTree {} (.call place callee [])) s).errors = s.errors := by decide +kernel
  have step : Rewrites {} (.call place callee []) s .markCallee callee r := .markCallee {} place callee [] s
  obtain ⟨joined, -, takes⟩ := Leaf.rewrites_past_joins ⟨filed_initial {}, (open_initial {}).jumps⟩ silent step
  have size := (takes (by decide +kernel)).1
  exact ⟨silent, Code.eq_of_parts (by decide +kernel), joined.mpr (by decide +kernel), size⟩

end StackScript
