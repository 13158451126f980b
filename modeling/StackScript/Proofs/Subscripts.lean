/-
What becomes of subscripts.

The instruction of a subscript tells whether a missing entry is created.  On the way to what is stored into it has to
be: the target of an assignment creates what its entries and members are taken of.  That an entry is created is handed
down the target, and a key and the arguments of a call are kept from it; every other part of the target is not, so a
subscript that is merely read there creates an entry as well.  `Leaf.treeSubscripts` follows an expression in the order
in which it is compiled and tells of each subscript on which way it is reached.
-/
import StackScript.Proofs.Assignment
import StackScript.Proofs.ClassDeclarations

namespace StackScript

open Gen

/-! ### Where a subscript stands -/

/-- What a part of an expression is to the part around it. -/
inductive Duty where
  /-- What an entry or a member is taken of. -/
  | base
  /-- A key of an entry. -/
  | key
  /-- An argument of a call. -/
  | argument
  /-- Whatever else is read: what is called, a condition and its branches, an operand, a value that is assigned. -/
  | operand
deriving DecidableEq

/-- What an operator with a member on its right has on its left is what the member is taken of. -/
def Operator.leftDuty : Operator → Duty
  | arrow | doubleColon => .base
  | _ => .operand

/-- The way down to a part of an expression from the target of the innermost assignment around it, if there is one. -/
abbrev Route := Option (List Duty)

namespace Route

/-- The target of an assignment itself. -/
def target : Route := some []

/-- One part further down. -/
def down (r : Route) (d : Duty) : Route := r.map (· ++ [d])

/-- That entries are created is handed down everywhere but to keys and arguments. -/
def creates (r : Route) : Bool := r.any fun ds => !ds.contains .key && !ds.contains .argument

/-- What is stored into is reached through subscripts and member accesses only. -/
def isBase (r : Route) : Bool := r.any fun ds => ds.all (· == .base)

/-- Inside a target, but not inside a key or an argument, something is read that the target is not based on. -/
def leaks (r : Route) : Bool := r.creates && r.any fun ds => ds.contains .operand

theorem creates_base (r : Route) : (r.down .base).creates = r.creates := by
  cases r <;> simp [down, creates, List.contains_eq_mem]

theorem creates_operand (r : Route) : (r.down .operand).creates = r.creates := by
  cases r <;> simp [down, creates, List.contains_eq_mem]

theorem creates_key (r : Route) : (r.down .key).creates = false := by
  cases r <;> simp [down, creates, List.contains_eq_mem]

theorem creates_argument (r : Route) : (r.down .argument).creates = false := by
  cases r <;> simp [down, creates, List.contains_eq_mem]

theorem creates_leftDuty (r : Route) (op : Operator) : (r.down op.leftDuty).creates = r.creates := by
  unfold Operator.leftDuty
  split
  · exact r.creates_base
  · exact r.creates_base
  · exact r.creates_operand

theorem isBase_iff {ds : List Duty} : isBase (some ds) = true ↔ ∀ d ∈ ds, d = .base := by
  simp [isBase]

theorem creates_iff {ds : List Duty} : creates (some ds) = true ↔ .key ∉ ds ∧ .argument ∉ ds := by
  simp [creates, List.contains_eq_mem]

theorem leaks_iff {ds : List Duty} : leaks (some ds) = true ↔ (.key ∉ ds ∧ .argument ∉ ds) ∧ .operand ∈ ds := by
  simp [leaks, creates, List.contains_eq_mem]

/-- What is stored into is created on the way. -/
theorem creates_of_isBase {r : Route} (h : r.isBase = true) : r.creates = true := by
  cases r with
  | none => cases h
  | some ds =>
      rw [isBase_iff] at h
      exact creates_iff.mpr ⟨fun hkey => Duty.noConfusion (h _ hkey), fun hargument => Duty.noConfusion (h _ hargument)⟩

theorem creates_of_leaks {r : Route} (h : r.leaks = true) : r.creates = true := (Bool.and_eq_true_iff.mp h).1

/-- Nothing else is created just where nothing leaks. -/
theorem isBase_iff_not_leaks {r : Route} (h : r.creates = true) : r.isBase = true ↔ r.leaks = false := by
  cases r with
  | none => cases h
  | some ds =>
      rw [isBase_iff, ← Bool.not_eq_true, leaks_iff]
      have read := creates_iff.mp h
      constructor
      · exact fun hbase hleaks => Duty.noConfusion (hbase _ hleaks.2)
      · intro hleaks d hd
        cases d with
        | base => rfl
        | key => exact absurd hd read.1
        | argument => exact absurd hd read.2
        | operand => exact absurd ⟨read, hd⟩ hleaks

end Route

/-- Only a subscript loads an entry. -/
theorem Operator.eq_subscript {op : Operator} (h : op.opcode? = some .loadIdx) : op = .subscript := by
  cases op with
  | subscript => rfl
  | cast type => cases type <;> cases h
  | _ => cases h

/-- A subscript that is written like another operator is no part of a target. -/
def Operator.subscripts (op : Operator) : List Route := if op = .subscript then [none] else []

mutual

/-- The subscripts of an expression, but for those in code of its own: each way on which one of its instructions that
load an entry is reached. -/
def Expr.subscripts : Expr → List Route
  | .tree root => Leaf.treeSubscripts none root
  | _ => []

/-- The subscripts of a tree that is reached on a way.  An equals sign turns the last instruction of its target into
its own. -/
def Leaf.treeSubscripts (r : Route) : Tree Leaf → List Route
  | .leaf _ content => content.subscripts
  | .prefixed _ op x | .postfixed _ op x => Leaf.treeSubscripts (r.down .operand) x ++ op.subscripts
  | .binary _ op x y =>
    Leaf.treeSubscripts (r.down op.leftDuty) x ++ (Leaf.treeSubscripts (r.down .operand) y ++ op.subscripts)
  | .assign _ op target value =>
    Leaf.treeSubscripts (r.down .operand) value ++
      if op = .assign then
        if (Leaf.treeEnding target).op = .loadIdx then (Leaf.treeSubscripts .target target).dropLast
        else Leaf.treeSubscripts .target target
      else Leaf.treeSubscripts .target target ++ op.subscripts
  | .ternary _ c x y =>
    Leaf.treeSubscripts (r.down .operand) c ++
      (Leaf.treeSubscripts (r.down .operand) x ++ Leaf.treeSubscripts (r.down .operand) y)
  | .call _ f xs => Leaf.allSubscripts (r.down .argument) xs ++ Leaf.treeSubscripts (r.down .operand) f
  | .index _ x k => Leaf.treeSubscripts (r.down .base) x ++ (Leaf.treeSubscripts (r.down .key) k ++ [r])
  | .append _ x => Leaf.treeSubscripts (r.down .base) x ++ [r]

def Leaf.allSubscripts (r : Route) : List (Tree Leaf) → List Route
  | [] => []
  | t :: ts => Leaf.treeSubscripts r t ++ Leaf.allSubscripts r ts

/-- The parts of a leaf are expressions of their own. -/
def Leaf.subscripts : Leaf → List Route
  | .template first rest => first.subscripts ++ Piece.allSubscripts rest
  | .computedVariable _ _ name _ _ => name.subscripts
  | .array entries _ => Entry.allSubscripts entries
  | .list targets => Expr.allSubscripts targets
  | .construct _ argument => argument.subscripts
  | _ => []

def Piece.subscripts : Piece → List Route
  | .value _ root => Leaf.treeSubscripts none root
  | _ => []

def Piece.allSubscripts : List Piece → List Route
  | [] => []
  | p :: ps => p.subscripts ++ Piece.allSubscripts ps

def Entry.subscripts : Entry → List Route
  | .plain _ value _ | .unkeyed _ value _ => value.subscripts
  | .keyed _ key _ value _ => key.subscripts ++ value.subscripts

def Entry.allSubscripts : List Entry → List Route
  | [] => []
  | e :: es => e.subscripts ++ Entry.allSubscripts es

def Expr.allSubscripts : List Expr → List Route
  | [] => []
  | e :: es => e.subscripts ++ Expr.allSubscripts es

end

/-! ### The instructions of subscripts -/

/-- Code that nothing has changed in comes first. -/
theorem Extends.isPrefix {a b : Code} (h : Extends a b) : a.toList <+: b.toList := by
  refine ⟨b.toList.drop a.size, List.ext_getElem? fun i => ?_⟩
  rw [List.getElem?_append, Array.length_toList]
  split
  · rename_i hi
    rw [Array.getElem?_toList, Array.getElem?_toList, h.kept i hi]
  · rw [List.getElem?_drop]
    congr 1
    omega

/-- Whether an instruction that loads an entry creates a missing one. -/
def Instruction.creation? (x : Instruction) : Option Bool := if x.op = .loadIdx then some (x.p2 != 0) else none

/-- The instructions of some code that load entries, each by whether it creates a missing one. -/
def Code.creations (code : Code) : List Bool := code.toList.filterMap Instruction.creation?

namespace Code

variable {code : Code} {x : Instruction}

theorem creations_push (code : Code) (x : Instruction) :
    Code.creations (code.push x) = Code.creations code ++ x.creation?.toList := filterMap_push _ code x

/-- An instruction of another kind creates nothing. -/
theorem creations_push_of_ne (h : x.op ≠ .loadIdx) : Code.creations (code.push x) = Code.creations code := by
  rw [creations_push, Instruction.creation?, if_neg h]
  exact List.append_nil _

theorem creations_pop_of_ne (hx : code.back? = some x) (h : x.op ≠ .loadIdx) :
    Code.creations code.pop = Code.creations code := by
  have last := filterMap_pop Instruction.creation? hx
  rw [Instruction.creation?, if_neg h] at last
  exact (last.trans (List.append_nil _)).symm

/-- Filling in the target of a jump. -/
theorem creations_patch {i : Nat} (hx : code[i]? = some x) (hjump : x.op.isJump = true) (target : Nat) :
    Code.creations (code.patch i target) = Code.creations code := by
  refine filterMap_modify _ code i fun y hy => ?_
  have hne : y.op ≠ .loadIdx := by
    rw [hx] at hy
    cases hy
    intro hop
    rw [hop] at hjump
    cases hjump
  rw [Instruction.creation?, Instruction.creation?, if_neg hne, if_neg hne]

end Code

namespace Gen

variable {α β : Type} {us vs ws : List Bool} {operand left right value target condition yes no args callee base key : Gen Unit}

/-! ### Steps without subscripts -/

/-- A generator that adds and takes no instruction of a subscript. -/
def Indexless (m : Gen α) : Prop := ∀ s, (after m s).code.creations = s.code.creations

namespace Indexless

theorem bind {m : Gen α} {f : α → Gen β} (hm : Indexless m) (hf : ∀ a, Indexless (f a)) : Indexless (m >>= f) :=
  fun s => (hf _ _).trans (hm s)

theorem of {m : Gen α} (h : ∀ s, (after m s).code = s.code) : Indexless m := fun s => congrArg Code.creations (h s)

theorem pure (a : α) : Indexless (pure a : Gen α) := fun _ => rfl

theorem ite {c : Prop} [Decidable c] {m m' : Gen α} (h : Indexless m) (h' : Indexless m') :
    Indexless (if c then m else m') := by
  split
  · exact h
  · exact h'

theorem put {op : Opcode} (hop : op ≠ .loadIdx) (p1 : Int) (p2 : Nat) (p3 : Operand) : Indexless (put op p1 p2 p3) :=
  fun _ => Code.creations_push_of_ne hop

/-- Taking an instruction of another kind back for one that is no subscript either. -/
theorem replace {s : GenState} {x : Instruction} (hx : s.code.back? = some x) (hne : x.op ≠ .loadIdx) {op : Opcode}
    (hop : op ≠ .loadIdx) (p1 : Int) (p2 : Nat) (p3 : Operand) :
    (after (do takeBack; Gen.put op p1 p2 p3) s).code.creations = s.code.creations :=
  (Code.creations_push_of_ne hop).trans (Code.creations_pop_of_ne hx hne)

theorem create : Indexless create := by
  intro s
  unfold Gen.create
  rw [after_bind, result_last?, after_last?]
  cases hx : s.code.back? with
  | none => exact put (by decide) 0 0 .none s
  | some x =>
      dsimp only
      rw [after_bind]
      split
      · rename_i hcall
        refine replace hx ?_ (by decide) x.p1 0 .none
        rintro hop
        rw [hop] at hcall
        cases hcall
      · exact put (by decide) 0 0 .none s

theorem staticMember : Indexless staticMember := by
  intro s
  unfold Gen.staticMember
  rw [after_bind, result_last?, after_last?]
  cases hx : s.code.back? with
  | none => exact put (by decide) 1 0 .none s
  | some x =>
      dsimp only
      split
      · rename_i hload
        refine replace hx ?_ (by decide) 1 0 x.p3
        rintro hop
        rw [hop] at hload
        cases hload
      · exact put (by decide) 1 0 .none s

theorem markCallee : Indexless markCallee := by
  refine fun s => Code.filterMap_modify _ s.code _ fun x _ => ?_
  split
  · rename_i hop
    simp [Instruction.creation?, hop]
  · rename_i hop
    simp [Instruction.creation?, hop]
  · rename_i hop
    simp [Instruction.creation?, hop]
  · rfl

theorem loadSlot (slot : Nat) : Indexless (loadSlot slot) := put (by decide) 0 slot .none

theorem loadConstant (add : ConstantPool → Nat × ConstantPool) : Indexless (loadConstant add) :=
  bind (.of fun _ => rfl) loadSlot

theorem number (t : Token) : Indexless (number t) := by
  unfold Gen.number
  split
  · split
    · exact loadConstant _
    · exact ite (loadConstant _) (bind (.of fun _ => rfl) fun _ => loadConstant _)
  · exact loadConstant _

theorem nameOrNull (name : Option String) : Indexless (nameOrNull name) := by
  cases name with
  | none => exact loadSlot _
  | some text => exact loadConstant _

theorem notePath (path : Option Nat) : Indexless (notePath path) := by
  cases path with
  | none => exact pure ()
  | some line =>
      refine bind (.of fun _ => rfl) fun s => ite ?_ (pure ())
      exact bind (.of fun _ => rfl) fun _ => .of fun _ => rfl

theorem currentClass : Indexless currentClass := by
  refine bind (.of fun _ => rfl) fun s => ?_
  split <;> exact pure _

theorem currentFunction : Indexless currentFunction := by
  refine bind (.of fun _ => rfl) fun s => ?_
  split <;> exact pure _

theorem name (path : Option Nat) (t : Token) : Indexless (name path t) := by
  refine bind (notePath path) fun _ => ?_
  split
  · exact loadSlot _
  · split
    · exact loadConstant _
    · exact bind (.of fun _ => rfl) fun _ => loadConstant _
    · exact bind (.of fun _ => rfl) fun _ => loadConstant _
    · exact bind currentClass fun _ => nameOrNull _
    · exact bind currentFunction fun _ => nameOrNull _
    · exact bind currentFunction fun _ => nameOrNull _
    · exact bind (.of fun _ => rfl) fun _ => put (by decide) 1 _ .none

theorem lookUp (access : Access) (n : Nat) : Indexless (lookUp access n) := by
  induction n with
  | zero => exact pure ()
  | succ n ih => exact bind (put (by decide) _ 0 .none) fun _ => ih

theorem loadVariable (access : Access) (line : Nat) (name : String) (extra : Nat) :
    Indexless (loadVariable access line name extra) :=
  bind (.of fun _ => rfl) fun _ => bind (put (by decide) _ 0 _) fun _ => lookUp access extra

theorem cutShort (stray : Option Nat) : Indexless (cutShort stray) := by
  cases stray with
  | none => exact pure ()
  | some line => exact .of fun _ => rfl

theorem installFunction (f : FunctionDef) : Indexless (installFunction f) := by
  refine .of fun s => ?_
  unfold Gen.installFunction
  rw [after_modifyGet]
  split <;> rfl

theorem loadFunction (f : FunctionDef) : Indexless (loadFunction f) := by
  refine ite ?_ (bind (installFunction f) fun _ => ite (loadConstant _) (.of fun _ => rfl))
  exact bind (.of fun _ => rfl) fun _ => put (by decide) 0 0 _

theorem captureReports (captures : Option CaptureList) : Indexless (captureReports captures) := by
  have fault (r : Option Report) : Indexless (reportFault r) := .of (KeepsCode.reportFault r)
  cases captures with
  | none => exact pure ()
  | some list => exact bind (fault _) fun _ => fault _

/-- The body of an anonymous function is code of its own. -/
theorem closure (line : Nat) (returns : TypeSpec) (params : List Parameter) (fault : Option Report)
    (captures : Option CaptureList) (body : Gen Unit) :
    Indexless (closure line returns (Parameter.genAll params) fault captures body) :=
  bind (.of fun _ => rfl) fun _ => bind (.of (KeepsCode.arguments (Parameter.keepsCode_genAll params) fault)) fun _ =>
    bind (captureReports captures) fun _ => bind (.of (KeepsCode.functionDef _ _ body)) fun _ => loadFunction _

end Indexless

/-! ### What a generator adds -/

/-- Without an error, a generator of values adds these instructions of subscripts. -/
structure Creates (us : List Bool) (m : Gen α) : Prop where
  valued : Valued m
  adds : ∀ s, SteadyState s → (after m s).errors = s.errors → (after m s).code.creations = s.code.creations ++ us

namespace Creates

theorem congr {m : Gen α} (h : Creates us m) (huv : us = vs) : Creates vs m := huv ▸ h

theorem of {m : Gen α} (hm : Valued m) (h : Indexless m) : Creates [] m where
  valued := hm
  adds := by
    intro s _ _
    rw [h s, List.append_nil]

theorem bind {m : Gen α} {f : α → Gen β} (hm : Creates us m) (hf : ∀ a, Creates vs (f a)) :
    Creates (us ++ vs) (m >>= f) where
  valued := hm.valued.bind fun a => (hf a).valued
  adds := by
    intro s hs he
    rw [after_bind] at he ⊢
    have first := rises_of_valued hm.valued s
    have second := rises_of_valued (hf (result m s)).valued (after m s)
    rw [(hf _).adds _ (hs.run (hm.valued s)) (by omega), hm.adds s hs (by omega), List.append_assoc]

/-- What comes first adds nothing. -/
theorem behind {m : Gen α} {f : α → Gen β} (hm : Creates [] m) (hf : ∀ a, Creates us (f a)) : Creates us (m >>= f) :=
  hm.bind hf

/-- What comes last adds nothing. -/
theorem before {m : Gen α} {f : α → Gen β} (hm : Creates us m) (hf : ∀ a, Creates [] (f a)) : Creates us (m >>= f) :=
  (hm.bind hf).congr (List.append_nil us)

/-- Behind operands, of which something came, what an operator does to the end adds nothing. -/
theorem andThen {m : Gen Unit} (h : Creates us operand) (hv : Valued (do operand; m))
    (hm : ∀ t, (after m t).errors = t.errors)
    (hadds : ∀ s t, SteadyState s → t = after operand s → t.errors = s.errors →
      t.code.creations = s.code.creations ++ us → (after m t).code.creations = s.code.creations ++ vs) :
    Creates vs (do operand; m) where
  valued := hv
  adds := by
    intro s hs he
    rw [after_bind, hm] at he
    exact hadds s _ hs rfl he (h.adds s hs he)

theorem report (line : Nat) (problem : Problem) : Creates [] (report line problem) :=
  of (valued_report line problem) (.of fun _ => rfl)

theorem setLine (line : Nat) : Creates [] (setLine line) := of (valued_setLine line) (.of fun _ => rfl)

/-! ### Nodes of an expression tree -/

/-- The instruction of an operator is that of a subscript just if the operator is one. -/
theorem operator (op : Operator) (p1 : Int) : Creates (op.subscripts.map Route.creates) (operator op p1) where
  valued := valued_operator op p1
  adds := by
    intro s _ _
    unfold Gen.operator Operator.subscripts
    cases hcode : op.opcode? with
    | none =>
        have hne : op ≠ .subscript := fun h => by simp [h, Operator.opcode?] at hcode
        rw [if_neg hne]
        exact (List.append_nil _).symm
    | some own =>
        refine (Code.creations_push _ _).trans (congrArg _ ?_)
        by_cases hsubscript : op = .subscript
        · rw [hsubscript] at hcode ⊢
          cases hcode
          rfl
        · rw [Instruction.creation?, if_neg (fun h => hsubscript (Operator.eq_subscript (hcode.trans (congrArg some h)))), if_neg hsubscript]
          rfl

theorem operated (h : Creates us operand) (op : Operator) (p1 : Int) :
    Creates (us ++ op.subscripts.map Route.creates) (do operand; Gen.operator op p1) :=
  h.bind fun _ => operator op p1

/-- An operator that takes the last instruction of its operand back takes no subscript. -/
theorem rewriter (h : Creates us operand) {w : Rewriter} (hv : Valued (do operand; w.gen)) (hw : Indexless w.gen) :
    Creates us (do operand; w.gen) :=
  h.andThen hv w.errors_gen fun _ _ _ _ _ hadds => (hw _).trans hadds

theorem prefixed (line : Nat) (op : Operator) (h : Creates us operand) (he : Emits operand) :
    Creates (us ++ op.subscripts.map Route.creates) (prefixed line op operand) := by
  refine behind (setLine line) fun _ => ?_
  split
  · exact (rewriter h (w := .create) (he.take takes_create).valued .create).congr (List.append_nil us).symm
  · exact h.operated .incr 1
  · exact h.operated .decr 1
  · exact h.operated op 0

theorem postfixed (line : Nat) (op : Operator) (h : Creates us operand) :
    Creates (us ++ op.subscripts.map Route.creates) (postfixed line op operand) :=
  behind (setLine line) fun _ => h.operated op 0

/-- A jump that is emitted and, behind what it skips, filled in. -/
theorem landing {jump : Opcode} (hj : jump = .jmpz ∨ jump = .jmpnz) (h : Creates us operand) :
    Creates us (do
      let i ← emit jump 1 0 .none
      operand
      landHere i) where
  valued := fun s => Run.skip hj (h.valued _)
  adds := by
    intro s hs he
    have opened : SteadyState (after (emit jump 1 0 .none) s) := hs.emit jump 1 .none
    have added := h.adds _ opened he
    have kept := opened.kept h.valued he Array.getElem?_push_size
    have plain : jump ≠ .loadIdx ∧ jump.isJump = true := by
      rcases hj with rfl | rfl
      · exact ⟨by decide, rfl⟩
      · exact ⟨by decide, rfl⟩
    refine (Code.creations_patch kept plain.2 _).trans (added.trans (congrArg (· ++ us) ?_))
    exact Code.creations_push_of_ne plain.1

theorem binary (line : Nat) (op : Operator) (hl : Creates us left) (hr : Creates vs right) (he : Emits right) :
    Creates (us ++ (vs ++ op.subscripts.map Route.creates)) (binary line op left right) := by
  refine behind (setLine line) fun _ => hl.bind fun _ => ?_
  split
  · exact behind (of emits_drop.valued (.put (by decide) 1 0 .none)) fun _ => hr.congr (List.append_nil vs).symm
  · exact landing (.inl rfl) (hr.operated .logAnd 0)
  · exact landing (.inr rfl) (hr.operated .logOr 0)
  · exact (rewriter hr (w := .staticMember) (he.take takes_staticMember).valued .staticMember).congr
      (List.append_nil vs).symm
  · exact hr.operated op 0

/-- An equals sign turns the last instruction of its target into its own. -/
theorem store (h : Creates us target) (he : Emits target) {e : CodeEnd} (hl : LeadsTo target e) :
    Creates (if e.op = .loadIdx then us.dropLast else us) (do target; store) := by
  refine h.andThen (he.take takes_store).valued (Rewriter.errors_gen .store) fun s t hs ht silent hadds => ?_
  have ends : EndsWith t.code e := ht ▸ hl.ends s hs (ht ▸ silent)
  obtain ⟨x, hx, hop, -⟩ := ends.last
  have stored : (after Gen.store t).code = Operator.assign.assigned t.buffer.line x t.code := code_store hx
  rw [stored, Operator.assigned, if_pos rfl, hop]
  split
  · rename_i hmember
    rw [if_neg (by rw [hmember]; decide)]
    exact (Code.creations_push_of_ne Opcode.noConfusion).trans hadds
  split
  · rename_i hindex
    refine (Code.creations_push_of_ne Opcode.noConfusion).trans ?_
    -- The target comes to more than nothing, so what was there before it is left.
    have longer : s.code.size < t.code.size := ht ▸ (he s).2.resolve_right (by rw [← ht, silent]; exact Nat.lt_irrefl _)
    have front : ∃ vs, Code.creations t.code.pop = s.code.creations ++ vs := by
      have kept : Extends s.code t.code.pop := by
        refine ⟨by rw [Array.size_pop]; omega, fun i hi => ?_⟩
        rw [Array.getElem?_pop, if_pos (by omega), ht]
        exact (hs.kept he.valued (ht ▸ silent) (Array.getElem?_eq_getElem hi)).trans (Array.getElem?_eq_getElem hi).symm
      obtain ⟨rest, hrest⟩ := kept.isPrefix
      exact ⟨rest.filterMap Instruction.creation?, by rw [Code.creations, ← hrest, List.filterMap_append]; rfl⟩
    obtain ⟨vs, hvs⟩ := front
    have last : Code.creations t.code = Code.creations t.code.pop ++ x.creation?.toList :=
      Code.filterMap_pop _ hx
    rw [hadds, hvs, List.append_assoc, Instruction.creation?, if_pos (hop.trans hindex)] at last
    rw [hvs, List.append_cancel_left last]
    exact congrArg _ (List.dropLast_concat).symm
  · rename_i hindex
    refine (Code.creations_push_of_ne Opcode.noConfusion).trans ?_
    exact (Code.creations_pop_of_ne hx (by rw [hop]; exact hindex)).trans hadds

theorem assign (line : Nat) (op : Operator) (hv : Creates vs value) (h : Creates us target) (he : Emits target)
    {e : CodeEnd} (hl : LeadsTo target e) :
    Creates (vs ++ if op = .assign then if e.op = .loadIdx then us.dropLast else us
      else us ++ op.subscripts.map Route.creates) (assign line op value target) := by
  refine behind (setLine line) fun _ => hv.bind fun _ => ?_
  by_cases hassign : op = .assign
  · rw [if_pos hassign, hassign]
    exact store h he hl
  · rw [if_neg hassign]
    split
    · exact absurd rfl hassign
    · exact h.operated op 0

theorem ternary (line : Nat) (hc : Creates us condition) (hy : Creates vs yes) (hn : Creates ws no) :
    Creates (us ++ (vs ++ ws)) (ternary line condition yes no) := by
  refine behind (setLine line) fun _ => hc.bind fun _ => ⟨fun s => Run.choose (hy.valued _) (hn.valued _), fun s hs he => ?_⟩
  -- The first branch ends at `t` with the jump past the second one, which starts at `u`.
  obtain ⟨t, ht⟩ : ∃ t, t = after yes (after (emit .jmpz 0 0 .none) s) := ⟨_, rfl⟩
  obtain ⟨u, hu⟩ : ∃ u, u = after (landHere s.code.size) (after (emit .jmp 0 0 .none) t) := ⟨_, rfl⟩
  have end_ : after (do
      let skip ← emit .jmpz 0 0 .none
      yes
      let out ← emit .jmp 0 0 .none
      landHere skip
      no
      landHere out) s = after (landHere t.code.size) (after no u) := by
    rw [hu, ht]
    rfl
  rw [end_] at he ⊢
  have opened : SteadyState (after (emit .jmpz 0 0 .none) s) := hs.emit .jmpz 0 .none
  have steady : SteadyState u := by
    rw [hu, ht]
    exact hs.otherwise hy.valued
  have first := rises_of_valued hy.valued (after (emit .jmpz 0 0 .none) s)
  have second := rises_of_valued hn.valued u
  have errors_s : s.errors = (after (emit .jmpz 0 0 .none) s).errors := rfl
  have errors_t : t.errors = u.errors := by
    rw [hu]
    rfl
  have errors_no : (after (landHere t.code.size) (after no u)).errors = (after no u).errors := rfl
  rw [← ht] at first
  have yes_silent : t.errors = (after (emit .jmpz 0 0 .none) s).errors := by omega
  have no_silent : (after no u).errors = u.errors := by omega
  -- Both jumps are still there when they are filled in.
  have skip : t.code[s.code.size]? = some ⟨.jmpz, 0, 0, .none, s.buffer.line⟩ := by
    rw [ht] at yes_silent ⊢
    exact opened.kept hy.valued yes_silent Array.getElem?_push_size
  have skip' : (t.code.push ⟨.jmp, 0, 0, .none, t.buffer.line⟩)[s.code.size]? =
      some ⟨.jmpz, 0, 0, .none, s.buffer.line⟩ := by
    have inside := (Array.getElem?_eq_some_iff.mp skip).1
    rw [Array.getElem?_push, if_neg (by omega), skip]
  have out : u.code[t.code.size]? = some ⟨.jmp, 0, 0, .none, t.buffer.line⟩ := by
    have inside := (Array.getElem?_eq_some_iff.mp skip).1
    rw [hu, after_landHere]
    exact Code.getElem?_patch_push (Nat.ne_of_lt inside) _ _
  have condition_yes : t.code.creations = s.code.creations ++ vs := by
    have added := hy.adds _ opened (ht ▸ yes_silent)
    rw [← ht] at added
    exact added.trans (congrArg (· ++ vs) (Code.creations_push_of_ne Opcode.noConfusion))
  have between : u.code.creations = t.code.creations := by
    rw [hu]
    exact (Code.creations_patch skip' rfl _).trans (Code.creations_push_of_ne Opcode.noConfusion)
  refine (Code.creations_patch (steady.kept hn.valued no_silent out) rfl _).trans ?_
  rw [hn.adds u steady no_silent, between, condition_yes, List.append_assoc]

theorem call (line count : Nat) (ha : Creates us args) (hc : Creates vs callee) (he : Emits callee) :
    Creates (us ++ vs) (call line count args callee) := by
  refine behind (setLine line) fun _ => ha.bind fun _ => ?_
  have calls : Emits (put .call count 0 .none) := emits_put rfl count 0 .none (by decide) (by exact fun _ => trivial)
  have marked := (he.take takes_markCallee).bind fun _ => calls.valued
  refine hc.andThen (m := do markCallee; put .call count 0 .none) (fun s => (marked s).1) (fun _ => rfl) ?_
  exact fun _ t _ _ _ hadds => ((Indexless.markCallee.bind fun _ => .put (by decide) count 0 .none) t).trans hadds

/-- The instruction of a subscript. -/
theorem subscript (p1 : Int) (b : Bool) : Creates [b] (put .loadIdx p1 (if b then 1 else 0) .none) where
  valued := (emits_put rfl _ _ .none (by decide) (by exact fun _ => trivial)).valued
  adds := by
    intro s _ _
    refine (Code.creations_push _ _).trans ?_
    cases b <;> rfl

theorem index (line : Nat) (b : Bool) (hb : Creates us base) (hk : Creates vs key) :
    Creates (us ++ (vs ++ [b])) (index line b base key) :=
  behind (setLine line) fun _ => hb.bind fun _ => hk.bind fun _ => subscript 1 b

theorem append (line : Nat) (b : Bool) (hb : Creates us base) : Creates (us ++ [b]) (append line b base) :=
  behind (setLine line) fun _ => hb.bind fun _ => subscript 0 b

/-! ### Leaves -/

theorem computedVariable (access : Access) (line braceLine : Nat) (isPresent : Bool) (h : Creates us value)
    (stray : Option Nat) (extra : Nat) :
    Creates us (computedVariable access line braceLine isPresent value stray extra) := by
  refine behind (setLine braceLine) fun _ => h.before fun _ => behind (of (valued_cutShort stray) (.cutShort stray)) fun _ => ?_
  cases isPresent with
  | true => exact of (valued_lookUp access (extra + 1)) (.lookUp access (extra + 1))
  | false => exact report line _

theorem item (mark : ItemMark) (h : Creates us value) : Creates us (item mark value) := by
  refine h.before fun _ => ?_
  split
  · exact of (emits_put rfl 0 0 .none (by decide) (by exact fun _ => trivial)).valued (.put (by decide) 0 0 .none)
  · exact of (valued_cutShort mark.stray) (.cutShort mark.stray)

theorem loadNull : Creates [] (loadSlot ConstantPool.nullSlot) :=
  of (emits_loadSlot (by decide)).valued (.loadSlot _)

theorem plainEntry (line : Nat) (h : Creates us value) : Creates us (plainEntry line value) :=
  behind (setLine line) fun _ => behind loadNull fun _ => h

theorem keyedEntry (line : Nat) (hk : Creates us key) (hv : Creates vs value) :
    Creates (us ++ vs) (keyedEntry line key value) :=
  behind (setLine line) fun _ => hk.bind fun _ => hv

theorem unkeyedEntry (line : Nat) (h : Creates us value) : Creates us (unkeyedEntry line value) :=
  behind (setLine line) fun _ => behind (report line _) fun _ => behind loadNull fun _ => h

theorem array (count : Nat) (h : Creates us value) (incomplete : Option Nat) : Creates us (array count value incomplete) := by
  refine h.before fun _ => ?_
  cases incomplete with
  | none => exact of (emits_put rfl _ 0 .none (by decide) (by exact fun _ => trivial)).valued (.put (by decide) _ 0 .none)
  | some line => exact behind (setLine line) fun _ => report line _

theorem list (count : Nat) (h : Creates us value) : Creates us (list count value) :=
  h.before fun _ => of (emits_put rfl _ 0 .none (by decide) (by exact fun _ => trivial)).valued (.put (by decide) _ 0 .none)

theorem construct (word : String) (isPresent : Bool) (h : Creates us value) :
    Creates us (construct word isPresent value) :=
  h.before fun _ => behind (of (emits_string word).valued (.loadConstant _)) fun _ =>
    of (emits_put rfl _ 0 .none (by decide) (by exact fun _ => trivial)).valued (.put (by decide) _ 0 .none)

theorem joinPieces (count : Nat) : Creates [] (joinPieces count) :=
  of (valued_joinPieces count) (.ite (.put (by decide) count 1 .none) (.pure ()))

theorem restrict (restriction : Option Restriction) (root : Tree Leaf) : Creates [] (restrict restriction root) := by
  refine of (valued_restrict restriction root) ?_
  unfold Gen.restrict
  split
  · exact .of fun _ => rfl
  · exact .pure ()

end Creates

end Gen

/-! ### Expressions -/

/-- Which of the subscripts create missing entries. -/
abbrev Route.allCreate (rs : List Route) : List Bool := rs.map Route.creates

namespace Gen.Creates

variable {g : Gen Unit} {xs ys zs : List Route}

theorem two (h : Creates (Route.allCreate xs ++ Route.allCreate ys) g) : Creates (Route.allCreate (xs ++ ys)) g :=
  h.congr List.map_append.symm

theorem three (h : Creates (Route.allCreate xs ++ (Route.allCreate ys ++ Route.allCreate zs)) g) :
    Creates (Route.allCreate (xs ++ (ys ++ zs))) g :=
  two (h.congr (congrArg _ List.map_append.symm))

end Gen.Creates

mutual

theorem Expr.creates_gen (access : Access) (h : access.store = false) (restriction : Option Restriction) :
    (e : Expr) → Creates (Route.allCreate e.subscripts) (e.gen access restriction)
  | .missing => .of (.pure ()) (.pure ())
  | .rejected _ => .report _ _
  | .tree root => .behind (.restrict restriction root) fun _ => Leaf.creates_genTree none access h root

theorem Leaf.creates_genTree (r : Route) (access : Access) (h : access.store = r.creates) :
    (t : Tree Leaf) → Creates (Route.allCreate (Leaf.treeSubscripts r t)) (Leaf.genTree access t)
  | .leaf p content => Leaf.creates_gen access content
  | .prefixed p op x =>
    .two ((Leaf.creates_genTree _ access (h.trans r.creates_operand.symm) x).prefixed p.line op
      (Leaf.emits_genTree access x))
  | .postfixed p op x => .two ((Leaf.creates_genTree _ access (h.trans r.creates_operand.symm) x).postfixed p.line op)
  | .binary p op x y =>
    .three (.binary p.line op (Leaf.creates_genTree _ access (h.trans (r.creates_leftDuty op).symm) x)
      (Leaf.creates_genTree _ access (h.trans r.creates_operand.symm) y) (Leaf.emits_genTree access y))
  | .assign p op target value => by
    refine (Creates.assign p.line op (Leaf.creates_genTree _ access (h.trans r.creates_operand.symm) value)
      (Leaf.creates_genTree .target access.target rfl target) (Leaf.emits_genTree access.target target)
      (Leaf.leads_genTree access.target target)).congr ?_
    show _ = (_ ++ _ : List Route).map Route.creates
    rw [List.map_append]
    split
    · split
      · rw [← List.map_dropLast]
      · rfl
    · rw [← List.map_append]
  | .ternary p c x y =>
    .three (.ternary p.line (Leaf.creates_genTree _ access (h.trans r.creates_operand.symm) c)
      (Leaf.creates_genTree _ access (h.trans r.creates_operand.symm) x)
      (Leaf.creates_genTree _ access (h.trans r.creates_operand.symm) y))
  | .call p f xs =>
    .two (.call p.line xs.length (Leaf.creates_genTrees _ access.argument r.creates_argument.symm xs)
      (Leaf.creates_genTree _ access (h.trans r.creates_operand.symm) f) (Leaf.emits_genTree access f))
  | .index p x k => by
    refine .three ?_
    show Creates _ (Gen.index p.line access.store _ _)
    rw [h]
    exact .index p.line r.creates (Leaf.creates_genTree _ access (h.trans r.creates_base.symm) x)
      (Leaf.creates_genTree _ access.key r.creates_key.symm k)
  | .append p x => by
    refine .two ?_
    show Creates _ (Gen.append p.line access.store _)
    rw [h]
    exact .append p.line r.creates (Leaf.creates_genTree _ access (h.trans r.creates_base.symm) x)

theorem Leaf.creates_genTrees (r : Route) (access : Access) (h : access.store = r.creates) :
    (ts : List (Tree Leaf)) → Creates (Route.allCreate (Leaf.allSubscripts r ts)) (Leaf.genTrees access ts)
  | [] => .of (.pure ()) (.pure ())
  | t :: ts => .two ((Leaf.creates_genTree r access h t).bind fun _ => Leaf.creates_genTrees r access h ts)

theorem Leaf.creates_gen (access : Access) : (l : Leaf) → Creates (Route.allCreate l.subscripts) (l.gen access)
  | .unread _ => .report _ _
  | .number t => .of (emits_number t).valued (.number t)
  | .simpleString _ => .of (emits_string _).valued (.loadConstant _)
  | .template first rest =>
    .two ((Piece.creates_gen first).bind fun _ => (Piece.creates_genAll rest).before fun _ => .joinPieces _)
  | .variable line name extra =>
    .of (emits_loadVariable access line name extra).valued (.loadVariable access line name extra)
  | .computedVariable line braceLine name stray extra =>
    (Expr.creates_gen {} rfl none name).computedVariable access line braceLine _ stray extra
  | .blankVariable _ braceLine => .behind (.setLine braceLine) fun _ => .report _ _
  | .name path t => .of (emits_name path t).valued (.name path t)
  | .array entries incomplete => (Entry.creates_genAll entries).array _ incomplete
  | .list targets => (Expr.creates_genTargets targets).list _
  | .closure line returns params fault captures body =>
    .of (emits_closure line returns (Parameter.makes_genAll params) fault captures (Stmt.flows_gen body)).valued
      (.closure line returns params fault captures body.gen)
  | .construct word argument => (Expr.creates_gen Access.reading rfl none argument).construct word _

theorem Piece.creates_gen : (p : Piece) → Creates (Route.allCreate p.subscripts) p.gen
  | .text text => .of (emits_string text).valued (.loadConstant _)
  | .value _ root =>
    .behind (.of (valued_reportAll _) (.of fun _ => rfl)) fun _ => Leaf.creates_genTree none {} rfl root
  | .rejected _ _ => .behind (.of (valued_reportAll _) (.of fun _ => rfl)) fun _ => .report _ _

theorem Piece.creates_genAll : (ps : List Piece) → Creates (Route.allCreate (Piece.allSubscripts ps)) (Piece.genAll ps)
  | [] => .of (.pure ()) (.pure ())
  | p :: ps => .two ((Piece.creates_gen p).bind fun _ => Piece.creates_genAll ps)

theorem Entry.creates_gen : (e : Entry) → Creates (Route.allCreate e.subscripts) e.gen
  | .plain line value mark => ((Expr.creates_gen Access.reading rfl _ value).item mark).plainEntry line
  | .keyed line key keyMark value mark =>
    .two (.keyedEntry line ((Expr.creates_gen Access.reading rfl _ key).item keyMark)
      ((Expr.creates_gen Access.reading rfl _ value).item mark))
  | .unkeyed line value mark => ((Expr.creates_gen Access.reading rfl _ value).item mark).unkeyedEntry line

theorem Entry.creates_genAll : (es : List Entry) → Creates (Route.allCreate (Entry.allSubscripts es)) (Entry.genAll es)
  | [] => .of (.pure ()) (.pure ())
  | e :: es => .two ((Entry.creates_gen e).bind fun _ => Entry.creates_genAll es)

theorem Expr.creates_genTargets :
    (es : List Expr) → Creates (Route.allCreate (Expr.allSubscripts es)) (Expr.genTargets es)
  | [] => .of (.pure ()) (.pure ())
  | e :: es => .two ((Expr.creates_gen {} rfl _ e).bind fun _ => Expr.creates_genTargets es)

end

/-- Of an expression that is read and that compiles without an error, the instructions that load entries are those of its
subscripts, one after the other, and a missing entry is created just where the way down from a target goes on to no key
and no argument.  What the target is based on is always created; whatever else creates an entry is read, as a callee, a
condition, a branch, an operand or an assigned value, so that only targets create entries exactly if nothing leaks. -/
theorem Expr.subscripts_created (e : Expr) (access : Access) (restriction : Option Restriction) (s : GenState)
    (hs : SteadyState s) (hread : access.store = false)
    (he : (after (e.gen access restriction) s).errors = s.errors) :
    (after (e.gen access restriction) s).code.creations = s.code.creations ++ e.subscripts.map Route.creates ∧
      (∀ r ∈ e.subscripts, r.creates = true ↔ r.isBase = true ∨ r.leaks = true) ∧
      ((∀ r ∈ e.subscripts, r.creates = true → r.isBase = true) ↔ ∀ r ∈ e.subscripts, r.leaks = false) := by
  refine ⟨(Expr.creates_gen access hread restriction e).adds s hs he, fun r _ => ⟨fun hcreates => ?_, ?_⟩, ?_⟩
  · cases hleaks : r.leaks with
    | true => exact .inr rfl
    | false => exact .inl ((Route.isBase_iff_not_leaks hcreates).mpr hleaks)
  · rintro (hbase | hleaks)
    · exact Route.creates_of_isBase hbase
    · exact Route.creates_of_leaks hleaks
  · refine forall₂_congr fun r _ => ⟨fun hbase => ?_, fun hleaks hcreates => (Route.isBase_iff_not_leaks hcreates).mpr hleaks⟩
    cases hleaks : r.leaks with
    | false => rfl
    | true =>
        have hcreates := Route.creates_of_leaks hleaks
        exact hleaks.symm.trans ((Route.isBase_iff_not_leaks hcreates).mp (hbase hcreates))

/-- In `($a[$i] ? $b : $c)[$j] = $d` the condition is only read, and a missing entry of `$a` is created for it. -/
theorem Expr.subscripts_created_condition :
    let place : Place := ⟨0, 0, 1⟩
    let var (name : String) : Tree Leaf := .leaf place (.variable 1 name 0)
    let condition : Tree Leaf := .index place (var "a") (var "i")
    let e : Expr := .tree (.assign place .assign
      (.index place (.ternary place condition (var "b") (var "c")) (var "j")) (var "d"))
    let s := GenState.initial {}
    (after (e.gen {} none) s).errors = s.errors ∧ e.subscripts = [some [.base, .operand]] ∧
      (after (e.gen {} none) s).code.creations = [true] ∧ ¬∀ r ∈ e.subscripts, r.creates = true → r.isBase = true := by
  intro place var condition e s
  have silent : (after (e.gen {} none) s).errors = s.errors := by decide +kernel
  have subscripts : e.subscripts = [some [.base, .operand]] := by rfl
  obtain ⟨creations, -, leaks⟩ :=
    Expr.subscripts_created e {} none s ⟨filed_initial {}, (open_initial {}).jumps⟩ rfl silent
  refine ⟨silent, subscripts, ?_, fun h => ?_⟩
  · rw [creations, subscripts]
    rfl
  · have all := leaks.mp h
    rw [subscripts] at all
    exact absurd (all _ List.mem_cons_self) (by decide)

end StackScript
