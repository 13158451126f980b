/-
The instructions that take a value apart.

Every list of targets is compiled to one instruction.  Operators behind it may take that instruction back, so it is
counted what is there: the instructions of the container being filled, and of each container that was filled apart
from it.  A generator `Unpacks` what it adds to both when it reports nothing.
-/
import StackScript.Proofs.Leftovers
import StackScript.Proofs.Level

namespace StackScript

/-! ### Containers and what is in them -/

/-- What was found in a container, and in each of those that were filled apart from it in the meantime. -/
structure Contents (α : Type) where
  here : List α := []
  apart : List (List α) := []

namespace Contents

variable {α β : Type}

instance : Append (Contents α) := ⟨fun a b => ⟨a.here ++ b.here, a.apart ++ b.apart⟩⟩

@[simp] theorem here_append (a b : Contents α) : (a ++ b).here = a.here ++ b.here := rfl

@[simp] theorem apart_append (a b : Contents α) : (a ++ b).apart = a.apart ++ b.apart := rfl

@[ext] theorem ext {a b : Contents α} (h : a.here = b.here) (h' : a.apart = b.apart) : a = b := by
  cases a
  cases b
  simp_all

@[simp] theorem append_empty (a : Contents α) : a ++ {} = a := by ext1 <;> simp

@[simp] theorem empty_append (a : Contents α) : ({} : Contents α) ++ a = a := by ext1 <;> simp

theorem append_assoc (a b c : Contents α) : a ++ b ++ c = a ++ (b ++ c) := by ext1 <;> simp

/-- What the container around sees of a container that is filled. -/
def closed (a : Contents α) : Contents α := ⟨[], a.apart ++ [a.here]⟩

/-- What the container around sees when the code here is dropped. -/
def dropped (a : Contents α) : Contents α := ⟨[], a.apart⟩

def filterMap (f : α → Option β) (a : Contents α) : Contents β := ⟨a.here.filterMap f, a.apart.map (List.filterMap f)⟩

variable (f : α → Option β)

@[simp] theorem filterMap_append (a b : Contents α) : (a ++ b).filterMap f = a.filterMap f ++ b.filterMap f := by
  ext1 <;> simp [filterMap]

@[simp] theorem filterMap_closed (a : Contents α) : a.closed.filterMap f = (a.filterMap f).closed := by
  ext1 <;> simp [filterMap, closed]

@[simp] theorem filterMap_dropped (a : Contents α) : a.dropped.filterMap f = (a.filterMap f).dropped := by
  ext1 <;> simp [filterMap, dropped]

end Contents

/-! ### Instructions that take a value apart -/

/-- The number of targets of an instruction that takes a value apart. -/
def Instruction.targets? (x : Instruction) : Option Int := if x.op = .loadList then some x.p1 else none

/-- The instructions of some code that take a value apart, each by its number of targets. -/
def Code.unpackings (code : Code) : List Int := code.toList.filterMap Instruction.targets?

namespace Code

variable {code : Code} {x : Instruction}

theorem unpackings_push (code : Code) (x : Instruction) :
    Code.unpackings (code.push x) = Code.unpackings code ++ x.targets?.toList := filterMap_push _ code x

/-- An instruction of another kind is not counted. -/
theorem unpackings_push_of_ne (h : x.op ≠ .loadList) : Code.unpackings (code.push x) = Code.unpackings code := by
  rw [unpackings_push, Instruction.targets?, if_neg h]
  exact List.append_nil _

/-- The last instruction is counted last. -/
theorem unpackings_pop (h : code.back? = some x) :
    Code.unpackings code = Code.unpackings code.pop ++ x.targets?.toList := filterMap_pop _ h

/-- What is changed about an instruction leaves its count alone. -/
theorem unpackings_modify (code : Code) (i : Nat) {f : Instruction → Instruction}
    (hf : ∀ x, (f x).targets? = x.targets?) : Code.unpackings (code.modify i f) = Code.unpackings code :=
  filterMap_modify _ code i fun x _ => hf x

theorem unpackings_patch (code : Code) (i target : Nat) : Code.unpackings (code.patch i target) = Code.unpackings code :=
  unpackings_modify code i fun _ => rfl

theorem unpackings_foldl_patch {α : Type} (index : α → Nat) (target : Nat) (js : List α) (code : Code) :
    Code.unpackings (js.foldl (fun code j => code.patch (index j) target) code) = Code.unpackings code := by
  induction js generalizing code with
  | nil => rfl
  | cons j js ih => rw [List.foldl_cons, ih, unpackings_patch]

end Code

/-- What takes a value apart in the container being filled and in those that were filled. -/
def GenState.unpackings (s : GenState) : Contents Int := ⟨s.code.unpackings, s.filled.map fun f => f.code.unpackings⟩

namespace Gen

variable {α β : Type} {x y z w : Contents Int}

/-! ### Generators and what they add -/

/-- What has been reported stays, and as long as there is no error these instructions are added. -/
structure Unpacks (y : Contents Int) (m : Gen α) : Prop where
  logs : Logs m
  adds : ∀ s, (after m s).errors = 0 → (after m s).unpackings = s.unpackings ++ y

namespace Unpacks

theorem congr {m : Gen α} (h : Unpacks y m) (hyz : y = z) : Unpacks z m := hyz ▸ h

theorem bind {m : Gen α} {f : α → Gen β} (hm : Unpacks y m) (hf : ∀ a, Unpacks z (f a)) : Unpacks (y ++ z) (m >>= f) where
  logs := hm.logs.bind fun a => (hf a).logs
  adds := by
    intro s he
    rw [after_bind] at he ⊢
    have rest := (hf (result m s)).logs.errors_le (after m s)
    have silent : (after m s).errors = 0 := by omega
    rw [(hf _).adds _ he, hm.adds s silent, Contents.append_assoc]

/-- What comes first adds nothing. -/
theorem behind {m : Gen α} {f : α → Gen β} (hm : Unpacks {} m) (hf : ∀ a, Unpacks y (f a)) : Unpacks y (m >>= f) :=
  (hm.bind hf).congr (Contents.empty_append y)

/-- What comes last adds nothing. -/
theorem before {m : Gen α} {f : α → Gen β} (hm : Unpacks y m) (hf : ∀ a, Unpacks {} (f a)) : Unpacks y (m >>= f) :=
  (hm.bind hf).congr (Contents.append_empty y)

/-- A step that leaves code alone. -/
theorem still {m : Gen α} (hm : Logs m) (hcode : ∀ s, (after m s).code = s.code)
    (hfilled : ∀ s, (after m s).filled = s.filled) : Unpacks {} m where
  logs := hm
  adds := by
    intro s _
    rw [Contents.append_empty, GenState.unpackings, GenState.unpackings, hcode, hfilled]

theorem pure (a : α) : Unpacks {} (pure a : Gen α) := .still (logs_pure a) (fun _ => rfl) fun _ => rfl

theorem ite {c : Prop} [Decidable c] {m m' : Gen α} (h : Unpacks y m) (h' : Unpacks y m') :
    Unpacks y (if c then m else m') := by
  split
  · exact h
  · exact h'

/-- Where an error is reported nothing is asked for. -/
theorem refused {m : Gen α} (h : Tells False m) : Unpacks y m where
  logs := h.reports
  adds := by
    intro s he
    have rises := Logs.errors_le h.reports s
    exact (h.told s (by omega)).elim

end Unpacks

/-! ### Steps -/

theorem unpacks_report (line : Nat) (problem : Problem) : Unpacks {} (report line problem) :=
  .still (logs_report line problem) (fun _ => rfl) fun _ => rfl

theorem unpacks_reportAll (rs : List Report) : Unpacks {} (reportAll rs) :=
  .still (logs_reportAll rs) (fun _ => rfl) fun _ => rfl

theorem unpacks_reportFault (fault : Option Report) : Unpacks {} (reportFault fault) := by
  cases fault with
  | none => exact .pure ()
  | some r => exact unpacks_report r.line r.problem

theorem unpacks_setLine (line : Nat) : Unpacks {} (setLine line) :=
  .still (logs_setLine line) (fun _ => rfl) fun _ => rfl

theorem unpacks_get : Unpacks {} (get : Gen GenState) := .still logs_get (fun _ => rfl) fun _ => rfl

theorem unpacks_here : Unpacks {} here := .still logs_get (fun _ => rfl) fun _ => rfl

theorem unpacks_intern (add : ConstantPool → Nat × ConstantPool) : Unpacks {} (intern add) :=
  .still (.of fun _ => rfl) (fun _ => rfl) fun _ => rfl

/-- An instruction of another kind. -/
theorem unpacks_emit {op : Opcode} (hop : op ≠ .loadList) (p1 : Int) (p2 : Nat) (p3 : Operand) :
    Unpacks {} (emit op p1 p2 p3) where
  logs := .of fun _ => rfl
  adds := by
    intro s _
    rw [Contents.append_empty]
    exact congrArg (Contents.mk · _) (Code.unpackings_push_of_ne hop)

theorem unpacks_put {op : Opcode} (hop : op ≠ .loadList) (p1 : Int) (p2 : Nat) (p3 : Operand) :
    Unpacks {} (put op p1 p2 p3) :=
  (unpacks_emit hop p1 p2 p3).before fun _ => .pure ()

theorem unpacks_await {id : Nat} {op : Opcode} (hop : op ≠ .loadList) (p3 : Operand) : Unpacks {} (await id op p3) :=
  (unpacks_emit hop 0 0 p3).before fun _ => .still (.of fun _ => rfl) (fun _ => rfl) fun _ => rfl

/-- Filling in targets counts for nothing. -/
theorem unpacks_settle (id : Nat) (op : Option Opcode) : Unpacks {} (settle id op) where
  logs := logs_settle
  adds := by
    intro s _
    rw [Contents.append_empty]
    exact congrArg (Contents.mk · _) (Code.unpackings_foldl_patch PendingJump.index _ _ _)

theorem unpacks_settleContinue (id : Nat) : Unpacks {} (settleContinue id) where
  logs := .of fun _ => rfl
  adds := by
    intro s _
    rw [Contents.append_empty]
    exact congrArg (Contents.mk · _) (Code.unpackings_foldl_patch (fun i => i) _ _ _)

theorem unpacks_landHere (i : Nat) : Unpacks {} (landHere i) where
  logs := .of fun _ => rfl
  adds := by
    intro s _
    rw [Contents.append_empty]
    exact congrArg (Contents.mk · _) (Code.unpackings_patch _ _ _)

theorem unpacks_noteNamespaces (line : Nat) : Unpacks {} (noteNamespaces line) :=
  unpacks_get.behind fun _ => .ite (.behind (.still (.of fun _ => rfl) (fun _ => rfl) fun _ => rfl) fun _ =>
    unpacks_report line _) (.pure ())

theorem opcode_ne_loadList (op : Operator) : op.opcode? ≠ some .loadList := by
  cases op <;> first
    | decide
    | (rename_i type; cases type <;> decide)

theorem unpacks_operator (op : Operator) (p1 : Int) : Unpacks {} (operator op p1) := by
  unfold operator
  cases hcode : op.opcode? with
  | none => exact .pure ()
  | some own => exact unpacks_put (fun h => opcode_ne_loadList op (h ▸ hcode)) p1 0 .none

theorem unpacks_drop : Unpacks {} drop := unpacks_put (by decide) 1 0 .none

theorem unpacks_loadSlot (slot : Nat) : Unpacks {} (loadSlot slot) := unpacks_put (by decide) 0 slot .none

theorem unpacks_loadConstant (add : ConstantPool → Nat × ConstantPool) : Unpacks {} (loadConstant add) :=
  (unpacks_intern add).behind fun slot => unpacks_loadSlot slot

theorem unpacks_string (text : String) : Unpacks {} (string text) := unpacks_loadConstant _

/-- What is marked as called stays what it is. -/
theorem unpacks_markCallee : Unpacks {} markCallee where
  logs := .of fun _ => rfl
  adds := by
    intro s _
    rw [Contents.append_empty]
    refine congrArg (Contents.mk · _) (Code.unpackings_modify _ _ fun x => ?_)
    unfold Instruction.targets?
    split <;> simp_all

/-! ### Operators that take an instruction back -/

/-- Taking back an instruction of another kind counts for nothing. -/
theorem unpacks_replace {s : GenState} {x : Instruction} (hx : s.code.back? = some x) (hne : x.op ≠ .loadList)
    {op : Opcode} (hop : op ≠ .loadList) (p1 : Int) (p2 : Nat) (p3 : Operand) :
    (after (do takeBack; put op p1 p2 p3) s).unpackings = s.unpackings := by
  have none : x.targets? = none := if_neg hne
  refine congrArg (Contents.mk · _) ?_
  rw [Code.unpackings_pop hx, none, Option.toList_none, List.append_nil]
  exact Code.unpackings_push_of_ne hop

theorem unpacks_create : Unpacks {} create where
  logs := goes_create.logs
  adds := by
    intro s _
    rw [Contents.append_empty]
    unfold create
    rw [after_bind, result_last?, after_last?]
    have plain : ∀ p1, (after (put .new p1 0 .none) s).unpackings = s.unpackings := fun p1 =>
      congrArg (Contents.mk · _) (Code.unpackings_push_of_ne Opcode.noConfusion)
    cases hx : s.code.back? with
    | none => exact plain 0
    | some x =>
        dsimp only
        rw [after_bind]
        split
        · rename_i hcall
          exact unpacks_replace hx (by rintro h; simp [h] at hcall) (by decide) x.p1 0 .none
        · exact plain 0

theorem unpacks_staticMember : Unpacks {} staticMember where
  logs := goes_staticMember.logs
  adds := by
    intro s _
    rw [Contents.append_empty]
    unfold staticMember
    rw [after_bind, result_last?, after_last?]
    have plain : (after (put .member 1 0 .none) s).unpackings = s.unpackings :=
      congrArg (Contents.mk · _) (Code.unpackings_push_of_ne Opcode.noConfusion)
    cases hx : s.code.back? with
    | none => exact plain
    | some x =>
        dsimp only
        split
        · rename_i hload
          exact unpacks_replace hx (by rintro h; simp [h] at hload) (by decide) 1 0 x.p3
        · exact plain

/-! ### Containers and blocks -/

section Combinators

variable {value left right : Gen Unit}

/-- A container that is filled is put away with what is in it. -/
theorem unpacks_inContainer (h : Unpacks y value) : Unpacks y.closed (inContainer value) where
  logs := (Tells.nothing h.logs |> tells_inContainer).reports
  adds := by
    intro s he
    have inside := h.adds (after openContainer s) he
    have here : (after value (after openContainer s)).code.unpackings = y.here := congrArg Contents.here inside
    have apart := congrArg Contents.apart inside
    refine Contents.ext (List.append_nil _).symm ?_
    show ((after value (after openContainer s)).filled ++ [_]).map (fun f : Filled => f.code.unpackings) = _
    rw [List.map_append]
    show (after value (after openContainer s)).unpackings.apart ++ [(after value (after openContainer s)).code.unpackings] = _
    rw [apart, here, Contents.apart_append, List.append_assoc]
    rfl

/-- Where code is dropped, only what was filled apart from it is left. -/
theorem unpacks_discarding (hv : Valued value) (h : Unpacks y value) : Unpacks y.dropped (discarding value) where
  logs := (Tells.nothing h.logs |> tells_discarding).reports
  adds := by
    intro s he
    have he : (after value s).errors = 0 := he
    have apart := congrArg Contents.apart (h.adds s he)
    refine Contents.ext ?_ apart
    show Code.unpackings ((after value s).code.take s.code.size) = _
    rw [((hv s).level he).longer.take]
    exact (List.append_nil _).symm

theorem unpacks_inBlock {tags : List BlockTag} {deferred : Option (List Nat)} {body : Nat → Gen Unit}
    (h : ∀ id, Unpacks y (body id)) : Unpacks y (inBlock tags deferred body) := by
  refine .behind unpacks_here fun _ => .behind (.still (.of fun _ => rfl) (fun _ => rfl) fun _ => rfl) fun id => ?_
  refine (h id).before fun _ => .behind (unpacks_settle id none) fun _ => .behind (unpacks_settleContinue id) fun _ => ?_
  exact .still (.of fun _ => rfl) (fun _ => rfl) fun _ => rfl

theorem unpacks_owned {tags : List BlockTag} {first : Nat} {owner : BlockOwner} {body : Nat → Gen α}
    (h : ∀ id, Unpacks y (body id)) : Unpacks y (owned tags first owner body) :=
  .behind (.still (.of fun _ => rfl) (fun _ => rfl) fun _ => rfl) fun id => (h id).before fun _ =>
    .behind (.still (.of fun _ => rfl) (fun _ => rfl) fun _ => rfl) fun _ => .pure _

theorem unpacks_collectingStatics {body : Gen α} (h : Unpacks y body) : Unpacks y (collectingStatics body) :=
  .behind (.still (.of fun _ => rfl) (fun _ => rfl) fun _ => rfl) fun _ => h.before fun _ =>
    .still (.of fun _ => rfl) (fun _ => rfl) fun _ => rfl

theorem unpacks_thunk (line : Nat) (isPresent : Bool) (h : Unpacks y value) :
    Unpacks y.closed (thunk line isPresent value) :=
  unpacks_inContainer <| h.before fun _ => (unpacks_setLine line).behind fun _ => unpacks_put (by decide) _ _ _

/-! ### Expressions -/

theorem unpacks_prefixed (line : Nat) (op : Operator) (h : Unpacks y value) : Unpacks y (prefixed line op value) := by
  refine .behind (unpacks_setLine line) fun _ => h.before fun _ => ?_
  split
  · exact unpacks_create
  · exact unpacks_operator .incr 1
  · exact unpacks_operator .decr 1
  · exact unpacks_operator op 0

theorem unpacks_postfixed (line : Nat) (op : Operator) (h : Unpacks y value) : Unpacks y (postfixed line op value) :=
  .behind (unpacks_setLine line) fun _ => h.before fun _ => unpacks_operator op 0

theorem unpacks_shortCircuit {jump : Opcode} (hj : jump ≠ .loadList) (op : Operator) (h : Unpacks y right) :
    Unpacks y (shortCircuit jump op right) :=
  .behind (unpacks_emit hj 1 0 .none) fun index => h.before fun _ => (unpacks_operator op 0).before fun _ =>
    unpacks_landHere index

theorem unpacks_binary (line : Nat) (op : Operator) (hl : Unpacks y left) (hr : Unpacks z right) :
    Unpacks (y ++ z) (binary line op left right) := by
  refine .behind (unpacks_setLine line) fun _ => hl.bind fun _ => ?_
  split
  · exact unpacks_drop.behind fun _ => hr
  · exact unpacks_shortCircuit (by decide) .logAnd hr
  · exact unpacks_shortCircuit (by decide) .logOr hr
  · exact hr.before fun _ => unpacks_staticMember
  · exact hr.before fun _ => unpacks_operator op 0

theorem unpacks_ternary (line : Nat) (hc : Unpacks x value) (hy : Unpacks y left) (hn : Unpacks z right) :
    Unpacks (x ++ (y ++ z)) (ternary line value left right) :=
  .behind (unpacks_setLine line) fun _ => hc.bind fun _ => .behind (unpacks_emit (by decide) 0 0 .none) fun skip =>
    hy.bind fun _ => .behind (unpacks_emit (by decide) 0 0 .none) fun out => .behind (unpacks_landHere skip) fun _ =>
      hn.before fun _ => unpacks_landHere out

theorem unpacks_call (line count : Nat) (ha : Unpacks y left) (hc : Unpacks z right) :
    Unpacks (y ++ z) (call line count left right) :=
  .behind (unpacks_setLine line) fun _ => ha.bind fun _ => hc.before fun _ => unpacks_markCallee.behind fun _ =>
    unpacks_put (by decide) count 0 .none

theorem unpacks_index (line : Nat) (store : Bool) (hb : Unpacks y left) (hk : Unpacks z right) :
    Unpacks (y ++ z) (index line store left right) :=
  .behind (unpacks_setLine line) fun _ => hb.bind fun _ => hk.before fun _ => unpacks_put (by decide) 1 _ .none

theorem unpacks_append (line : Nat) (store : Bool) (hb : Unpacks y value) : Unpacks y (append line store value) :=
  .behind (unpacks_setLine line) fun _ => hb.before fun _ => unpacks_put (by decide) 0 _ .none

theorem unpacks_lookUp (access : Access) (n : Nat) : Unpacks {} (lookUp access n) := by
  induction n with
  | zero => exact .pure ()
  | succ n ih => exact .behind (unpacks_put (by decide) _ 0 .none) fun _ => ih

theorem unpacks_loadVariable (access : Access) (line : Nat) (name : String) (extra : Nat) :
    Unpacks {} (loadVariable access line name extra) :=
  .behind (unpacks_setLine line) fun _ => .behind (unpacks_put (by decide) _ 0 _) fun _ => unpacks_lookUp access extra

theorem unpacks_cutShort (stray : Option Nat) : Unpacks {} (cutShort stray) := by
  cases stray with
  | none => exact .pure ()
  | some line => exact unpacks_report line _

theorem unpacks_computedVariable (access : Access) (line braceLine : Nat) (isPresent : Bool) (h : Unpacks y value)
    (stray : Option Nat) (extra : Nat) :
    Unpacks y (computedVariable access line braceLine isPresent value stray extra) :=
  .behind (unpacks_setLine braceLine) fun _ => h.before fun _ => (unpacks_cutShort stray).behind fun _ =>
    .ite (unpacks_lookUp access (extra + 1)) (unpacks_report line _)

theorem unpacks_number (t : Token) : Unpacks {} (number t) := by
  unfold number
  split
  · split
    · exact unpacks_loadConstant _
    · exact .ite (unpacks_loadConstant _) (.behind (unpacks_report _ _) fun _ => unpacks_loadConstant _)
  · exact unpacks_loadConstant _

theorem unpacks_nameOrNull (name : Option String) : Unpacks {} (nameOrNull name) := by
  cases name with
  | none => exact unpacks_loadSlot _
  | some text => exact unpacks_string text

theorem unpacks_currentClass : Unpacks {} currentClass := by
  refine unpacks_get.behind fun s => ?_
  split <;> exact .pure _

theorem unpacks_currentFunction : Unpacks {} currentFunction := by
  refine unpacks_get.behind fun s => ?_
  split <;> exact .pure _

theorem unpacks_name (path : Option Nat) (t : Token) : Unpacks {} (name path t) := by
  have note : Unpacks {} (notePath path) := by
    cases path with
    | none => exact .pure ()
    | some line => exact unpacks_noteNamespaces line
  refine note.behind fun _ => ?_
  split
  · exact unpacks_loadSlot _
  · split
    · exact unpacks_loadConstant _
    · exact unpacks_get.behind fun _ => unpacks_string _
    · exact unpacks_get.behind fun _ => unpacks_string _
    · exact unpacks_currentClass.behind fun _ => unpacks_nameOrNull _
    · exact unpacks_currentFunction.behind fun _ => unpacks_nameOrNull _
    · exact unpacks_currentFunction.behind fun _ => unpacks_nameOrNull _
    · exact .behind (unpacks_intern _) fun _ => unpacks_put (by decide) _ _ _

theorem unpacks_joinPieces (count : Nat) : Unpacks {} (joinPieces count) :=
  .ite (unpacks_put (by decide) count 1 .none) (.pure ())

theorem unpacks_item (mark : ItemMark) (h : Unpacks y value) : Unpacks y (item mark value) :=
  h.before fun _ => .ite (unpacks_put (by decide) 0 0 .none) (unpacks_cutShort mark.stray)

theorem unpacks_plainEntry (line : Nat) (h : Unpacks y value) : Unpacks y (plainEntry line value) :=
  .behind (unpacks_setLine line) fun _ => .behind (unpacks_loadSlot _) fun _ => h

theorem unpacks_keyedEntry (line : Nat) (hk : Unpacks y left) (hv : Unpacks z right) :
    Unpacks (y ++ z) (keyedEntry line left right) :=
  .behind (unpacks_setLine line) fun _ => hk.bind fun _ => hv

theorem unpacks_unkeyedEntry (line : Nat) (h : Unpacks y value) : Unpacks y (unkeyedEntry line value) :=
  .behind (unpacks_setLine line) fun _ => .behind (unpacks_report line _) fun _ => .behind (unpacks_loadSlot _) fun _ => h

theorem unpacks_array (count : Nat) (h : Unpacks y value) (incomplete : Option Nat) :
    Unpacks y (array count value incomplete) := by
  refine h.before fun _ => ?_
  cases incomplete with
  | none => exact unpacks_put (by decide) _ 0 .none
  | some line => exact (unpacks_setLine line).behind fun _ => unpacks_report line _

/-- A list adds its instruction behind its targets. -/
theorem unpacks_list (count : Nat) (h : Unpacks y value) : Unpacks (y ++ ⟨[(count : Int)], []⟩) (list count value) := by
  refine h.bind fun _ => ⟨.of fun _ => rfl, fun s _ => Contents.ext ?_ (List.append_nil _).symm⟩
  exact Code.unpackings_push s.code ⟨.loadList, count, 0, .none, s.buffer.line⟩

theorem unpacks_construct (word : String) (isPresent : Bool) (h : Unpacks y value) :
    Unpacks y (construct word isPresent value) :=
  h.before fun _ => (unpacks_string word).behind fun _ => unpacks_put (by decide) _ 0 .none

/-! ### Functions and classes -/

theorem unpacks_functionBody (name : String) (className : Option String) (h : Unpacks y value) :
    Unpacks y.closed (functionBody name className value) :=
  unpacks_owned fun id => unpacks_collectingStatics <| unpacks_inContainer <| h.before fun _ =>
    (unpacks_settle id _).behind fun _ => unpacks_put (by decide) 0 0 .none

theorem unpacks_arguments {params : Gen (List Argument)} (h : Unpacks y params) (fault : Option Report) :
    Unpacks y (arguments params fault) :=
  h.before fun _ => (unpacks_reportFault fault).behind fun _ => .pure _

theorem unpacks_functionDef (head : FunctionHead) (args : List Argument) (h : Unpacks y value) :
    Unpacks y.closed (functionDef head args value) := by
  unfold functionDef
  split
  · exact unpacks_currentClass.behind fun className =>
      (unpacks_functionBody head.name className h).before fun _ => .pure _
  · exact Unpacks.behind (.pure none) fun className =>
      (unpacks_functionBody head.name className h).before fun _ => .pure _

/-- A step that looks something up and may add to a table. -/
theorem unpacks_modifyGet {f : GenState → α × GenState} (hr : ∀ s, (f s).2.reports = s.reports)
    (hc : ∀ s, (f s).2.code = s.code) (hf : ∀ s, (f s).2.filled = s.filled) : Unpacks {} (modifyGet f : Gen α) :=
  .still (.of hr) hc hf

theorem unpacks_installFunction (f : FunctionDef) : Unpacks {} (installFunction f) := by
  refine unpacks_modifyGet (fun s => ?_) (fun s => ?_) fun s => ?_
  all_goals split <;> rfl

theorem unpacks_installClass (c : ClassDef) : Unpacks {} (installClass c) := by
  refine unpacks_modifyGet (fun s => ?_) (fun s => ?_) fun s => ?_
  all_goals split <;> rfl

theorem unpacks_addStatic (v : StaticVar) : Unpacks {} (addStatic v) := by
  refine unpacks_modifyGet (fun s => ?_) (fun s => ?_) fun s => ?_
  all_goals split <;> rfl

theorem unpacks_function (head : FunctionHead) {params : Gen (List Argument)} (hp : Unpacks y params)
    (fault : Option Report) (hb : Unpacks z value) : Unpacks (y ++ z.closed) (function head params fault value) :=
  (unpacks_arguments hp fault).bind fun _ => (unpacks_functionDef head _ hb).before fun f =>
    (unpacks_installFunction f).behind fun _ => .ite (unpacks_report _ _) (.pure _)

theorem unpacks_loadFunction (f : FunctionDef) : Unpacks {} (loadFunction f) := by
  refine .ite ?_ ?_
  · exact .behind (.still (.of fun _ => rfl) (fun _ => rfl) fun _ => rfl) fun _ => unpacks_put (by decide) 0 0 _
  · exact (unpacks_installFunction f).behind fun _ => .ite (unpacks_loadConstant _) (unpacks_report _ _)

theorem unpacks_captureReports (captures : Option CaptureList) : Unpacks {} (captureReports captures) := by
  cases captures with
  | none => exact .pure ()
  | some list => exact (unpacks_reportFault _).behind fun _ => unpacks_reportFault _

theorem unpacks_closure (line : Nat) (returns : TypeSpec) {params : Gen (List Argument)} (hp : Unpacks y params)
    (fault : Option Report) (captures : Option CaptureList) (hb : Unpacks z value) :
    Unpacks (y ++ z.closed) (closure line returns params fault captures value) :=
  .behind (.still (.of fun _ => rfl) (fun _ => rfl) fun _ => rfl) fun _ => (unpacks_arguments hp fault).bind fun _ =>
    (unpacks_captureReports captures).behind fun _ => (unpacks_functionDef _ _ hb).before fun _ => unpacks_loadFunction _

theorem unpacks_memberValue (head : MemberHead) (problem : Problem) (line : Nat) (isPresent : Bool)
    (h : Unpacks y value) : Unpacks y.closed (memberValue head problem line isPresent value) :=
  (unpacks_thunk line isPresent h).before fun _ => .ite (.behind (unpacks_report _ _) fun _ => .pure _) (.pure _)

theorem unpacks_link (head : ClassHead) : Unpacks {} (link head) := by
  refine .ite ?_ (.pure ())
  refine .behind (.still (.of fun _ => rfl) (fun _ => rfl) fun _ => rfl) fun id => (unpacks_setLine _).behind fun _ => ?_
  refine unpacks_put ?_ _ _ _
  split <;> decide

theorem unpacks_class_ (head : ClassHead) {members : ClassDef → Gen ClassDef} (hm : ∀ c, Unpacks y (members c))
    (fault : Option ErrorReport) : Unpacks y (class_ head members fault) := by
  have inside (c : ClassDef) : Unpacks y (do owned [.class_] (← here) (.class_ head.name) fun _ => members c) :=
    unpacks_here.behind fun _ => unpacks_owned fun _ => hm c
  have complete (c : ClassDef) : Unpacks {} (completeClass head c) :=
    (unpacks_installClass c).behind fun _ => .ite (unpacks_link head) (unpacks_report _ _)
  unfold class_
  dsimp only
  cases fault with
  | none =>
      split
      · exact (hm _).before complete
      · exact (inside _).before complete
  | some error =>
      split
      · exact (hm _).before fun _ => unpacks_report _ _
      · exact (inside _).before fun _ => unpacks_report _ _

/-! ### Statements -/

theorem unpacks_reportStrays (header : Header) (strays : List Token) : Unpacks {} (reportStrays header strays) :=
  unpacks_reportAll _

theorem unpacks_dropIf (isPresent : Bool) : Unpacks {} (dropIf isPresent) := .ite unpacks_drop (.pure ())

theorem unpacks_raw (text : String) : Unpacks {} (raw text) :=
  (unpacks_loadConstant _).behind fun _ => unpacks_put (by decide) 0 0 .none

theorem unpacks_expression (isPresent : Bool) (h : Unpacks y value) : Unpacks y (expression isPresent value) :=
  h.before fun _ => unpacks_dropIf isPresent

theorem unpacks_return_ (isPresent : Bool) (h : Unpacks y value) : Unpacks y (return_ isPresent value) :=
  h.before fun _ => unpacks_put (by decide) _ 0 .none

theorem unpacks_exit (isPresent : Bool) (h : Unpacks y value) : Unpacks y (exit isPresent value) :=
  h.before fun _ => unpacks_put (by decide) _ 0 .none

theorem unpacks_braces (h : Unpacks y value) (unclosed : Option Nat) : Unpacks y (braces value unclosed) :=
  unpacks_here.behind fun _ => unpacks_owned fun _ => h.before fun _ => unpacks_reportFault _

theorem unpacks_branch (id : Nat) (ht : Unpacks x value) (strays : List Token) (hb : Unpacks y left) (isLast : Bool)
    (hr : Unpacks z right) : Unpacks (x ++ (y ++ z)) (branch id value strays left isLast right) := by
  refine ht.bind fun _ => (unpacks_reportStrays .plain strays).behind fun _ => .behind (unpacks_await (by decide) .none)
    fun _ => hb.bind fun _ => ?_
  have next : Unpacks z (do settle id (some .jmpz); right) := (unpacks_settle id _).behind fun _ => hr
  cases isLast with
  | true => exact next
  | false => exact .behind (unpacks_await (by decide) .none) fun _ => next

theorem unpacks_sectionBody (strays : List Token) (h : Unpacks y value) : Unpacks y (sectionBody strays value) :=
  (unpacks_reportAll _).behind fun _ => unpacks_here.behind fun _ => h.before fun _ => .pure _

theorem unpacks_caseSection (line : Nat) (isPresent : Bool) (hg : Unpacks y value) (strays : List Token)
    (hb : Unpacks z left) (table : SwitchTable) :
    Unpacks (y.closed ++ z) (caseSection line isPresent value strays left table) :=
  (unpacks_thunk line isPresent hg).bind fun _ => (unpacks_sectionBody strays hb).before fun _ => .pure _

theorem unpacks_defaultSection (line : Nat) (strays : List Token) (hb : Unpacks y value) (table : SwitchTable) :
    Unpacks y (defaultSection line strays value table) := by
  have labelled := (unpacks_sectionBody strays hb).before fun start =>
    Unpacks.pure { table with default? := table.default?.or (some start) }
  unfold defaultSection
  split
  · exact .behind (unpacks_report _ _) fun _ => labelled
  · exact labelled

theorem unpacks_switch (hs : Unpacks y value) (strays : List Token) {sections : SwitchTable → Gen SwitchTable}
    (h : ∀ table, Unpacks z (sections table)) (fault : Option Report) :
    Unpacks (y ++ z) (switch value strays sections fault) := by
  refine unpacks_inBlock fun _ => hs.bind fun _ => (unpacks_reportStrays .switch strays).behind fun _ => ?_
  refine .behind (.still (.of fun _ => rfl) (fun _ => rfl) fun _ => rfl) fun id => ?_
  refine .behind (unpacks_put (by decide) 0 0 _) fun _ => (h {}).before fun table => ?_
  exact (unpacks_reportFault fault).behind fun _ => unpacks_here.behind fun _ =>
    .still (.of fun _ => rfl) (fun _ => rfl) fun _ => rfl

theorem unpacks_switchWithoutBody (hs : Unpacks y value) (strays : List Token) (r : Report) :
    Unpacks y (switchWithoutBody value strays r) :=
  unpacks_inBlock fun _ => hs.before fun _ => (unpacks_reportStrays .switch strays).behind fun _ => unpacks_report _ _

theorem unpacks_whileLoop (ht : Unpacks y value) (strays : List Token) (hb : Unpacks z left) :
    Unpacks (y ++ z) (whileLoop value strays left) :=
  unpacks_here.behind fun _ => unpacks_inBlock fun _ => ht.bind fun _ => (unpacks_reportStrays .plain strays).behind fun _ =>
    .behind (unpacks_await (by decide) .none) fun _ => hb.before fun _ => unpacks_put (by decide) 0 _ .none

theorem unpacks_doLoop (hb : Unpacks y left) (ht : Unpacks z value) (strays : List Token) :
    Unpacks (y ++ z) (doLoop left value strays) :=
  unpacks_here.behind fun _ => unpacks_inBlock fun id => hb.bind fun _ => (unpacks_settleContinue id).behind fun _ =>
    ht.before fun _ => (unpacks_reportStrays .plain strays).behind fun _ => unpacks_put (by decide) 0 _ .none

theorem unpacks_doWithoutTest (hb : Unpacks y value) (r : Report) : Unpacks y (doWithoutTest value r) :=
  unpacks_inBlock fun _ => hb.before fun _ => unpacks_report _ _

theorem unpacks_reportIf (isWrong : Bool) (line : Nat) (problem : Problem) : Unpacks {} (reportIf isWrong line problem) :=
  .ite (unpacks_report line problem) (.pure ())

theorem unpacks_forLoop {init test body post : Gen Unit} (line : Nat) (hi : Unpacks w init) (hasTest : Bool)
    (ht : Unpacks x test) (afterTest : Bool) (hb : Unpacks y body) (hasPost : Bool) (hp : Unpacks z post)
    (afterPost : Bool) :
    Unpacks (w ++ (x ++ (y ++ z))) (forLoop line init hasTest test afterTest body hasPost post afterPost) := by
  refine hi.bind fun _ => unpacks_here.behind fun _ => unpacks_inBlock fun id => ht.bind fun _ => ?_
  refine .behind (.ite (unpacks_await (by decide) .none) (.pure ())) fun _ => (unpacks_reportIf _ _ _).behind fun _ => ?_
  refine hb.bind fun _ => (unpacks_settleContinue id).behind fun _ => hp.before fun _ => ?_
  exact (unpacks_dropIf hasPost).behind fun _ => (unpacks_reportIf _ _ _).behind fun _ => unpacks_put (by decide) 0 _ .none

theorem unpacks_foreachLoop (id : Nat) (table : ForeachTable) (h : Unpacks y value) :
    Unpacks y (foreachLoop id table value) :=
  .behind (.still (.of fun _ => rfl) (fun _ => rfl) fun _ => rfl) fun _ => .behind (unpacks_await (by decide) _) fun _ =>
    .behind (.still (.of fun _ => rfl) (fun _ => rfl) fun _ => rfl) fun _ => unpacks_here.behind fun _ =>
      .behind (unpacks_await (by decide) _) fun _ => h.before fun _ => unpacks_put (by decide) 0 _ .none

theorem unpacks_foreach (hs : Unpacks y value) (strays : List Token) {head : Nat → Gen Unit}
    (h : ∀ id, Unpacks z (head id)) : Unpacks (y ++ z) (foreach value strays head) :=
  unpacks_inBlock fun id => hs.bind fun _ => (unpacks_reportStrays .foreach strays).behind fun _ => h id

theorem unpacks_jumpOn (jump : LoopJump) (id : Nat) (target : Block) : Unpacks {} (jumpOn jump id target) := by
  refine .ite (unpacks_await (by decide) .none) (.ite ?_ (unpacks_put (by decide) 0 _ .none))
  exact (unpacks_emit (by decide) 0 0 .none).before fun _ => .still (.of fun _ => rfl) (fun _ => rfl) fun _ => rfl

theorem unpacks_loopJump (jump : LoopJump) (line level : Nat) (unterminated : Bool) :
    Unpacks {} (loopJump jump line level unterminated) := by
  refine unpacks_get.behind fun s => ?_
  dsimp only
  cases s.blocks.enclosing? [.loop] level with
  | none => exact unpacks_report line _
  | some id =>
      dsimp only
      cases s.blocks.get? id with
      | none => exact .pure ()
      | some target =>
          refine .behind (.still (.of fun _ => rfl) (fun _ => rfl) fun _ => rfl) fun _ => ?_
          exact (unpacks_jumpOn jump id target).behind fun _ => .ite (unpacks_report line _) (.pure ())

theorem unpacks_catchBody (h : Unpacks y value) : Unpacks y.closed (catchBody value) :=
  unpacks_owned fun id => unpacks_inContainer <| h.before fun _ => (unpacks_settle id none).behind fun _ =>
    unpacks_put (by decide) 0 0 .none

theorem unpacks_tryBody (h : Unpacks y value) : Unpacks y (tryBody value) :=
  unpacks_here.behind fun _ => unpacks_owned fun id => .behind (.still (.of fun _ => rfl) (fun _ => rfl) fun _ => rfl) fun _ =>
    .behind (unpacks_await (by decide) _) fun _ => h.before fun _ => (unpacks_settle id none).behind fun _ =>
      .behind (unpacks_put (by decide) 0 0 _) fun _ => .pure _

theorem unpacks_tryCatch (hb : Unpacks y value) {clauses : Nat → Gen Unit} (h : ∀ table, Unpacks z (clauses table))
    (fault : Option Report) : Unpacks (y ++ z) (tryCatch value clauses fault) :=
  (unpacks_tryBody hb).bind fun table => (h table).before fun _ => unpacks_reportFault fault

theorem unpacks_throw (line : Nat) (isPresent : Bool) (h : Unpacks y value) : Unpacks y (throw line isPresent value) :=
  h.before fun _ => .ite (unpacks_get.behind fun _ => unpacks_await (by decide) .none) (unpacks_report _ _)

theorem unpacks_constant (name : String) (line : Nat) (isPresent : Bool) (h : Unpacks y value) :
    Unpacks y.closed (constant name line isPresent value) :=
  (unpacks_thunk line isPresent h).before fun _ => .still (.of fun _ => rfl) (fun _ => rfl) fun _ => rfl

theorem unpacks_declare (line : Nat) (type : TypeSpec) (name : String) : Unpacks {} (declare line type name) :=
  (unpacks_setLine line).behind fun _ => unpacks_put (by decide) 0 _ _

theorem unpacks_assigned (line : Nat) (type : TypeSpec) (name : String) (isPresent : Bool) (h : Unpacks y value) :
    Unpacks y (assigned line type name isPresent value) :=
  (unpacks_declare line type name).behind fun _ => h.before fun _ => .ite unpacks_drop (unpacks_report _ _)

theorem unpacks_static (line : Nat) (type : TypeSpec) (name : String) (init : Code) :
    Unpacks {} (static line type name init) :=
  (unpacks_addStatic _).behind fun _ => .ite (unpacks_report _ _) (.pure ())

theorem unpacks_staticValue (line : Nat) (type : TypeSpec) (name : String) (valueLine : Nat) (isPresent : Bool)
    (h : Unpacks y value) : Unpacks y.closed (staticValue line type name valueLine isPresent value) := by
  refine (unpacks_thunk valueLine isPresent h).before fun init => ?_
  cases isPresent with
  | true => exact unpacks_static line type name init
  | false => exact (unpacks_report _ _).behind fun _ => unpacks_static line type name init

end Combinators

end Gen

end StackScript
