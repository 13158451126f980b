/-
Constructs at two places.

Every generator keeps two states matching when the generators of its parts do.  Values do so whatever is compared of
operands; statements stand in containers of their own, where switches are not told apart.  A search among the blocks
that ends inside finds the same block at both places, and where statements stand every search ends inside.
-/
import StackScript.Proofs.Relocation.State

namespace StackScript

open Gen

namespace Relocation

variable {L : Relocation} {flow : Bool} {α β : Type} {s t : GenState}
variable {left right operand condition yes no args callee value target key name entries targets argument : Gen Unit}
variable {test body subject source init post items guard : Gen Unit}

/-! ### Operators -/

theorem like_drop : L.Like flow drop := like_put _ _ _ _

theorem like_loadSlot (slot : Nat) : L.Like flow (loadSlot slot) := like_put _ _ _ _

theorem like_string (text : String) : L.Like flow (string text) := like_loadConstant _

theorem face_eq {x y : Instruction} (h : x.mapOperand L.face = y.mapOperand L.face) : L.face x.p3 = L.face y.p3 :=
  congrArg Instruction.p3 h

theorem op_eq {x y : Instruction} (h : x.mapOperand L.face = y.mapOperand L.face) : x.op = y.op := (congrArg Instruction.op h :)

theorem p1_eq {x y : Instruction} (h : x.mapOperand L.face = y.mapOperand L.face) : x.p1 = y.p1 := (congrArg Instruction.p1 h :)

theorem like_store : L.Like flow store := by
  intro s t hroot h
  have plain (p2 : Nat) : L.Onto s t (after (put .store 0 p2 .none) s) (after (put .store 0 p2 .none) t) :=
    (like_put _ _ _ _ s t hroot h).1
  refine ⟨?_, rfl⟩
  unfold store
  rw [after_bind, after_bind, after_last?, after_last?, result_last?, result_last?]
  rcases Code.back?_eq h.code with ⟨hs, ht⟩ | ⟨x, y, hs, ht, hxy⟩
  · rw [hs, ht]
    exact plain 0
  · rw [hs, ht]
    dsimp only
    rw [← op_eq hxy, ← p1_eq hxy]
    split
    · exact plain 1
    · exact h.rewrite _ _ _ rfl
    · exact h.rewrite _ _ _ (face_eq hxy)

theorem like_create : L.Like flow create := by
  intro s t hroot h
  have plain : L.Onto s t (after (put .new 0 0 .none) s) (after (put .new 0 0 .none) t) := (like_put _ _ _ _ s t hroot h).1
  refine ⟨?_, rfl⟩
  unfold create
  rw [after_bind, after_bind, after_last?, after_last?, result_last?, result_last?]
  rcases Code.back?_eq h.code with ⟨hs, ht⟩ | ⟨x, y, hs, ht, hxy⟩
  · rw [hs, ht]
    exact plain
  · rw [hs, ht]
    have member : s.code.beforeLast?.any (·.op == .member) = t.code.beforeLast?.any (·.op == .member) :=
      Code.beforeLast?_eq h.code .member
    dsimp only
    rw [after_bind, after_bind, after_beforeLast?, after_beforeLast?, result_beforeLast?, result_beforeLast?, ← op_eq hxy,
      ← p1_eq hxy, ← member]
    split
    · exact h.rewrite _ _ _ rfl
    · exact plain

theorem like_staticMember : L.Like flow staticMember := by
  intro s t hroot h
  have plain : L.Onto s t (after (put .member 1 0 .none) s) (after (put .member 1 0 .none) t) :=
    (like_put _ _ _ _ s t hroot h).1
  refine ⟨?_, rfl⟩
  unfold staticMember
  rw [after_bind, after_bind, after_last?, after_last?, result_last?, result_last?]
  rcases Code.back?_eq h.code with ⟨hs, ht⟩ | ⟨x, y, hs, ht, hxy⟩
  · rw [hs, ht]
    exact plain
  · rw [hs, ht]
    dsimp only
    rw [← op_eq hxy]
    split
    · exact h.rewrite _ _ _ (face_eq hxy)
    · exact plain

theorem like_markCallee : L.Like flow markCallee := by
  intro s t _ h
  refine ⟨?_, rfl⟩
  unfold markCallee
  rw [after_modifyLast, after_modifyLast, ← h.size_code]
  refine h.recode (Code.mapOperands_modify h.code _ fun x => ?_)
  obtain ⟨op, p1, p2, p3, line⟩ := x
  cases op <;> rfl

theorem like_operator (op : Operator) (p1 : Int) : L.Like flow (operator op p1) := by
  unfold operator
  cases op.opcode? with
  | none => exact like_pure ()
  | some code => exact like_put _ _ _ _

theorem like_prefixed (line : Nat) (op : Operator) (h : L.Like flow operand) : L.Like flow (prefixed line op operand) := by
  refine (like_setLine line).behind fun _ => h.behind fun _ => ?_
  split
  · exact like_create
  · exact like_operator _ 1
  · exact like_operator _ 1
  · exact like_operator _ 0

theorem like_postfixed (line : Nat) (op : Operator) (h : L.Like flow operand) : L.Like flow (postfixed line op operand) :=
  (like_setLine line).behind fun _ => h.behind fun _ => like_operator op 0

theorem like_shortCircuit (jump : Opcode) (op : Operator) (h : L.Like flow right) :
    L.Like flow (shortCircuit jump op right) :=
  (twins_emit _ _ _ rfl).behind fun index => h.behind fun _ => (like_operator op 0).behind fun _ => like_landHere index

theorem like_binary (line : Nat) (op : Operator) (hl : L.Like flow left) (hr : L.Like flow right) :
    L.Like flow (binary line op left right) := by
  refine (like_setLine line).behind fun _ => hl.behind fun _ => ?_
  split
  · exact like_drop.behind fun _ => hr
  · exact like_shortCircuit _ _ hr
  · exact like_shortCircuit _ _ hr
  · exact hr.behind fun _ => like_staticMember
  · exact hr.behind fun _ => like_operator _ 0

theorem like_assign (line : Nat) (op : Operator) (hv : L.Like flow value) (ht : L.Like flow target) :
    L.Like flow (assign line op value target) := by
  refine (like_setLine line).behind fun _ => hv.behind fun _ => ht.behind fun _ => ?_
  split
  · exact like_store
  · exact like_operator _ 0

theorem like_ternary (line : Nat) (hc : L.Like flow condition) (hy : L.Like flow yes) (hn : L.Like flow no) :
    L.Like flow (ternary line condition yes no) :=
  (like_setLine line).behind fun _ => hc.behind fun _ => (twins_emit _ _ _ rfl).behind fun skip => hy.behind fun _ =>
    (twins_emit _ _ _ rfl).behind fun out => (like_landHere skip).behind fun _ => hn.behind fun _ => like_landHere out

theorem like_call (line count : Nat) (ha : L.Like flow args) (hc : L.Like flow callee) :
    L.Like flow (call line count args callee) :=
  (like_setLine line).behind fun _ => ha.behind fun _ => hc.behind fun _ => like_markCallee.behind fun _ =>
    like_put _ _ _ _

theorem like_index (line : Nat) (store : Bool) {base : Gen Unit} (hb : L.Like flow base) (hk : L.Like flow key) :
    L.Like flow (index line store base key) :=
  (like_setLine line).behind fun _ => hb.behind fun _ => hk.behind fun _ => like_put _ _ _ _

theorem like_append (line : Nat) (store : Bool) {base : Gen Unit} (hb : L.Like flow base) :
    L.Like flow (append line store base) :=
  (like_setLine line).behind fun _ => hb.behind fun _ => like_put _ _ _ _

/-! ### Searches -/

/-- A search for the innermost block of a kind finds the same one at both places, or goes on among the blocks around
them. -/
theorem Match.nearestFrom (h : L.Match s t) (tags : List BlockTag) (j : Nat) :
    (∃ i, s.blocks.nearestFrom tags (L.depth + j) = some (L.depth + i) ∧
        t.blocks.nearestFrom tags (L.depth' + j) = some (L.depth' + i)) ∨
      s.blocks.nearestFrom tags (L.depth + j) = s.blocks.nearestFrom tags L.depth ∧
        t.blocks.nearestFrom tags (L.depth' + j) = t.blocks.nearestFrom tags L.depth' := by
  induction j with
  | zero => exact .inr ⟨rfl, rfl⟩
  | succ j ih =>
      rw [← Nat.add_assoc, ← Nat.add_assoc, BlockStack.nearestFrom, BlockStack.nearestFrom, ← h.blocks]
      split
      · exact .inl ⟨j, rfl, rfl⟩
      · exact ih

theorem nearestFrom_lt {bs : BlockStack} {tags : List BlockTag} {n id : Nat} (h : bs.nearestFrom tags n = some id) :
    id < n := by
  induction n with
  | zero => cases h
  | succ n ih =>
      rw [BlockStack.nearestFrom] at h
      split at h
      · cases h
        exact Nat.lt_succ_self _
      · exact Nat.lt_succ_of_lt (ih h)

theorem Plain.nearestFrom {bs : BlockStack} {n : Nat} (h : Plain bs n) {tags : List BlockTag}
    (htags : ∀ tag ∈ tags, tag = .class_ ∨ tag = .function) : bs.nearestFrom tags n = none := by
  cases hid : bs.nearestFrom tags n with
  | none => rfl
  | some id =>
      obtain ⟨b, hb, hany⟩ := ((bs.nearestFrom_spec tags n).1 id hid).1
      have plain := h id b (nearestFrom_lt hid) hb
      obtain ⟨tag, htag, hcontains⟩ := List.any_eq_true.mp hany
      rcases htags tag htag with rfl | rfl <;> simp only [Block.hasAny, List.any_cons, hcontains, Bool.true_or, Bool.or_true] at plain <;>
        cases plain

/-- The function or class around the code is the same at both places. -/
theorem Match.nearestOwner? (h : L.Match s t) {tags : List BlockTag} (htags : ∀ tag ∈ tags, tag = .class_ ∨ tag = .function) :
    s.blocks.nearestOwner? tags = t.blocks.nearestOwner? tags := by
  obtain ⟨j, hs, ht⟩ := h.size
  unfold BlockStack.nearestOwner?
  rw [hs, ht]
  rcases h.nearestFrom tags j with ⟨i, hi, hi'⟩ | ⟨hi, hi'⟩ <;> rw [hi, hi']
  · rw [Option.bind_some, Option.bind_some, h.blocks]
  · rw [h.plain.nearestFrom htags, h.plain'.nearestFrom htags]
    rfl

theorem Match.nearest (h : L.Match s t) (hroot : s.blocks.Rooted L.depth) :
    ∃ j, s.blocks.nearest [.exception, .function] = L.depth + j ∧ t.blocks.nearest [.exception, .function] = L.depth' + j := by
  obtain ⟨j, hs, ht⟩ := h.size
  have inside := Kinship.base_le_nearest hroot
  unfold BlockStack.nearest at inside ⊢
  rw [hs] at inside ⊢
  rw [ht]
  rcases h.nearestFrom [.exception, .function] j with ⟨i, hi, hi'⟩ | ⟨hi, -⟩
  · exact ⟨i, by rw [hi, Option.getD_some], by rw [hi', Option.getD_some]⟩
  · rw [hi] at inside
    have filled := L.filled
    cases hid : s.blocks.nearestFrom [.exception, .function] L.depth with
    | none =>
        rw [hid, Option.getD_none] at inside
        omega
    | some id =>
        have := nearestFrom_lt hid
        rw [hid, Option.getD_some] at inside
        omega

/-- A search that meets a boundary inside finds the same block at both places, or none. -/
theorem Match.enclosingFrom (h : L.Match s t) (tags : List BlockTag) {j : Nat} (count : Nat)
    (hbound : ∃ i b, i < j ∧ s.blocks.get? (L.depth + i) = some b ∧ b.isBoundary = true) :
    (∃ i, s.blocks.enclosingFrom tags (L.depth + j) count = some (L.depth + i) ∧
        t.blocks.enclosingFrom tags (L.depth' + j) count = some (L.depth' + i)) ∨
      s.blocks.enclosingFrom tags (L.depth + j) count = none ∧ t.blocks.enclosingFrom tags (L.depth' + j) count = none := by
  induction j generalizing count with
  | zero =>
      obtain ⟨i, -, hi, -⟩ := hbound
      exact absurd hi (Nat.not_lt_zero i)
  | succ j ih =>
      rw [← Nat.add_assoc, ← Nat.add_assoc, BlockStack.enclosingFrom, BlockStack.enclosingFrom, ← h.blocks]
      cases hb : s.blocks.get? (L.depth + j) with
      | none => exact .inr ⟨rfl, rfl⟩
      | some b =>
          dsimp only
          split
          · exact .inl ⟨j, rfl, rfl⟩
          · split
            · exact .inr ⟨rfl, rfl⟩
            · rename_i hinner
              obtain ⟨i, c, hi, hc, hboundary⟩ := hbound
              refine ih _ ⟨i, c, ?_, hc, hboundary⟩
              refine Nat.lt_of_le_of_ne (Nat.le_of_lt_succ hi) ?_
              rintro rfl
              rw [hb] at hc
              cases hc
              exact hinner hboundary

theorem Match.enclosing? (h : L.Match s t) (hroot : s.blocks.Rooted L.depth) (tags : List BlockTag) (level : Nat) :
    (∃ j, s.blocks.enclosing? tags level = some (L.depth + j) ∧ t.blocks.enclosing? tags level = some (L.depth' + j)) ∨
      s.blocks.enclosing? tags level = none ∧ t.blocks.enclosing? tags level = none := by
  obtain ⟨j, hs, ht⟩ := h.size
  have filled := L.filled
  unfold BlockStack.enclosing?
  rw [hs, ht]
  obtain ⟨k, b, hk, hb, hboundary, -⟩ := hroot (L.depth - 1) (by omega)
  have hlt : k < s.blocks.blocks.size := (Array.getElem?_eq_some_iff.mp hb).1
  refine h.enclosingFrom tags level ⟨k - L.depth, b, by omega, ?_, hboundary⟩
  rw [show L.depth + (k - L.depth) = k by omega]
  exact hb

/-! ### Leaves -/

/-- A step that only looks at the owners of the blocks. -/
theorem like_look {m : Gen α} (hstill : ∀ s, after m s = s) (hresult : ∀ s t, L.Match s t → result m s = result m t) :
    L.Like flow m := by
  intro s t _ h
  rw [hstill s, hstill t]
  exact ⟨⟨h, rfl⟩, hresult s t h⟩

theorem like_currentClass : L.Like flow currentClass := by
  refine like_look (fun s => ?_) fun s t h => ?_
  · simp only [currentClass, after_bind, after_get, result_get]
    split <;> rfl
  · have owner := @Match.nearestOwner? L s t h [.class_] (by simp)
    simp only [currentClass, result_bind, after_get, result_get, owner]
    split <;> rfl

theorem like_currentFunction : L.Like flow currentFunction := by
  refine like_look (fun s => ?_) fun s t h => ?_
  · simp only [currentFunction, after_bind, after_get, result_get]
    split <;> rfl
  · have owner := @Match.nearestOwner? L s t h [.function] (by simp)
    simp only [currentFunction, result_bind, after_get, result_get, owner]
    split <;> rfl

theorem like_restrict (restriction : Option Restriction) (root : Tree Leaf) : L.Like flow (restrict restriction root) := by
  unfold restrict
  split
  · exact like_report _ _
  · exact like_pure ()

theorem like_number (t : Token) : L.Like flow (number t) := by
  unfold number
  split
  · split
    · exact like_loadConstant _
    · split
      · exact like_loadConstant _
      · exact (like_report _ _).behind fun _ => like_loadConstant _
  · exact like_loadConstant _

theorem like_nameOrNull (name : Option String) : L.Like flow (nameOrNull name) := by
  cases name with
  | none => exact like_loadSlot _
  | some name => exact like_string name

theorem like_name (path : Option Nat) (t : Token) : L.Like flow (Gen.name path t) := by
  have noted : L.Like flow (notePath path) := by
    cases path with
    | none => exact like_pure ()
    | some line => exact like_noteNamespaces line
  refine noted.behind fun _ => ?_
  cases literalSlot? t.text with
  | some slot => exact like_loadSlot slot
  | none =>
      dsimp only
      split
      · exact like_loadConstant _
      · exact like_read (·.config.fileLabel) string (fun _ _ h => by rw [h.config]) like_string
      · exact like_read (·.config.dirLabel) string (fun _ _ h => by rw [h.config]) like_string
      · exact like_currentClass.behind like_nameOrNull
      · exact like_currentFunction.behind fun _ => like_nameOrNull _
      · exact like_currentFunction.behind fun _ => like_nameOrNull _
      · exact like_load _ 1

theorem like_lookUp (access : Access) (n : Nat) : L.Like flow (lookUp access n) := by
  induction n with
  | zero => exact like_pure ()
  | succ n ih => exact (like_put _ _ _ _).behind fun _ => ih

theorem like_loadVariable (access : Access) (line : Nat) (name : String) (extra : Nat) :
    L.Like flow (loadVariable access line name extra) :=
  (like_setLine line).behind fun _ => (like_put _ _ _ _).behind fun _ => like_lookUp access extra

theorem like_cutShort (stray : Option Nat) : L.Like flow (cutShort stray) := by
  cases stray with
  | none => exact like_pure ()
  | some line => exact like_report _ _

theorem like_computedVariable (access : Access) (line braceLine : Nat) (isPresent : Bool) (h : L.Like flow name)
    (stray : Option Nat) (extra : Nat) :
    L.Like flow (computedVariable access line braceLine isPresent name stray extra) := by
  refine (like_setLine braceLine).behind fun _ => h.behind fun _ => (like_cutShort stray).behind fun _ => ?_
  split
  · exact like_lookUp access _
  · exact like_report _ _

theorem like_blankVariable (line braceLine : Nat) : L.Like flow (blankVariable line braceLine) :=
  (like_setLine braceLine).behind fun _ => like_report _ _

theorem like_joinPieces (count : Nat) : L.Like flow (joinPieces count) := by
  unfold joinPieces
  split
  · exact like_put _ _ _ _
  · exact like_pure ()

theorem like_item (mark : ItemMark) (h : L.Like flow value) : L.Like flow (item mark value) := by
  refine h.behind fun _ => ?_
  split
  · exact like_put _ _ _ _
  · exact like_cutShort _

theorem like_plainEntry (line : Nat) (h : L.Like flow value) : L.Like flow (plainEntry line value) :=
  (like_setLine line).behind fun _ => (like_loadSlot _).behind fun _ => h

theorem like_keyedEntry (line : Nat) (hk : L.Like flow key) (hv : L.Like flow value) :
    L.Like flow (keyedEntry line key value) :=
  (like_setLine line).behind fun _ => hk.behind fun _ => hv

theorem like_unkeyedEntry (line : Nat) (h : L.Like flow value) : L.Like flow (unkeyedEntry line value) :=
  (like_setLine line).behind fun _ => (like_report _ _).behind fun _ => (like_loadSlot _).behind fun _ => h

theorem like_array (count : Nat) (h : L.Like flow entries) (incomplete : Option Nat) :
    L.Like flow (array count entries incomplete) := by
  refine h.behind fun _ => ?_
  split
  · exact (like_setLine _).behind fun _ => like_report _ _
  · exact like_put _ _ _ _

theorem like_list (count : Nat) (h : L.Like flow targets) : L.Like flow (list count targets) :=
  h.behind fun _ => like_put _ _ _ _

theorem like_construct (word : String) (isPresent : Bool) (h : L.Like flow argument) :
    L.Like flow (construct word isPresent argument) :=
  h.behind fun _ => (like_string word).behind fun _ => like_put _ _ _ _

/-! ### Functions and classes -/

/-- Code of its own. -/
theorem twins_thunk (line : Nat) (isPresent : Bool) (h : L.Like false value) :
    L.Twins flow (thunk line isPresent value) (thunk line isPresent value) fun _ _ => True :=
  (twins_inContainer L.face (h.behind fun _ => (like_setLine line).behind fun _ => like_put _ _ _ _)).value

/-- What is generated behind code of its own does not depend on that code. -/
theorem like_behindThunk (line : Nat) (isPresent : Bool) (h : L.Like false value) {f : Code → Gen β}
    (hf : ∀ a b, L.Same flow (f a) (f b)) : L.Like flow (thunk line isPresent value >>= f) :=
  (twins_thunk line isPresent h).bind fun a b _ => hf a b

theorem twins_functionBody (name : String) (className : Option String)
    (h : (L.facing Operand.unswitched).Like true body) :
    L.Twins flow (functionBody name className body) (functionBody name className body) fun _ _ => True := by
  refine twins_enclosed [.guarded, .function] _ (by decide) fun j => ?_
  refine (twins_collectingStatics (R := fun _ _ => True) (twins_inContainer Operand.unswitched ?_)).mono fun _ _ _ => trivial
  exact h.behind fun _ => (twins_settle j _).behind fun _ => like_put _ _ _ _

theorem twins_catchBody (h : (L.facing Operand.unswitched).Like true body) :
    L.Twins flow (catchBody body) (catchBody body) fun _ _ => True := by
  refine twins_enclosed [.exception, .guarded] _ (by decide) fun j => twins_inContainer Operand.unswitched ?_
  exact h.behind fun _ => (twins_settle j _).behind fun _ => like_put _ _ _ _

/-- Argument lists of the same types. -/
def SameTypes (as bs : List Argument) : Prop := as.map Argument.type = bs.map Argument.type

theorem twins_arguments {params : Gen (List Argument)} (h : L.Twins false params params SameTypes)
    (fault : Option Report) : L.Twins false (arguments params fault) (arguments params fault) SameTypes :=
  h.bind fun _ _ hab => (like_reportFault fault).behind fun _ => .pure hab

/-- What a function is known by depends on the types of its arguments. -/
theorem shell_declared (head : FunctionHead) {as bs : List Argument} (h : SameTypes as bs) :
    (declared head as).shell = (declared head bs).shell := by
  have types : as.mapM Argument.type = bs.mapM Argument.type := by
    induction as generalizing bs with
    | nil =>
        cases bs with
        | nil => rfl
        | cons b bs => cases h
    | cons a as ih =>
        cases bs with
        | nil => cases h
        | cons b bs =>
            obtain ⟨first, rest⟩ := List.cons.inj h
            rw [List.mapM_cons, List.mapM_cons, first, ih rest]
  have empty : as.isEmpty = bs.isEmpty := by
    rw [← List.isEmpty_map (f := Argument.type), h, List.isEmpty_map]
  simp only [declared, FunctionDef.shell, FunctionDef.signatureOf, types, empty]

theorem twins_functionDef (head : FunctionHead) {as bs : List Argument} (hab : SameTypes as bs)
    (h : (L.facing Operand.unswitched).Like true body) :
    L.Twins flow (functionDef head as body) (functionDef head bs body) fun f g => f.shell = g.shell := by
  have completed (className : Option String) : L.Twins flow
      (functionBody head.name className body >>= fun made =>
        pure { declared head as with code := made.1, statics := made.2 })
      (functionBody head.name className body >>= fun made =>
        pure { declared head bs with code := made.1, statics := made.2 }) fun f g => f.shell = g.shell :=
    (twins_functionBody head.name className h).bind fun _ _ _ => .pure (shell_declared head hab)
  unfold functionDef
  split
  · exact like_currentClass.behind completed
  · exact completed none

theorem like_function {params : Gen (List Argument)} (head : FunctionHead) (hp : L.Twins false params params SameTypes)
    (fault : Option Report) (hb : (L.facing Operand.unswitched).Like true body) :
    L.Like flow (function head params fault body) := by
  refine (twins_arguments hp fault).value.bind fun as bs hab => (twins_functionDef head hab hb).bind fun f g hfg =>
    (twins_installFunction hfg).behind fun installed => ?_
  cases installed with
  | true => exact like_pure ()
  | false => exact like_report _ _

theorem like_captureReports (captures : Option CaptureList) : L.Like flow (captureReports captures) := by
  cases captures with
  | none => exact like_pure ()
  | some list => exact (like_reportFault _).behind fun _ => like_reportFault _

theorem twins_loadFunction {f g : FunctionDef} (hfg : f.shell = g.shell) :
    L.Same flow (loadFunction f) (loadFunction g) := by
  have name : f.name = g.name := (congrArg FunctionDef.name hfg :)
  have line : f.line = g.line := (congrArg FunctionDef.line hfg :)
  have flags : f.flags = g.flags := (congrArg FunctionDef.flags hfg :)
  unfold loadFunction
  rw [flags, name, line]
  split
  · exact (twins_addClosure f g).behind fun id => like_put _ _ _ _
  · refine (twins_installFunction hfg).behind fun installed => ?_
    cases installed with
    | true => exact like_loadConstant _
    | false => exact like_report _ _

theorem like_closure {params : Gen (List Argument)} (line : Nat) (returns : TypeSpec)
    (hp : L.Twins false params params SameTypes) (fault : Option Report) (captures : Option CaptureList)
    (hb : (L.facing Operand.unswitched).Like true body) :
    L.Like flow (closure line returns params fault captures body) := by
  refine like_nextClosureName.behind fun name => (twins_arguments hp fault).value.bind fun as bs hab =>
    (like_captureReports captures).behind fun _ => (twins_functionDef _ hab hb).bind fun f g hfg => twins_loadFunction ?_
  exact congrArg (fun h : FunctionDef => { h with captures := captures.elim [] CaptureList.captures }) hfg

theorem twins_memberValue (head : MemberHead) (problem : Problem) (line : Nat) (isPresent : Bool) (h : L.Like false value) :
    L.Twins flow (memberValue head problem line isPresent value) (memberValue head problem line isPresent value)
      fun _ _ => True := by
  refine (twins_thunk line isPresent h).bind fun a b _ => ?_
  cases isPresent with
  | true => exact .pure trivial
  | false => exact (like_report _ _).behind fun _ => .pure trivial

theorem like_link (head : ClassHead) : L.Like flow (link head) := by
  unfold link
  split
  · exact (like_addLink _).behind fun _ => (like_setLine _).behind fun _ => like_put _ _ _ _
  · exact like_pure ()

theorem twins_completeClass (head : ClassHead) {c d : ClassDef} (hcd : c.name = d.name) :
    L.Same flow (completeClass head c) (completeClass head d) := by
  refine (twins_installClass hcd).behind fun installed => ?_
  cases installed with
  | true => exact like_link head
  | false => exact like_report _ _

variable (L) in
/-- A generator that adds members to a class. -/
def LikeMembers (members : ClassDef → Gen ClassDef) : Prop :=
  ∀ c d, c.name = d.name → L.Twins false (members c) (members d) fun c d => c.name = d.name

theorem like_class_ (head : ClassHead) {members : ClassDef → Gen ClassDef} (hm : L.LikeMembers members)
    (fault : Option ErrorReport) : L.Like flow (class_ head members fault) := by
  have made : L.Twins flow (members { name := head.name, flags := head.flags, line := head.line })
      (members { name := head.name, flags := head.flags, line := head.line }) fun c d => c.name = d.name :=
    (hm _ _ rfl).value
  unfold class_
  cases fault with
  | some error =>
      dsimp only
      split
      · exact made.bind fun _ _ _ => like_report _ _
      · exact like_here.behind fun first => (twins_owned _ first _ fun _ => made).bind fun _ _ _ => like_report _ _
  | none =>
      dsimp only
      split
      · exact made.bind fun _ _ hcd => twins_completeClass head hcd
      · exact like_here.behind fun first => (twins_owned _ first _ fun _ => made).bind fun _ _ hcd =>
          twins_completeClass head hcd

end Relocation

end StackScript
