/-
Constructs of two runs side by side.

Every generator keeps two states matching when the generators of its parts do.  Values do so from every
`base`; statements where their jumps stay in the container, and those that jump on a block of their own are
told it by number.
-/
import StackScript.Proofs.Likeness.Step

namespace StackScript

open Gen

namespace Kinship

variable {K : Kinship} {flow : Bool} {base : Nat} {p q : ConstantPool} {α β : Type}
variable {left right operand condition yes no args callee value target key name entries targets argument : Gen Unit}
variable {test body subject source init post items : Gen Unit}

/-! ### Operators -/

/-- Two states after replacing their last instructions, or after adding one. -/
theorem like_store : K.Like flow base store := by
  intro p q s t hp hq hroot h
  have plain : ∀ p2, K.Onto base s t (after (put .store 0 p2 .none) s) (after (put .store 0 p2 .none) t) :=
    fun p2 => (like_put (by decide) 0 p2 .none p q s t hp hq hroot h).1
  refine ⟨?_, rfl⟩
  unfold store
  rw [after_bind, after_bind, after_last?, after_last?, result_last?, result_last?]
  rcases h.code.back? with ⟨hs, ht⟩ | ⟨x, y, hs, ht, hxy⟩
  · rw [hs, ht]
    exact plain 0
  · rw [hs, ht]
    dsimp only
    rw [← hxy.op, ← hxy.p1, ← hxy.p3]
    split
    · exact plain 1
    · exact h.rewrite (by decide) x.p1 0 .none
    · exact h.rewrite (by decide) 0 0 x.p3

theorem like_create : K.Like flow base create := by
  intro p q s t hp hq hroot h
  have plain : K.Onto base s t (after (put .new 0 0 .none) s) (after (put .new 0 0 .none) t) :=
    (like_put (by decide) 0 0 .none p q s t hp hq hroot h).1
  refine ⟨?_, rfl⟩
  unfold create
  rw [after_bind, after_bind, after_last?, after_last?, result_last?, result_last?]
  rcases h.code.back? with ⟨hs, ht⟩ | ⟨x, y, hs, ht, hxy⟩
  · rw [hs, ht]
    exact plain
  · rw [hs, ht]
    have member : s.code.beforeLast?.any (·.op == .member) = t.code.beforeLast?.any (·.op == .member) :=
      h.code.beforeLast? .member
    dsimp only
    rw [after_bind, after_bind, after_beforeLast?, after_beforeLast?, result_beforeLast?, result_beforeLast?, ← hxy.op,
      ← hxy.p1, ← member]
    split
    · exact h.rewrite (by decide) x.p1 0 .none
    · exact plain

theorem like_staticMember : K.Like flow base staticMember := by
  intro p q s t hp hq hroot h
  have plain : K.Onto base s t (after (put .member 1 0 .none) s) (after (put .member 1 0 .none) t) :=
    (like_put (by decide) 1 0 .none p q s t hp hq hroot h).1
  refine ⟨?_, rfl⟩
  unfold staticMember
  rw [after_bind, after_bind, after_last?, after_last?, result_last?, result_last?]
  rcases h.code.back? with ⟨hs, ht⟩ | ⟨x, y, hs, ht, hxy⟩
  · rw [hs, ht]
    exact plain
  · rw [hs, ht]
    dsimp only
    rw [← hxy.op, ← hxy.p3]
    split
    · exact h.rewrite (by decide) 1 0 x.p3
    · exact plain

theorem like_markCallee : K.Like flow base markCallee := by
  intro p q s t _ _ _ h
  refine ⟨?_, rfl⟩
  unfold markCallee
  rw [after_modifyLast, after_modifyLast, ← h.code.size]
  refine h.revise (h.code.modify _ fun x y _ hxy => ?_) fun i x hx hop => ?_
  · rw [← hxy.op]
    split
    · rename_i hop
      exact ⟨rfl, rfl, fun _ => hxy.slot hop, fun hload => absurd hop hload, hxy.p3, hxy.line⟩
    · rename_i hop
      exact ⟨rfl, hxy.p1, fun hload => by simp [hop] at hload, fun _ => rfl, hxy.p3, hxy.line⟩
    · rename_i hop
      exact ⟨rfl, hxy.p1, fun hload => by simp [hop] at hload, fun _ => rfl, hxy.p3, hxy.line⟩
    · exact hxy
  · rw [Array.getElem?_modify]
    split
    · rw [hx]
      refine ⟨_, rfl, ?_⟩
      dsimp only
      split <;> exact hop
    · exact ⟨x, hx, hop⟩

theorem opcode_ne_loadc {op : Operator} {code : Opcode} (h : op.opcode? = some code) : code ≠ .loadc := by
  rintro rfl
  cases op with
  | cast type => cases type <;> cases h
  | _ => cases h

theorem like_operator (op : Operator) (p1 : Int) : K.Like flow base (operator op p1) := by
  unfold operator
  cases h : op.opcode? with
  | none => exact Like.pure ()
  | some code => exact like_put (opcode_ne_loadc h) p1 0 .none

theorem like_prefixed (line : Nat) (op : Operator) (h : K.Like flow base operand) :
    K.Like flow base (prefixed line op operand) := by
  refine (like_setLine line).bind fun _ => h.bind fun _ => ?_
  split
  · exact like_create
  · exact like_operator _ 1
  · exact like_operator _ 1
  · exact like_operator _ 0

theorem like_postfixed (line : Nat) (op : Operator) (h : K.Like flow base operand) :
    K.Like flow base (postfixed line op operand) :=
  (like_setLine line).bind fun _ => h.bind fun _ => like_operator op 0

/-- A step behind others. -/
theorem Like.behind {m : Gen α} (h : K.Like flow base m) {s t s' t' : GenState}
    (hroot : flow = true → s.blocks.Rooted base) (first : K.Onto base s t s' t') :
    K.Onto base s' t' (after m s') (after m t') ∧ result m s' = result m t' :=
  h s'.pool t'.pool s' t' .refl .refl (fun hflow => (hroot hflow).congr first.forward.shapes) first.match'

/-- A jump over some steps, which do not turn it into a load. -/
theorem like_over {jump : Opcode} (hj : jump ≠ .loadc) (p1 : Int) {m : Gen Unit} (h : K.Like flow base m) :
    K.Like flow base (do
      let index ← emit jump p1 0 .none
      m
      landHere index) := by
  intro p q s t hp hq hroot hst
  obtain ⟨emitted, hi⟩ := like_emit hj p1 0 .none p q s t hp hq hroot hst
  obtain ⟨inner, -⟩ := h.behind hroot emitted
  have landed := inner.match'.land (inner.forward.solid s.code.size ⟨jump, p1, 0, .none, s.buffer.line⟩
    Array.getElem?_push_size hj)
  have index : result (emit jump p1 0 .none) t = s.code.size := hi.symm
  simp only [after_bind, index, result_emit]
  exact ⟨(emitted.trans inner).trans landed, rfl⟩

theorem like_shortCircuit {jump : Opcode} (hj : jump ≠ .loadc) (op : Operator) (h : K.Like flow base right) :
    K.Like flow base (shortCircuit jump op right) :=
  like_over hj 1 (m := do
    right
    operator op 0) (h.bind fun _ => like_operator op 0)

theorem like_binary (line : Nat) (op : Operator) (hl : K.Like flow base left) (hr : K.Like flow base right) :
    K.Like flow base (binary line op left right) := by
  refine (like_setLine line).bind fun _ => hl.bind fun _ => ?_
  split
  · exact like_drop.bind fun _ => hr
  · exact like_shortCircuit (by decide) _ hr
  · exact like_shortCircuit (by decide) _ hr
  · exact hr.bind fun _ => like_staticMember
  · exact hr.bind fun _ => like_operator _ 0

theorem like_assign (line : Nat) (op : Operator) (hv : K.Like flow base value) (ht : K.Like flow base target) :
    K.Like flow base (assign line op value target) := by
  refine (like_setLine line).bind fun _ => hv.bind fun _ => ht.bind fun _ => ?_
  split
  · exact like_store
  · exact like_operator _ 0

theorem like_ternary (line : Nat) (hc : K.Like flow base condition) (hy : K.Like flow base yes)
    (hn : K.Like flow base no) : K.Like flow base (ternary line condition yes no) := by
  refine (like_setLine line).bind fun _ => hc.bind fun _ => ?_
  intro p q s t hp hq hroot hst
  -- The two jumps land where the second half starts and where it ends.
  obtain ⟨test, hi⟩ := like_emit (show Opcode.jmpz ≠ .loadc by decide) 0 0 .none p q s t hp hq hroot hst
  obtain ⟨first, -⟩ := hy.behind hroot test
  obtain ⟨skip, hj⟩ := (like_emit (show Opcode.jmp ≠ .loadc by decide) 0 0 .none).behind hroot (test.trans first)
  have front := (test.trans first).trans skip
  have landed := skip.match'.land ((first.forward.trans skip.forward).solid s.code.size
    ⟨.jmpz, 0, 0, .none, s.buffer.line⟩ Array.getElem?_push_size Opcode.noConfusion)
  obtain ⟨second, -⟩ := hn.behind hroot (front.trans landed)
  have done := second.match'.land ((landed.forward.trans second.forward).solid _
    ⟨.jmp, 0, 0, .none, _⟩ Array.getElem?_push_size Opcode.noConfusion)
  have index : result (emit .jmpz 0 0 .none) t = result (emit .jmpz 0 0 .none) s := hi.symm
  simp only [after_bind, index, ← hj]
  exact ⟨((front.trans landed).trans second).trans done, rfl⟩

theorem like_call (line count : Nat) (ha : K.Like flow base args) (hc : K.Like flow base callee) :
    K.Like flow base (call line count args callee) :=
  (like_setLine line).bind fun _ => ha.bind fun _ => hc.bind fun _ => like_markCallee.bind fun _ =>
    like_put (by decide) _ _ _

theorem like_index (line : Nat) (store : Bool) {base' : Gen Unit} (hb : K.Like flow base base')
    (hk : K.Like flow base key) : K.Like flow base (index line store base' key) :=
  (like_setLine line).bind fun _ => hb.bind fun _ => hk.bind fun _ => like_put (by decide) _ _ _

theorem like_append (line : Nat) (store : Bool) {base' : Gen Unit} (hb : K.Like flow base base') :
    K.Like flow base (append line store base') :=
  (like_setLine line).bind fun _ => hb.bind fun _ => like_put (by decide) _ _ _

/-! ### Leaves -/

theorem like_restrict (restriction : Option Restriction) (root : Tree Leaf) :
    K.Like flow base (restrict restriction root) := by
  unfold restrict
  split
  · exact like_report _ _
  · exact Like.pure ()

theorem like_number (t : Token) : K.Like flow base (number t) := by
  unfold number
  split
  · split
    · exact like_loadConstant (.int _)
    · split
      · exact like_loadConstant (.real _)
      · exact (like_report _ _).bind fun _ => like_loadConstant (.int _)
  · exact like_loadConstant (.real _)

theorem like_nameOrNull (name : Option String) : K.Like flow base (nameOrNull name) := by
  cases name with
  | none => exact like_loadSlot (by decide)
  | some name => exact like_string name

/-- A step that only looks at the owners of the blocks. -/
theorem like_look {m : Gen α} (hstill : ∀ s, after m s = s)
    (hresult : ∀ s t : GenState, s.blocks = t.blocks → result m s = result m t) : K.Like flow base m := by
  intro p q s t _ _ _ h
  rw [hstill s, hstill t]
  exact ⟨⟨h, .same rfl rfl .refl, .refl⟩, hresult s t h.blocks⟩

theorem like_currentClass : K.Like flow base currentClass := by
  apply like_look
  · intro s
    simp only [currentClass, after_bind, after_get, result_get]
    split <;> rfl
  · intro s t h
    simp only [currentClass, result_bind, after_get, result_get, h]
    split <;> rfl

theorem like_currentFunction : K.Like flow base currentFunction := by
  apply like_look
  · intro s
    simp only [currentFunction, after_bind, after_get, result_get]
    split <;> rfl
  · intro s t h
    simp only [currentFunction, result_bind, after_get, result_get, h]
    split <;> rfl

theorem like_notePath (path : Option Nat) : K.Like flow base (notePath path) := by
  cases path with
  | none => exact Like.pure ()
  | some line => exact like_noteNamespaces line

theorem like_name (path : Option Nat) (t : Token) : K.Like flow base (Gen.name path t) := by
  refine (like_notePath path).bind fun _ => ?_
  cases hslot : literalSlot? t.text with
  | some slot => exact like_loadSlot (literalSlot_le hslot)
  | none =>
      dsimp only
      split
      · exact like_loadConstant (.int _)
      · exact like_read (·.config.fileLabel) string (fun _ _ h => h.fileLabel) like_string
      · exact like_read (·.config.dirLabel) string (fun _ _ h => h.dirLabel) like_string
      · exact like_currentClass.bind like_nameOrNull
      · exact like_currentFunction.bind fun _ => like_nameOrNull _
      · exact like_currentFunction.bind fun _ => like_nameOrNull _
      · exact like_load (.string _) 1

theorem like_lookUp (access : Access) (n : Nat) : K.Like flow base (lookUp access n) := by
  induction n with
  | zero => exact Like.pure ()
  | succ n ih => exact (like_put (by decide) _ _ _).bind fun _ => ih

theorem like_loadVariable (access : Access) (line : Nat) (name : String) (extra : Nat) :
    K.Like flow base (loadVariable access line name extra) :=
  (like_setLine line).bind fun _ => (like_put (by decide) _ _ _).bind fun _ => like_lookUp access extra

theorem like_cutShort (stray : Option Nat) : K.Like flow base (cutShort stray) := by
  cases stray with
  | none => exact Like.pure ()
  | some line => exact like_report _ _

theorem like_computedVariable (access : Access) (line braceLine : Nat) (isPresent : Bool)
    (h : K.Like flow base name) (stray : Option Nat) (extra : Nat) :
    K.Like flow base (computedVariable access line braceLine isPresent name stray extra) := by
  refine (like_setLine braceLine).bind fun _ => h.bind fun _ => (like_cutShort stray).bind fun _ => ?_
  split
  · exact like_lookUp access _
  · exact like_report _ _

theorem like_blankVariable (line braceLine : Nat) : K.Like flow base (blankVariable line braceLine) :=
  (like_setLine braceLine).bind fun _ => like_report _ _

theorem like_joinPieces (count : Nat) : K.Like flow base (joinPieces count) := by
  unfold joinPieces
  split
  · exact like_put (by decide) _ _ _
  · exact Like.pure ()

theorem like_item (mark : ItemMark) (h : K.Like flow base value) : K.Like flow base (item mark value) := by
  refine h.bind fun _ => ?_
  split
  · exact like_put (by decide) _ _ _
  · exact like_cutShort _

theorem like_plainEntry (line : Nat) (h : K.Like flow base value) : K.Like flow base (plainEntry line value) :=
  (like_setLine line).bind fun _ => (like_loadSlot (by decide)).bind fun _ => h

theorem like_keyedEntry (line : Nat) (hk : K.Like flow base key) (hv : K.Like flow base value) :
    K.Like flow base (keyedEntry line key value) :=
  (like_setLine line).bind fun _ => hk.bind fun _ => hv

theorem like_unkeyedEntry (line : Nat) (h : K.Like flow base value) :
    K.Like flow base (unkeyedEntry line value) :=
  (like_setLine line).bind fun _ => (like_report _ _).bind fun _ => (like_loadSlot (by decide)).bind fun _ => h

theorem like_array (count : Nat) (h : K.Like flow base entries) (incomplete : Option Nat) :
    K.Like flow base (array count entries incomplete) := by
  refine h.bind fun _ => ?_
  split
  · exact (like_setLine _).bind fun _ => like_report _ _
  · exact like_put (by decide) _ _ _

theorem like_list (count : Nat) (h : K.Like flow base targets) : K.Like flow base (list count targets) :=
  h.bind fun _ => like_put (by decide) _ _ _

theorem like_construct (word : String) (isPresent : Bool) (h : K.Like flow base argument) :
    K.Like flow base (construct word isPresent argument) :=
  h.bind fun _ => (like_string word).bind fun _ => like_put (by decide) _ _ _

/-! ### Functions and classes -/

/-- Code of its own. -/
theorem twins_thunk (line : Nat) (isPresent : Bool) (h : ∀ base, K.Like false base value) :
    K.Twins flow base p q (thunk line isPresent value) (thunk line isPresent value) Code.Alike :=
  twins_inContainer fun base =>
    ((h base).bind fun _ => (like_setLine line).bind fun _ => like_put (by decide) _ _ _) p q

/-- The code and the static variables of a function. -/
def BodyAlike (σ : Nat → Nat → Prop) (a b : Code × List StaticVar) : Prop :=
  Code.Alike σ a.1 b.1 ∧ List.Forall₂ (StaticVar.Alike σ) a.2 b.2

theorem twins_functionBody (name : String) (className : Option String) (h : ∀ base, K.Like true base body) :
    K.Twins flow base p q (functionBody name className body) (functionBody name className body) BodyAlike := by
  refine twins_enclosed [.guarded, .function] _ (by decide) fun s t id hp hq hst hroot hempty => ?_
  refine aside_collectingStatics hst fun hst' => ?_
  exact aside_inContainer hp hq hst' (fun _ : true = true => hroot) hempty
    (((h id).bind fun _ => (like_settle (Nat.le_refl id) _).bind fun _ => like_put (by decide) _ _ _) p q)

theorem twins_catchBody (h : ∀ base, K.Like true base body) :
    K.Twins flow base p q (catchBody body) (catchBody body) Code.Alike := by
  refine twins_enclosed [.exception, .guarded] _ (by decide) fun s t id hp hq hst hroot hempty => ?_
  exact aside_inContainer hp hq hst (fun _ : true = true => hroot) hempty
    (((h id).bind fun _ => (like_settle (Nat.le_refl id) _).bind fun _ => like_put (by decide) _ _ _) p q)

/-- Argument lists. -/
def ArgumentsAlike (σ : Nat → Nat → Prop) (as bs : List Argument) : Prop := List.Forall₂ (Argument.Alike σ) as bs

variable (K) in
/-- A generator of arguments. -/
def LikeArguments (base : Nat) (params : Gen (List Argument)) : Prop :=
  ∀ p q, K.Twins false base p q params params ArgumentsAlike

theorem twins_arguments {params : Gen (List Argument)} (h : K.LikeArguments base params)
    (fault : Option Report) :
    K.Twins false base p q (arguments params fault) (arguments params fault) ArgumentsAlike := by
  refine (h p q).bind fun p' q' as bs _ _ hab => (like_reportFault fault).twins fun p'' q'' _ hp hq => ?_
  exact Twins.pure fun _ _ hp' hq' => hab.imp fun _ _ h =>
    h.mono fun i j => K.grow (hp.trans hp') (hq.trans hq')

theorem mapM_type {σ : Nat → Nat → Prop} {as bs : List Argument} (h : ArgumentsAlike σ as bs) :
    FunctionDef.signatureOf as = FunctionDef.signatureOf bs := by
  have types : as.mapM Argument.type = bs.mapM Argument.type := by
    induction h with
    | nil => rfl
    | cons hab _ ih => rw [List.mapM_cons, List.mapM_cons, hab.type, ih]
  have empty : as.isEmpty = bs.isEmpty := by
    cases h <;> rfl
  unfold FunctionDef.signatureOf
  rw [types, empty]

/-- Functions with arguments that are alike. -/
theorem declared_alike {σ : Nat → Nat → Prop} (head : FunctionHead) {as bs : List Argument}
    (h : ArgumentsAlike σ as bs) : (declared head as).Alike σ (declared head bs) := by
  refine ⟨?_, h, .empty, .nil⟩
  unfold declared
  rw [mapM_type h]

theorem twins_completed (head : FunctionHead) (className : Option String) {as bs : List Argument}
    (hab : ∀ p' q', p.Grows p' → q.Grows q' → ArgumentsAlike (K.slots p' q') as bs)
    (h : ∀ base, K.Like true base body) :
    K.Twins flow base p q
      (do
        let (code, statics) ← functionBody head.name className body
        return { declared head as with code := code, statics := statics })
      (do
        let (code, statics) ← functionBody head.name className body
        return { declared head bs with code := code, statics := statics }) FunctionDef.Alike := by
  refine (twins_functionBody head.name className h).bind fun p' q' a b hp hq hbody => ?_
  refine Twins.pure fun P Q hP hQ => ?_
  have alike := declared_alike head (hab P Q (hp.trans hP) (hq.trans hQ))
  have mono : ∀ i j, K.slots p' q' i j → K.slots P Q i j := fun i j => K.grow hP hQ
  exact {
    shell := by simpa using alike.shell
    args := alike.args
    code := hbody.1.mono mono
    statics := hbody.2.imp fun _ _ h => h.mono mono }

theorem twins_functionDef (head : FunctionHead) {as bs : List Argument}
    (hab : ∀ p' q', p.Grows p' → q.Grows q' → ArgumentsAlike (K.slots p' q') as bs)
    (h : ∀ base, K.Like true base body) :
    K.Twins flow base p q (functionDef head as body) (functionDef head bs body) FunctionDef.Alike := by
  unfold functionDef
  dsimp only
  split
  · exact like_currentClass.twins fun p' q' className hp hq =>
      twins_completed head className (fun P Q hP hQ => hab P Q (hp.trans hP) (hq.trans hQ)) h
  · exact twins_completed head none hab h

theorem like_function {params : Gen (List Argument)} (head : FunctionHead) (hp : K.LikeArguments base params)
    (fault : Option Report) (hb : ∀ base, K.Like true base body) :
    K.Like flow base (function head params fault body) := by
  intro p q
  refine (twins_arguments hp fault).value.bind fun p' q' as bs _ _ hab => ?_
  refine (twins_functionDef head (fun P Q hP hQ => hab.imp fun _ _ h => h.mono fun _ _ => K.grow hP hQ) hb).bind
    fun p'' q'' f g _ _ hfg => ?_
  refine (twins_installFunction fun P Q hP hQ => hfg.mono fun _ _ => K.grow hP hQ).bind
    fun P Q installed _ _ _ hinstalled => ?_
  cases hinstalled
  cases installed with
  | true => exact Like.pure () _ _
  | false => exact like_report _ _ _ _

theorem like_captureReports (captures : Option CaptureList) : K.Like flow base (captureReports captures) := by
  cases captures with
  | none => exact Like.pure ()
  | some list => exact (like_reportFault _).bind fun _ => like_reportFault _

theorem twins_loadFunction {f g : FunctionDef}
    (hfg : ∀ p' q', p.Grows p' → q.Grows q' → f.Alike (K.slots p' q') g) :
    K.Twins flow base p q (loadFunction f) (loadFunction g) Equal := by
  have alike := hfg p q .refl .refl
  unfold loadFunction
  rw [← alike.flags, ← alike.name, ← alike.line]
  split
  · refine (twins_addClosure hfg).bind fun p' q' id _ _ _ hid => ?_
    cases hid
    exact like_put (by decide) _ _ _ p' q'
  · refine (twins_installFunction hfg).bind fun p' q' installed _ _ _ hinstalled => ?_
    cases hinstalled
    cases installed with
    | true => exact like_loadConstant (.own _) p' q'
    | false => exact like_report _ _ p' q'

theorem like_closure {params : Gen (List Argument)} (line : Nat) (returns : TypeSpec)
    (hp : K.LikeArguments base params) (fault : Option Report) (captures : Option CaptureList)
    (hb : ∀ base, K.Like true base body) :
    K.Like flow base (closure line returns params fault captures body) := by
  intro p q
  refine like_nextClosureName.twins fun p₁ q₁ name _ _ => ?_
  refine (twins_arguments hp fault).value.bind fun p₂ q₂ as bs _ _ hab => ?_
  refine (like_captureReports captures).twins fun p₃ q₃ _ hp₃ hq₃ => ?_
  refine (twins_functionDef _ (fun P Q hP hQ => hab.imp fun _ _ h =>
    h.mono fun _ _ => K.grow (hp₃.trans hP) (hq₃.trans hQ)) hb).bind fun p₄ q₄ f g _ _ hfg => ?_
  refine twins_loadFunction fun P Q hP hQ => ?_
  have alike := hfg.mono (τ := K.slots P Q) fun _ _ => K.grow hP hQ
  exact { alike with shell := by rw [alike.name, alike.returns, alike.line, alike.flags, alike.signature] }

variable (K) in
/-- A generator that adds members to a class. -/
def LikeMembers (base : Nat) (members : ClassDef → Gen ClassDef) : Prop :=
  ∀ p q c d, (∀ p' q', p.Grows p' → q.Grows q' → ClassDef.Alike (K.slots p' q') c d) →
    K.Twins false base p q (members c) (members d) ClassDef.Alike

theorem alike_addAttribute {σ : Nat → Nat → Prop} (head : MemberHead) (type : Option TypeSpec)
    {init init' : Option Code} (hinit : Option.Rel (Code.Alike σ) init init') {c d : ClassDef} (h : c.Alike σ d) :
    (addAttribute head type init c).Alike σ (addAttribute head type init' d) where
  shell := h.shell
  attributes := forall₂_snoc h.attributes ⟨rfl, hinit⟩
  methods := h.methods

theorem alike_addMethod {σ : Nat → Nat → Prop} (head : MemberHead) {f g : FunctionDef} (hfg : f.Alike σ g)
    {c d : ClassDef} (h : c.Alike σ d) : (addMethod head f c).Alike σ (addMethod head g d) where
  shell := h.shell
  attributes := h.attributes
  methods := forall₂_snoc h.methods ⟨rfl, rfl, hfg⟩

theorem twins_memberValue (head : MemberHead) (problem : Problem) (line : Nat) (isPresent : Bool)
    (h : ∀ base, K.Like false base value) :
    K.Twins flow base p q (memberValue head problem line isPresent value)
      (memberValue head problem line isPresent value) Code.Alike := by
  refine (twins_thunk line isPresent h).bind fun p' q' a b _ _ hab => ?_
  have done : ∀ p'' q'', p'.Grows p'' → q'.Grows q'' →
      K.Twins flow base p'' q'' (Pure.pure a) (Pure.pure b) Code.Alike := fun _ _ hp hq =>
    Twins.pure fun _ _ hP hQ => hab.mono fun _ _ => K.grow (hp.trans hP) (hq.trans hQ)
  cases isPresent with
  | true => exact done _ _ .refl .refl
  | false => exact (like_report _ _).twins fun _ _ _ hp hq => done _ _ hp hq

theorem like_link (head : ClassHead) : K.Like flow base (link head) := by
  unfold link
  split
  · refine (like_addLink _).bind fun _ => (like_setLine _).bind fun _ => like_put ?_ _ _ _
    split <;> decide
  · exact Like.pure ()

theorem twins_completeClass (head : ClassHead) {c d : ClassDef}
    (hcd : ∀ p' q', p.Grows p' → q.Grows q' → c.Alike (K.slots p' q') d) :
    K.Twins flow base p q (completeClass head c) (completeClass head d) Equal := by
  refine (twins_installClass hcd).bind fun P Q installed _ _ _ hinstalled => ?_
  cases hinstalled
  cases installed with
  | true => exact like_link head P Q
  | false => exact like_report _ _ P Q

theorem twins_finishClass (head : ClassHead) (fault : Option ErrorReport) {c d : ClassDef}
    (hcd : ClassDef.Alike (K.slots p q) c d) :
    K.Twins flow base p q
      (match fault with
        | some error => report error.line error.problem
        | none => completeClass head c)
      (match fault with
        | some error => report error.line error.problem
        | none => completeClass head d) Equal := by
  cases fault with
  | some error => exact like_report _ _ p q
  | none => exact twins_completeClass head fun P Q hP hQ => hcd.mono fun _ _ => K.grow hP hQ

theorem like_class_ (head : ClassHead) {members : ClassDef → Gen ClassDef} (hm : K.LikeMembers base members)
    (fault : Option ErrorReport) : K.Like flow base (class_ head members fault) := by
  intro p q
  have made : ∀ p' q', K.Twins flow base p' q'
      (members { name := head.name, flags := head.flags, line := head.line })
      (members { name := head.name, flags := head.flags, line := head.line }) ClassDef.Alike :=
    fun p' q' => (hm p' q' _ _ fun _ _ _ _ => ⟨rfl, .nil, .nil⟩).value
  unfold class_
  dsimp only
  split
  · exact (made p q).bind fun p' q' c d _ _ hcd => twins_finishClass head fault hcd
  · refine like_here.twins fun p' q' first _ _ => ?_
    exact (twins_owned _ first _ fun _ _ => made p' q').bind fun p'' q'' c d _ _ hcd => twins_finishClass head fault hcd

end Kinship

end StackScript
