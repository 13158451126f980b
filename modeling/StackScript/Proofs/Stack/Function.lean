/-
Functions, classes and declarations leave the stack as it is.

A body fills a container of its own, inside a block that no jump leaves, so its container is disciplined and
the code around it is not touched.  Of all declarations only an anonymous function leaves a value: itself.
-/
import StackScript.Proofs.Stack.Statement

namespace StackScript

namespace Gen

variable {F : List SwitchTable} {α : Type} {n : Nat} {body value : Gen Unit}

/-! ### Bodies -/

theorem goes_collectingStatics {m : Gen α} (h : Goes m) : Goes (collectingStatics m) := by
  intro s
  have inner := h { s with statics := [] :: s.statics }
  exact ⟨⟨inner.1.reports, inner.1.grows, inner.1.shapes, inner.1.exceptions⟩, inner.2.congr rfl rfl rfl rfl rfl List.prefix_rfl⟩

/-- What a body leads to: its jumps are settled, and its container is complete. -/
theorem disciplined_body {s : GenState} {id : Nat} {b : Block} {op : Option Opcode} (hs : s.Orderly F)
    (hb : s.blocks.Innermost id b) (hop : IsBody b op) (h : ∀ n, Carries F n 0 0 body)
    (he : (after body (after openContainer s)).errors = 0) (ha : Agrees F s (after body (after openContainer s))) :
    let t := after (put .done 0 0 .none) (after (settle id op) (after body (after openContainer s)))
    t.container.IsDisciplined F ∧ t.Orderly F := by
  have hpos : 0 < s.blocks.blocks.size := by
    rw [hb.size]
    exact Nat.succ_pos id
  have hsize := ((h (id + 1)).goes (after openContainer s)).1.size hpos
  obtain ⟨depth, -, poised⟩ := (h (id + 1)).carried (s := after openContainer s) hpos hb.size
    (Poised.opened hs hb hop) he ha
  have settled := poised.settle (hsize.trans hb.size) op
  have done := settled.put .done 0 0 .none rfl (by decide) (Nat.le_refl 0) rfl
  exact ⟨done.disciplined, done.orderly⟩

/-- A body made on the side leaves everything around it as it is. -/
theorem raised_body {s t u : GenState} (hst : Raised F n s t) (hc : u.code = t.code) (hb : u.blocks = t.blocks)
    (hbound : u.boundaries = t.boundaries) (ho : t.Orderly F → u.Orderly F) : Raised F n s u where
  root := hst.root
  lifts := by
    rw [hc]
    exact hst.lifts
  blocks := hb.trans hst.blocks
  boundaries := hbound.trans hst.boundaries
  orderly := ho ∘ hst.orderly

/-- The container of a body goes to the others. -/
theorem orderly_filled {s t : GenState} {r : Filled} (h : r.IsDisciplined F ∧ s.Orderly F)
    (hf : t.filled = s.filled ++ [r]) : t.Orderly F := by
  intro r' hr
  rw [hf] at hr
  rcases List.mem_append.mp hr with hr | hr
  · exact h.2 r' hr
  · rw [List.mem_singleton.mp hr]
    exact h.1

theorem goes_body (h : Goes body) (id : Nat) (op : Option Opcode) : Goes (do
    body
    settle id op
    put .done 0 0 .none) :=
  h.bind fun _ => (goes_settle id op).bind fun _ => goes_put _ _ _ _

theorem turns_functionBody (name : String) (className : Option String) (hb : Flows body)
    (h : ∀ n, Carries F n 0 0 body) : Turns F n n (functionBody name className body) where
  goes := goes_owned fun id => goes_collectingStatics (goes_inContainer (goes_body hb.goes id _))
  turned := by
    intro s t hst he ha
    refine raised_body hst rfl ((makes_functionBody name className hb t).spares hst.base).blocks rfl fun ho => ?_
    have hin := innermost_enter [.guarded, .function] 0 (.function name className) none t
    exact orderly_filled (disciplined_body (s := { after (enter [.guarded, .function] 0
      (.function name className) none) t with statics := [] :: t.statics }) ho hin
      ⟨rfl, rfl, rfl, .inl ⟨rfl, rfl⟩⟩ h he ha) rfl

theorem turns_catchBody (hb : Flows body) (h : ∀ n, Carries F n 0 0 body) : Turns F n n (catchBody body) where
  goes := goes_owned fun id => goes_inContainer (goes_body hb.goes id _)
  turned := by
    intro s t hst he ha
    refine raised_body hst rfl ((makes_catchBody hb t).spares hst.base).blocks rfl fun ho => ?_
    have hin := innermost_enter [.exception, .guarded] 0 .none none t
    exact orderly_filled (disciplined_body (s := after (enter [.exception, .guarded] 0 .none none) t) ho hin
      ⟨rfl, rfl, rfl, .inr ⟨rfl, rfl⟩⟩ h he ha) rfl

/-- A step that only changes tables. -/
theorem turns_tables {m : Gen α}
    (hm : ∀ s, after m s = { s with
      program := (after m s).program, statics := (after m s).statics, closures := (after m s).closures })
    (hw : ∀ s, (after m s).program.switches = s.program.switches)
    (hx : ∀ s, s.program.exceptions.length ≤ (after m s).program.exceptions.length) : Turns F n n m where
  goes := by
    intro s
    have reports : (after m s).reports = s.reports := by rw [hm]
    have code : (after m s).code = s.code := by rw [hm]
    have blocks : (after m s).blocks = s.blocks := by rw [hm]
    exact ⟨⟨by simp [reports], Nat.le_of_eq (by rw [code]), fun _ => by rw [blocks], hx s⟩,
      .same (hw s) (by rw [hm]) (by rw [hm])⟩
  turned := fun h _ _ => h.congr (by rw [hm]) (by rw [hm]) (by rw [hm]) (by rw [hm])

/-! ### Functions -/

theorem turns_arguments {params : Gen (List Argument)} (h : Turns F n n params) (fault : Option Report) :
    Turns F n n (arguments params fault) :=
  h.bind fun _ => (turns_reportFault fault).bind fun _ => .pure _

theorem turns_completed (head : FunctionHead) (args : List Argument) (className : Option String) (hb : Flows body)
    (h : ∀ n, Carries F n 0 0 body) : Turns F n n (do
      let (code, statics) ← functionBody head.name className body
      return { declared head args with code := code, statics := statics }) :=
  (turns_functionBody head.name className hb h).bind fun _ => .pure _

theorem turns_functionDef (head : FunctionHead) (args : List Argument) (hb : Flows body)
    (h : ∀ n, Carries F n 0 0 body) : Turns F n n (functionDef head args body) := by
  unfold functionDef
  dsimp only
  split
  · exact turns_currentClass.bind fun className => turns_completed head args className hb h
  · exact turns_completed head args none hb h

theorem turns_installFunction (f : FunctionDef) : Turns F n n (installFunction f) where
  goes := by
    intro s
    unfold installFunction
    rw [after_modifyGet]
    cases hq : s.program.installFunction? f with
    | none => exact ⟨.same rfl (Nat.le_refl _) rfl rfl, .same rfl rfl rfl⟩
    | some q =>
        have files := Program.files_function hq
        exact ⟨⟨List.prefix_rfl, Nat.le_refl _, fun _ => rfl, Nat.le_of_eq files.exceptions.symm⟩,
          .same files.switches rfl rfl⟩
  turned := by
    intro s t hst _ _
    unfold installFunction
    rw [after_modifyGet]
    cases t.program.installFunction? f <;> exact hst.congr rfl rfl rfl rfl

theorem turns_function {params : Gen (List Argument)} (head : FunctionHead) (hp : Turns F n n params)
    (fault : Option Report) (hb : Flows body) (h : ∀ n, Carries F n 0 0 body) :
    Turns F n n (function head params fault body) := by
  refine (turns_arguments hp fault).bind fun args => (turns_functionDef head args hb h).bind fun f =>
    (turns_installFunction f).bind fun installed => ?_
  cases installed with
  | true => exact .pure ()
  | false => exact turns_report _ _

theorem turns_captureReports (captures : Option CaptureList) : Turns F n n (captureReports captures) := by
  cases captures with
  | none => exact .pure ()
  | some list => exact (turns_reportFault _).bind fun _ => turns_reportFault _

theorem turns_loadFunction (f : FunctionDef) : Turns F n (n + 1) (loadFunction f) := by
  have close : Turns F n n (addClosure f) :=
    turns_tables (fun _ => rfl) (fun _ => rfl) fun _ => Nat.le_refl _
  unfold loadFunction
  split
  · exact close.bind fun id => turns_put rfl 0 0 (.closure id) (Nat.zero_le _) rfl
  · refine (turns_installFunction f).bind fun installed => ?_
    cases installed with
    | true => exact turns_loadConstant _
    | false => exact turns_error _ rfl

theorem turns_nextClosureName : Turns F n n nextClosureName :=
  turns_tables (fun _ => rfl) (fun _ => rfl) fun _ => Nat.le_refl _

theorem turns_closure {params : Gen (List Argument)} (line : Nat) (returns : TypeSpec) (hp : Turns F n n params)
    (fault : Option Report) (captures : Option CaptureList) (hb : Flows body) (h : ∀ n, Carries F n 0 0 body) :
    Turns F n (n + 1) (closure line returns params fault captures body) :=
  turns_nextClosureName.bind fun _ => (turns_arguments hp fault).bind fun args =>
    (turns_captureReports captures).bind fun _ => (turns_functionDef _ args hb h).bind fun _ => turns_loadFunction _

/-! ### Declarations -/

theorem turns_defineConstant (name : String) (code : Code) : Turns F n n (defineConstant name code) :=
  turns_tables (fun _ => rfl) (fun _ => rfl) fun _ => Nat.le_refl _

theorem turns_constant (name : String) (line : Nat) (isPresent : Bool) (h : Turns F 0 (flag isPresent) value) :
    Turns F n n (constant name line isPresent value) :=
  (turns_thunk line isPresent h).bind fun code => turns_defineConstant name code

theorem turns_declare (line : Nat) (type : TypeSpec) (name : String) : Turns F n n (declare line type name) :=
  (turns_setLine line).bind fun _ => turns_put rfl _ _ _ (Nat.zero_le _) rfl

/-- A first value is stored and dropped; without one there is an error. -/
theorem turns_assigned (line : Nat) (type : TypeSpec) (name : String) (isPresent : Bool)
    (h : Turns F 0 (flag isPresent) value) : Turns F 0 0 (assigned line type name isPresent value) := by
  refine (turns_declare line type name).bind fun _ => h.bind fun _ => ?_
  cases isPresent with
  | true => exact turns_drop
  | false => exact turns_report _ _

theorem turns_static (line : Nat) (type : TypeSpec) (name : String) (init : Code) :
    Turns F n n (static line type name init) := by
  have add : Turns F n n (addStatic ⟨name, type, init⟩) := by
    constructor
    · intro s
      unfold addStatic
      rw [after_modifyGet]
      split <;> exact ⟨.same rfl (Nat.le_refl _) rfl rfl, .same rfl rfl rfl⟩
    · intro s t hst _ _
      unfold addStatic
      rw [after_modifyGet]
      split <;> exact hst.congr rfl rfl rfl rfl
  refine add.bind fun added => ?_
  cases added with
  | true => exact .pure ()
  | false => exact turns_report _ _

theorem turns_staticValue (line : Nat) (type : TypeSpec) (name : String) (valueLine : Nat) (isPresent : Bool)
    (h : Turns F 0 (flag isPresent) value) :
    Turns F n n (staticValue line type name valueLine isPresent value) := by
  refine (turns_thunk valueLine isPresent h).bind fun init => ?_
  cases isPresent with
  | true => exact turns_static line type name init
  | false => exact (turns_report _ _).bind fun _ => turns_static line type name init

/-! ### Classes -/

theorem turns_memberValue (head : MemberHead) (problem : Problem) (line : Nat) (isPresent : Bool)
    (h : Turns F 0 (flag isPresent) value) : Turns F n n (memberValue head problem line isPresent value) := by
  refine (turns_thunk line isPresent h).bind fun code => ?_
  cases isPresent with
  | true => exact .pure code
  | false => exact (turns_report _ _).bind fun _ => .pure code

theorem turns_link (head : ClassHead) : Turns F n n (link head) := by
  have add : Turns F n n (addLink ⟨head.name, head.bases, head.interfaces, head.line⟩) :=
    turns_tables (fun _ => rfl) (fun _ => rfl) fun _ => Nat.le_refl _
  refine .ite (fun _ => ?_) fun _ => .pure ()
  refine add.bind fun id => (turns_setLine head.line).bind fun _ => ?_
  split
  · exact turns_put rfl _ _ _ (Nat.zero_le _) rfl
  · exact turns_put rfl _ _ _ (Nat.zero_le _) rfl

theorem turns_completeClass (head : ClassHead) (c : ClassDef) : Turns F n n (completeClass head c) := by
  have install : Turns F n n (installClass c) := by
    constructor
    · intro s
      unfold installClass
      rw [after_modifyGet]
      cases hq : s.program.installClass? c with
      | none => exact ⟨.same rfl (Nat.le_refl _) rfl rfl, .same rfl rfl rfl⟩
      | some q =>
          unfold Program.installClass? at hq
          split at hq
          · cases hq
          · cases hq
            exact ⟨.same rfl (Nat.le_refl _) rfl rfl, .same rfl rfl rfl⟩
    · intro s t hst _ _
      unfold installClass
      rw [after_modifyGet]
      cases t.program.installClass? c <;> exact hst.congr rfl rfl rfl rfl
  refine install.bind fun installed => ?_
  cases installed with
  | true => exact turns_link head
  | false => exact turns_report _ _

/-- Inside a block that only says whose code it is. -/
theorem turns_owned {tags : List BlockTag} {first : Nat} {owner : BlockOwner} {body : Nat → Gen α}
    (h : ∀ id, Turns F 0 0 (body id)) : Turns F n n (owned tags first owner body) where
  goes := goes_owned fun id => (h id).goes
  turned := by
    intro s t hst he ha
    have hpos := hst.base
    have inner := (h t.blocks.blocks.size).raised (s := after (enter tags first owner none) t)
      (by rw [size_enter]; omega) he ha
    refine ⟨hst.root, hst.lifts.trans inner.lifts, ?_, inner.boundaries.trans hst.boundaries,
      inner.orderly ∘ hst.orderly⟩
    rw [← hst.blocks]
    show (after (body t.blocks.blocks.size) (after (enter tags first owner none) t)).blocks.leave = t.blocks
    rw [inner.blocks, after_enter]
    unfold BlockStack.leave
    rw [if_neg (by rw [Array.size_push]; omega), Array.pop_push]

theorem turns_class_ (head : ClassHead) {members : ClassDef → Gen ClassDef} (hm : ∀ n c, Turns F n n (members c))
    (fault : Option ErrorReport) : Turns F n n (class_ head members fault) := by
  have inside : ∀ c, Turns F n n (do owned [.class_] (← here) (.class_ head.name) fun _ => members c) :=
    fun c => Turns.get.bind fun _ => turns_owned fun _ => hm 0 c
  unfold class_
  dsimp only
  cases fault with
  | none =>
      split
      · exact (hm n _).bind fun c => turns_completeClass head c
      · exact (inside _).bind fun c => turns_completeClass head c
  | some error =>
      split
      · exact (hm n _).bind fun _ => turns_report _ _
      · exact (inside _).bind fun _ => turns_report _ _

end Gen

end StackScript
