/-
Functions, classes and code made on the side are runs.

A generator `Makes` code when it is a `value` run from every state and its result brings the code it makes
along.  The declarations below file that code: a function, method, closure or class that could not be
installed is an error.
-/
import StackScript.Proofs.Run.Leaf

namespace StackScript

namespace Gen

variable {α : Type}

/-- A generator of statements. -/
def Flows (m : Gen α) : Prop := ∀ s, Run .flow s (after m s)

/-- A generator whose result brings along the code it makes. -/
def Makes (m : Gen α) (made : α → List Made) : Prop :=
  ∀ s, Run (.value (made (result m s))) s (after m s)

/-- A generator that adds members to a class. -/
def AddsMembers (m : ClassDef → Gen ClassDef) : Prop :=
  ∀ c s, ∃ made, Run (.value made) s (after (m c) s) ∧ Stock.Takes made c.stock (result (m c) s).stock

/-! ### Thunks and bodies -/

variable {body value : Gen Unit}

theorem makes_thunk (line : Nat) (isPresent : Bool) (h : Valued value) :
    Makes (thunk line isPresent value) fun code => [.thunk code] := by
  intro s
  have inner := (h (after openContainer s)).andThen (valued_setLine line _)
  exact inner.thunk (flag isPresent)

theorem makes_functionBody (name : String) (className : Option String) (h : Flows body) :
    Makes (functionBody name className body) fun r => [Made.body r.1] ++ r.2.map fun v => Made.thunk v.init := by
  intro s
  have hb := innermost_enter [.guarded, .function] 0 (.function name className) none s
  exact Run.owned _ _ _ (Run.statics (Run.body hb ⟨rfl, rfl, rfl, .inl ⟨rfl, rfl⟩⟩ (h _)))

theorem makes_catchBody (h : Flows body) : Makes (catchBody body) fun code => [.body code] := by
  intro s
  have hb := innermost_enter [.exception, .guarded] 0 .none none s
  exact Run.owned _ _ _ (Run.body hb ⟨rfl, rfl, rfl, .inr ⟨rfl, rfl⟩⟩ (h _))

/-! ### Functions -/

theorem makes_arguments {params : Gen (List Argument)} (h : Makes params Argument.made)
    (fault : Option Report) : Makes (arguments params fault) Argument.made := by
  intro s
  exact (h s).andThen (valued_reportFault fault _)

/-- Looking for the class around the code changes nothing. -/
theorem after_currentClass (s : GenState) : after currentClass s = s := by
  unfold currentClass
  rw [after_bind]
  split <;> rfl

/-- Behind its arguments, a function brings along its body and its static variables. -/
theorem run_functionDef {s t : GenState} (head : FunctionHead) (args : List Argument) (hb : Flows body)
    (h : Run (.value (Argument.made args)) s t) :
    Run (.value (result (functionDef head args body) t).made) s (after (functionDef head args body) t) := by
  unfold functionDef
  dsimp only
  split
  · rw [result_bind, after_bind, after_currentClass]
    exact h.trans (makes_functionBody head.name _ hb t)
  · exact h.trans (makes_functionBody head.name none hb t)

/-- A function that was made is installed, or that it cannot be is an error. -/
theorem run_installFunction {s t : GenState} {f : FunctionDef} (h : Run (.value f.made) s t) :
    result (installFunction f) t = true ∧ Run (.value []) s (after (installFunction f) t) ∨
      result (installFunction f) t = false ∧ after (installFunction f) t = t := by
  unfold installFunction
  rw [result_modifyGet, after_modifyGet]
  cases hq : t.program.installFunction? f with
  | none => exact .inr ⟨rfl, rfl⟩
  | some q => exact .inl ⟨rfl, h.file (Program.files_function hq)⟩

theorem valued_function {params : Gen (List Argument)} (head : FunctionHead)
    (hp : Makes params Argument.made) (fault : Option Report) (hb : Flows body) :
    Valued (function head params fault body) := by
  intro s
  unfold function
  rw [after_bind, after_bind, after_bind]
  have made := run_functionDef head _ hb (makes_arguments hp fault s)
  rcases run_installFunction made with ⟨hr, h⟩ | ⟨hr, h⟩
  · rw [hr]
    exact h
  · rw [hr, h]
    exact made.lost _ rfl

theorem valued_captureReports (captures : Option CaptureList) : Valued (captureReports captures) := by
  cases captures with
  | none => exact Valued.pure ()
  | some list => exact (valued_reportFault _).bind fun _ => valued_reportFault _

/-- Loading a function that was made. -/
theorem run_loadFunction {s t : GenState} {f : FunctionDef} (h : Run (.value f.made) s t) :
    Run (.value []) s (after (loadFunction f) t) ∧ Grown s (after (loadFunction f) t) := by
  unfold loadFunction
  split
  · have filed : Run (.value []) s (after (addClosure f) t) := h.file (Program.files_closure f)
    rw [after_bind]
    have hclosure : (Operand.closure (result (addClosure f) t)).Exists (after (addClosure f) t).program := by
      show t.program.closures.length < (t.program.closures ++ [f]).length
      rw [List.length_append]
      exact Nat.lt_succ_self _
    have load := Run.put (after (addClosure f) t) (show Opcode.isPlain .loadClosure = true from rfl) 0 0
      (.closure (result (addClosure f) t)) (fun h => absurd h (by decide)) hclosure
    exact ⟨filed.andThen load, Grown.behind filed.frame (.inl (by rw [after_put]; simp))⟩
  · rw [after_bind]
    rcases run_installFunction h with ⟨hr, filed⟩ | ⟨hr, ht⟩
    · rw [hr]
      have load := emits_loadConstant (fun _ => ConstantPool.Grows.refl.own f.name) (fun p => p.push_lt _ _)
        (after (installFunction f) t)
      exact ⟨filed.andThen load.1, load.2.behind filed.frame⟩
    · rw [hr, ht]
      exact ⟨h.lost _ rfl, (Grown.report _ rfl).behind h.frame⟩

theorem emits_closure {params : Gen (List Argument)} (line : Nat) (returns : TypeSpec)
    (hp : Makes params Argument.made) (fault : Option Report) (captures : Option CaptureList)
    (hb : Flows body) : Emits (closure line returns params fault captures body) := by
  have hname : Valued nextClosureName :=
    valued_of_quiet fun _ =>
      ⟨rfl, rfl, rfl, rfl, rfl, rfl, List.prefix_rfl, .refl, rfl, List.prefix_rfl, List.prefix_rfl, List.prefix_rfl⟩
  refine Emits.behind hname fun name s => ?_
  rw [after_bind, after_bind, after_bind]
  have args := (makes_arguments hp fault s).andThen (valued_captureReports captures _)
  exact run_loadFunction (run_functionDef _ _ hb args)

/-! ### Classes -/

theorem makes_memberValue (head : MemberHead) (problem : Problem) (line : Nat) (isPresent : Bool)
    (h : Valued value) :
    Makes (memberValue head problem line isPresent value) fun code => [.thunk code] := by
  intro s
  have made := makes_thunk line isPresent h s
  cases isPresent with
  | true => exact made
  | false => exact made.andThen (valued_report head.line problem _)

theorem valued_link (head : ClassHead) : Valued (link head) := by
  unfold link
  refine Valued.ite (fun _ s => ?_) fun _ => Valued.pure ()
  have add : Quiet s (after (addLink ⟨head.name, head.bases, head.interfaces, head.line⟩) s) :=
    ⟨rfl, rfl, rfl, rfl, rfl, rfl, List.prefix_rfl, .refl, rfl, List.prefix_rfl, List.prefix_append _ _,
     List.prefix_rfl⟩
  rw [after_bind, after_bind]
  refine ((Run.quiet add).andThen (valued_setLine _ _)).andThen (Run.put _ ?_ _ _ _ (fun h => ?_) ?_)
  · split <;> rfl
  · split at h <;> cases h
  · show s.program.classLinks.length < (s.program.classLinks ++ [_]).length
    rw [List.length_append]
    exact Nat.lt_succ_self _

/-- A class that was made is installed, or that it cannot be is an error. -/
theorem run_completeClass {made : List Made} {s t : GenState} (head : ClassHead) {c : ClassDef}
    (h : Run (.value made) s t) (hc : Stock.Takes made ⟨[], []⟩ c.stock) :
    Run (.value []) s (after (completeClass head c) t) := by
  unfold completeClass
  rw [after_bind]
  unfold installClass
  rw [result_modifyGet, after_modifyGet]
  cases hq : t.program.installClass? c with
  | none =>
      refine h.lost _ ?_
      split <;> rfl
  | some q => exact (h.file (Program.files_class hc hq)).andThen (valued_link head _)

/-- A class is linked when its members could be read, and lost otherwise. -/
theorem run_finishClass (head : ClassHead) (fault : Option ErrorReport) {c : ClassDef} {made : List Made}
    {s t : GenState} (h : Run (.value made) s t) (hc : Stock.Takes made ⟨[], []⟩ c.stock) :
    Run (.value []) s (after (match fault with
      | some error => report error.line error.problem
      | none => completeClass head c) t) := by
  cases fault with
  | none => exact run_completeClass head h hc
  | some error => exact h.lost _ error.isError

theorem valued_class_ (head : ClassHead) {members : ClassDef → Gen ClassDef} (hm : AddsMembers members)
    (fault : Option ErrorReport) : Valued (class_ head members fault) := by
  intro s
  unfold class_
  dsimp only
  split
  · obtain ⟨made, h, hc⟩ := hm { name := head.name, flags := head.flags, line := head.line } s
    rw [after_bind]
    exact run_finishClass head fault h hc
  · obtain ⟨made, h, hc⟩ := hm { name := head.name, flags := head.flags, line := head.line }
      (after (enter [.class_] s.code.size (.class_ head.name) none) s)
    rw [after_bind, result_here, after_here, after_bind]
    exact run_finishClass head fault (Run.owned _ _ _ h) hc

end Gen

end StackScript
