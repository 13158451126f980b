/-
Sources that hold declarations only.

A source that is read for its declarations runs nothing: whatever its tokens are, what is read from them is a list of
declarations, in namespaces nested as deep as may be, and of reports about the tokens between them.  A declaration
leaves the container around it as it is, but for the instruction that hands a class which is built on something to the
machine, and so the main container holds nothing but such instructions in front of its end.
-/
import StackScript.Proofs.ClassDeclarations
import StackScript.Proofs.Evaluation
import StackScript.Proofs.Run.Compilation
import StackScript.Proofs.Yields

namespace StackScript

open Gen

/-- The instruction hands what a class or an interface is built on to the machine. -/
def Instruction.Installs (x : Instruction) : Prop :=
  (x.op = .classInit ∨ x.op = .interfaceInit) ∧ ∃ link, x.p3 = .classLink link

/-- The code grows by installations. -/
def Code.Installed (a b : Code) : Prop := ∃ xs : List Instruction, b.toList = a.toList ++ xs ∧ ∀ x ∈ xs, x.Installs

namespace Code.Installed

variable {a b c : Code}

theorem refl (a : Code) : Installed a a := ⟨[], (List.append_nil _).symm, List.forall_mem_nil _⟩

theorem trans (h : Installed a b) (h' : Installed b c) : Installed a c := by
  obtain ⟨xs, hb, hxs⟩ := h
  obtain ⟨ys, hc, hys⟩ := h'
  refine ⟨xs ++ ys, by rw [hc, hb, List.append_assoc], fun x hx => ?_⟩
  rcases List.mem_append.mp hx with hx | hx
  · exact hxs x hx
  · exact hys x hx

theorem push {x : Instruction} (a : Code) (hx : x.Installs) : Installed a (a.push x) :=
  ⟨[x], Array.toList_push, fun y hy => by rwa [List.mem_singleton.mp hy]⟩

/-- Filling in a target makes no installation something else. -/
theorem patch (h : Installed #[] a) (i target : Nat) : Installed #[] (a.patch i target) := by
  obtain ⟨xs, ha, hxs⟩ := h
  refine ⟨(a.patch i target).toList, rfl, fun x hx => ?_⟩
  obtain ⟨k, hk⟩ := List.mem_iff_getElem?.mp hx
  rw [Array.getElem?_toList, Code.patch, Array.getElem?_modify] at hk
  have kept (y : Instruction) (hy : a[k]? = some y) : y.Installs := by
    refine hxs y ?_
    have hmem : y ∈ a.toList := List.mem_of_getElem? (by rwa [Array.getElem?_toList])
    rwa [ha] at hmem
  split at hk
  · obtain ⟨y, hy, rfl⟩ := Option.map_eq_some_iff.mp hk
    exact kept y hy
  · exact kept x hk

theorem settle (h : Installed #[] a) (bs : BlockStack) (id : Nat) (op : Option Opcode) (target : Nat) :
    Installed #[] (bs.settle id op target a).2.2 := by
  have all (js : List PendingJump) : ∀ {a : Code}, Installed #[] a →
      Installed #[] (js.foldl (fun code j => code.patch j.index target) a) := by
    induction js with
    | nil => exact fun h => h
    | cons j js ih => exact fun h => ih (h.patch j.index target)
  exact all _ h

end Code.Installed

/-! ### Declarations -/

/-- A generator of declarations: all it adds to the container being filled are installations. -/
def Gen.Declares {α : Type} (m : Gen α) : Prop := ∀ s, Code.Installed s.code (after m s).code

namespace Gen.Declares

variable {α β : Type}

theorem bind {m : Gen α} {f : α → Gen β} (hm : Declares m) (hf : ∀ a, Declares (f a)) : Declares (m >>= f) :=
  fun s => (hm s).trans (hf _ _)

theorem of {m : Gen α} (h : KeepsCode m) : Declares m := by
  intro s
  rw [h s]
  exact .refl _

theorem report (line : Nat) (problem : Problem) : Declares (report line problem) := of (.report line problem)

theorem noteNamespaces (line : Nat) : Declares (noteNamespaces line) := by
  intro s
  unfold Gen.noteNamespaces
  rw [after_bind]
  split
  · exact .refl _
  · exact .refl _

theorem installFunction (f : FunctionDef) : KeepsCode (installFunction f) := by
  intro s
  unfold Gen.installFunction
  rw [after_modifyGet]
  split <;> rfl

/-- The body of a function is code of its own. -/
theorem function (head : FunctionHead) (params : List Parameter) (fault : Option Report) (body : Stmt) :
    Declares (Stmt.function head params fault body).gen :=
  of ((KeepsCode.arguments (Parameter.keepsCode_genAll params) fault).bind fun args =>
    (KeepsCode.functionDef head args body.gen).bind fun f => (installFunction f).bind fun installed => by
      cases installed with
      | true => exact .pure ()
      | false => exact .report _ _)

/-- Of a class, nothing but its installation is seen outside. -/
theorem class_ (head : ClassHead) (members : List Member) (fault : Option ErrorReport) :
    Declares (Stmt.class_ head members fault).gen := by
  intro s
  rcases Stmt.class_outcome head members fault s with declared | dropped
  · by_cases built : head.bases ≠ [] ∨ head.interfaces ≠ []
    · rw [(declared.linked built).2]
      refine .push _ ⟨?_, _, rfl⟩
      dsimp only
      split
      · exact .inr rfl
      · exact .inl rfl
    · obtain ⟨hbases, hinterfaces⟩ : head.bases = [] ∧ head.interfaces = [] := by simpa using built
      rw [(declared.unlinked hbases hinterfaces).2]
      exact .refl _
  · rw [dropped.code]
    exact .refl _

theorem genAll {items : List Stmt} (h : ∀ i ∈ items, Declares i.gen) : Declares (Stmt.genAll items) := by
  induction items with
  | nil => exact of (.pure ())
  | cons i is ih =>
      exact (h i List.mem_cons_self).bind fun _ => ih fun j hj => h j (List.mem_cons_of_mem i hj)

end Gen.Declares

/-! ### What a scope holds -/

namespace Parse

variable {r : Readers}

/-- The statement that is read is a declaration. -/
abbrev YieldsDeclaration (p : Parse Stmt) : Prop := p.Yields fun item => Declares item.gen

theorem yields_report (line : Nat) (problem : Problem) : YieldsDeclaration (pure (.report ⟨line, problem⟩)) := by
  refine .pure ?_
  exact .report line problem

theorem yields_dropped (line : Nat) (problem : Problem) : YieldsDeclaration (dropped line problem) :=
  .behind fun _ => yields_report line problem

theorem yields_recovered (line : Nat) (problem : Problem) : YieldsDeclaration (recovered line problem) :=
  .behind fun _ => yields_report line problem

theorem yields_class (kind : ClassKind) (r : Readers) : YieldsDeclaration (kind.read r) := by
  intro s
  rcases kind.read_outcome r s with ⟨problem, hitem, -⟩ | ⟨head, -, -, members, fault, -, -, -, -, hitem⟩
  · rw [hitem]
    exact yields_report s.line problem s
  · rw [hitem]
    exact .class_ head members fault

theorem yields_function (r : Readers) : YieldsDeclaration (functionDeclaration r) := by
  unfold functionDeclaration
  refine .behind fun here => .behind fun returns => .behind fun _ => .behind fun byRef => .behind fun next => ?_
  split
  · exact .behind fun _ => .behind fun _ => yields_report _ _
  · refine .behind fun _ => .behind fun opened => .ite ?_ (.behind fun _ => yields_report _ _)
    refine .behind fun parenLine => .behind fun params => ?_
    split
    · exact .behind fun _ => yields_report _ _
    · exact .behind fun body => .pure (.function _ _ _ body)

theorem yields_namespace (hscope : r.scope.Yields fun items => ∀ i ∈ items, Declares i.gen) :
    YieldsDeclaration (namespaceDeclaration r) := by
  unfold namespaceDeclaration
  refine .behind fun here => .behind fun _ => .behind fun next => ?_
  split
  · exact yields_dropped _ _
  · refine .behind fun _ => .behind fun opened => .ite (.behind fun _ => yields_dropped _ _) (.behind fun group => ?_)
    split
    · exact .behind fun _ => yields_report _ _
    · refine (hscope.within _ _).bind fun items hitems => .behind fun _ => .pure ?_
      exact (Declares.noteNamespaces here).bind fun _ => .genAll hitems

theorem yields_using : YieldsDeclaration usingStatement := by
  unfold usingStatement
  have ends (here : Nat) : YieldsDeclaration (do
      if ← check [.semicolon] then return .using_ here
      else recovered here (.usingUnterminated (textOf (← peek)))) := by
    refine .behind fun ended => .ite (.pure ?_) (.behind fun _ => yields_recovered _ _)
    exact .noteNamespaces here
  exact .behind fun here => .behind fun _ => .behind fun _ => .behind fun renamed =>
    .ite (.behind fun _ => ends here) (ends here)

/-- A declaration of any kind. -/
theorem yields_declaration (hscope : r.scope.Yields fun items => ∀ i ∈ items, Declares i.gen)
    (kind : DeclarationKind) : YieldsDeclaration (declaration r kind) := by
  cases kind with
  | class_ flags =>
      exact .ite (.behind fun _ => yields_class (.class_ flags) r) (yields_class (.class_ flags) r)
  | interface => exact yields_class .interface r
  | function => exact yields_function r
  | namespace_ => exact yields_namespace hscope
  | using_ => exact yields_using

theorem yields_scopeItems (hscope : r.scope.Yields fun items => ∀ i ∈ items, Declares i.gen) (n : Nat) :
    (scopeItems r n).Yields fun items => ∀ i ∈ items, Declares i.gen := by
  induction n with
  | zero => exact .pure (List.forall_mem_nil _)
  | succ n ih =>
      rw [scopeItems]
      refine .behind fun next => ?_
      split
      · exact .pure (List.forall_mem_nil _)
      · rename_i t
        have rest (item : Stmt) (hitem : Declares item.gen) : (do
            skipSemicolons
            return .onLine t.line item :: (← scopeItems r n) : Parse (List Stmt)).Yields
            fun items => ∀ i ∈ items, Declares i.gen := by
          refine .behind fun _ => ih.bind fun items hitems => .pure fun i hi => ?_
          rcases List.mem_cons.mp hi with rfl | hi
          · exact (Declares.of fun _ => rfl).bind fun _ => (Declares.of fun _ => rfl).bind fun _ =>
              hitem.bind fun _ => Declares.of fun _ => rfl
          · exact hitems i hi
        refine .behind fun kind => ?_
        split
        · exact (yields_declaration hscope _).bind rest
        · exact Yields.bind (.behind fun _ => .behind fun _ => yields_report _ _) rest

/-- However deep namespaces are nested, a scope holds declarations. -/
theorem yields_scope (n : Nat) : (readers n).scope.Yields fun items => ∀ i ∈ items, Declares i.gen := by
  induction n with
  | zero => exact .pure (List.forall_mem_nil _)
  | succ n ih => exact .behind fun _ => yields_scopeItems ih _

end Parse

/-! ### A whole source -/

namespace Config

/-- A source that is read for its declarations runs nothing, however malformed it is and whether or not there are
errors: its main container consists of installations of classes and interfaces, and of its end. -/
theorem declarations_run_nothing (config : Config) (source : String) (c : Compilation)
    (hmode : config.mode = .declarations) (h : (config.compile source).result = .ok c) :
    ∃ (inits : List Instruction) (last : Instruction), c.program.main.toList = inits ++ [last] ∧
      (∀ x ∈ inits, x.Installs) ∧ last.op = .done ∧ last.p1 = 0 ∧ last.p2 = 0 ∧ last.p3 = .none := by
  obtain ⟨read, -, hprogram, -⟩ := compile_ok h
  -- What the source is read as.
  let items := (((Parse.readers (Script.depthBound source.utf8ByteSize)).scope).run (TokenStream.ofList read.tokens)).1
  have hitems : ∀ i ∈ items, Declares i.gen := Parse.yields_scope _ _
  have hread : Script.read config.mode source.utf8ByteSize read.tokens = .statements items := by
    rw [hmode]
    rfl
  -- Everything in front of the end.
  let s := after (reportAll (lexReports read.errors)) (GenState.initial config)
  have declared : Code.Installed #[] (after (Stmt.genAll items) s).code := Declares.genAll hitems s
  obtain ⟨inits, hinits, hinstalls⟩ := declared.settle (after (Stmt.genAll items) s).blocks 0 (some .throw)
    (after (Stmt.genAll items) s).code.size
  have hmain : c.program.main = (after (Script.statements items).gen s).code := by
    rw [hprogram, ← hread]
    rfl
  refine ⟨inits, ⟨.done, 0, 0, .none, (after (Stmt.genAll items) s).buffer.line⟩, ?_, hinstalls, rfl, rfl, rfl, rfl⟩
  rw [hmain, Script.gen, after_bind, after_bind, after_settle, after_put, GenState.code, Array.toList_push, hinits]
  rfl

theorem declarations_run_nothing_nested :
    ∃ c inits last, (({ mode := .declarations } : Config).compile
        "namespace a { class C extends B { } $x = 1; namespace { interface I extends J { } } } return 2;").result = .ok c ∧
      c.errors = 2 ∧ c.program.main.toList = inits ++ [last] ∧ inits.length = 2 ∧ (∀ x ∈ inits, x.Installs) ∧
      last.op = .done := by
  have numbers : ((({ mode := .declarations } : Config).compile
      "namespace a { class C extends B { } $x = 1; namespace { interface I extends J { } } } return 2;").result.toOption.map
      fun c => (c.errors, c.program.main.toList.length)) = some (2, 3) := by
    rw [compile_ofList rfl rfl]
    decide +kernel
  obtain ⟨c, hr, told⟩ := Outcome.ok_of_map numbers
  obtain ⟨errors, length⟩ := Prod.mk.inj told
  obtain ⟨inits, last, hmain, hinits, hlast, -, -, -⟩ := declarations_run_nothing _ _ c rfl hr
  rw [hmain, List.length_append, List.length_singleton] at length
  exact ⟨c, inits, last, hr, errors, hmain, Nat.succ.inj length, hinits, hlast⟩

end Config

end StackScript
