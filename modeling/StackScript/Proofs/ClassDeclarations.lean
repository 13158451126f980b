/-
Class declarations.

The members of a class are generated before the class is installed, as code of their own, so nothing in the container
around the class is touched.  When they are done, either the class comes last in the table of classes, and where it is
built on something a link and the instruction that carries it are added as well, or nothing of all this happens and an
error is reported.  There are many ways to the error: a head that cannot be read, a body that is not closed, any of the
malformed members, or a class of the same name.
-/
import StackScript.Proofs.Headers
import StackScript.Proofs.Joins

namespace StackScript

open Gen

/-! ### Members -/

namespace Gen

variable {α β : Type}

/-- A generator that leaves the container being filled as it is. -/
def KeepsCode (m : Gen α) : Prop := ∀ s, (after m s).code = s.code

namespace KeepsCode

theorem pure (a : α) : KeepsCode (pure a : Gen α) := fun _ => rfl

theorem bind {m : Gen α} {f : α → Gen β} (hm : KeepsCode m) (hf : ∀ a, KeepsCode (f a)) : KeepsCode (m >>= f) :=
  fun s => (hf _ _).trans (hm s)

theorem report (line : Nat) (problem : Problem) : KeepsCode (report line problem) := fun _ => rfl

theorem reportFault (fault : Option Report) : KeepsCode (reportFault fault) := by
  cases fault with
  | none => exact pure ()
  | some r => exact report r.line r.problem

/-- Whatever fills a container of its own. -/
theorem inContainer (body : Gen Unit) : KeepsCode (inContainer body) := fun _ => rfl

theorem owned {tags : List BlockTag} {first : Nat} {owner : BlockOwner} {body : Nat → Gen α}
    (h : ∀ id, KeepsCode (body id)) : KeepsCode (owned tags first owner body) := fun _ => h _ _

theorem collectingStatics {body : Gen α} (h : KeepsCode body) : KeepsCode (collectingStatics body) := fun _ => h _

theorem arguments {params : Gen (List Argument)} (h : KeepsCode params) (fault : Option Report) :
    KeepsCode (arguments params fault) :=
  h.bind fun _ => (reportFault fault).bind fun _ => pure _

theorem memberValue (head : MemberHead) (problem : Problem) (line : Nat) (isPresent : Bool) (value : Gen Unit) :
    KeepsCode (memberValue head problem line isPresent value) := by
  refine (inContainer _).bind fun code => ?_
  cases isPresent with
  | true => exact pure code
  | false => exact (report _ _).bind fun _ => pure code

theorem functionDef (head : FunctionHead) (args : List Argument) (body : Gen Unit) :
    KeepsCode (functionDef head args body) := by
  have fills (className : Option String) : KeepsCode (functionBody head.name className body) :=
    owned fun _ => collectingStatics (inContainer _)
  unfold Gen.functionDef
  dsimp only
  split
  · exact bind (fun s => congrArg GenState.code (after_currentClass s)) fun _ => (fills _).bind fun _ => pure _
  · exact fun s => fills none s

end KeepsCode

end Gen

theorem Parameter.keepsCode_gen (p : Parameter) : KeepsCode p.gen := by
  cases p with
  | required name type byRef => exact .pure _
  | optional name type byRef line value => exact (KeepsCode.inContainer _).bind fun _ => .pure _

theorem Parameter.keepsCode_genAll (ps : List Parameter) : KeepsCode (Parameter.genAll ps) := by
  induction ps with
  | nil => exact .pure _
  | cons p ps ih => exact p.keepsCode_gen.bind fun _ => ih.bind fun _ => .pure _

theorem Member.keepsCode_gen (c : ClassDef) (m : Member) : KeepsCode (m.gen c) := by
  cases m with
  | report r => exact (KeepsCode.report _ _).bind fun _ => .pure _
  | constant head line value => exact (KeepsCode.memberValue _ _ _ _ _).bind fun _ => .pure _
  | «attribute» head type => exact .pure _
  | attributeValue head type line value => exact (KeepsCode.memberValue _ _ _ _ _).bind fun _ => .pure _
  | signature head function params fault =>
      exact (KeepsCode.arguments (Parameter.keepsCode_genAll params) fault).bind fun _ => .pure _
  | method head function params fault body =>
      exact (KeepsCode.arguments (Parameter.keepsCode_genAll params) fault).bind fun args =>
        (KeepsCode.functionDef function args body.gen).bind fun _ => .pure _

theorem Member.keepsCode_genAll (ms : List Member) (c : ClassDef) : KeepsCode (Member.genAll ms c) := by
  induction ms generalizing c with
  | nil => exact .pure _
  | cons m ms ih => exact (Member.keepsCode_gen c m).bind ih

/-- What the members of a class cannot change about it. -/
def ClassDef.title (c : ClassDef) : String × ClassFlags × Nat := (c.name, c.flags, c.line)

theorem Member.title_gen (m : Member) (c : ClassDef) (s : GenState) : (result (m.gen c) s).title = c.title := by
  cases m <;> rfl

theorem Member.title_genAll (ms : List Member) (c : ClassDef) (s : GenState) :
    (result (Member.genAll ms c) s).title = c.title := by
  induction ms generalizing c s with
  | nil => rfl
  | cons m ms ih => exact (ih _ _).trans (m.title_gen c s)

/-! ### Declarations -/

/-- The class of a declaration before its members are added. -/
def ClassHead.blank (head : ClassHead) : ClassDef := { name := head.name, flags := head.flags, line := head.line }

/-- Generates the members of a declaration; those of a class know which class they are in. -/
def Gen.membersOf (head : ClassHead) (members : ClassDef → Gen ClassDef) : Gen ClassDef :=
  if head.flags.isInterface then members head.blank
  else do owned [.class_] (← here) (.class_ head.name) fun _ => members head.blank

theorem Gen.class_eq (head : ClassHead) (members : ClassDef → Gen ClassDef) (fault : Option ErrorReport) :
    class_ head members fault = (do
      let c ← membersOf head members
      match fault with
      | some error => report error.line error.problem
      | none => completeClass head c) := by
  unfold class_ membersOf
  dsimp only
  split
  · rfl
  · rfl

/-- The state when the members of a declaration are done; nothing is done for a statement that is none. -/
def Stmt.behindMembers (g : GenState) : Stmt → GenState
  | .class_ head members _ => after (membersOf head (Member.genAll members)) g
  | _ => g

/-- Where the members of a declaration are done, it has been installed: its class is the last one, and exactly where it
is built on something, there is a link and one instruction that carries it. -/
structure Declared (head : ClassHead) (g m t : GenState) : Prop where
  class_ : ∃ c, t.program.classes = m.program.classes ++ [c] ∧ c.title = (head.name, head.flags, head.line)
  linked : head.bases ≠ [] ∨ head.interfaces ≠ [] →
    t.program.classLinks = m.program.classLinks ++ [⟨head.name, head.bases, head.interfaces, head.line⟩] ∧
      t.code = g.code.push ⟨if head.flags.isInterface then .interfaceInit else .classInit,
        if head.bases = [] then 0 else 1, if head.interfaces = [] then 0 else 1,
        .classLink m.program.classLinks.length, head.line⟩
  unlinked : head.bases = [] → head.interfaces = [] →
    t.program.classLinks = m.program.classLinks ∧ t.code = g.code

/-- Where the members of a declaration are done, it has been dropped with an error. -/
structure Dropped (g m t : GenState) : Prop where
  classes : t.program.classes = m.program.classes
  links : t.program.classLinks = m.program.classLinks
  code : t.code = g.code
  error : g.errors < t.errors

namespace Gen

variable {head : ClassHead} {g m : GenState}

theorem keepsCode_membersOf (head : ClassHead) (members : List Member) :
    KeepsCode (membersOf head (Member.genAll members)) := by
  unfold membersOf
  split
  · exact Member.keepsCode_genAll members _
  · exact fun s => Member.keepsCode_genAll members head.blank _

theorem title_membersOf (head : ClassHead) (members : List Member) (s : GenState) :
    (result (membersOf head (Member.genAll members)) s).title = (head.name, head.flags, head.line) := by
  unfold membersOf
  split
  · exact Member.title_genAll members head.blank _
  · exact Member.title_genAll members head.blank _

/-- Nothing that has been reported is taken back while members are generated. -/
theorem errors_membersOf (head : ClassHead) (members : List Member) (s : GenState) :
    s.errors ≤ (after (membersOf head (Member.genAll members)) s).errors := by
  unfold membersOf
  split
  · obtain ⟨made, h, -⟩ := Member.addsMembers_genAll members head.blank s
    exact Grown.errors_le h.frame
  · obtain ⟨made, h, -⟩ := Member.addsMembers_genAll members head.blank
      (after (enter [.class_] s.code.size (.class_ head.name) none) s)
    have inside := Grown.errors_le h.frame
    exact inside

theorem dropped_report (line : Nat) {problem : Problem} (hp : problem.severity = .error) (hcode : m.code = g.code)
    (herrors : g.errors ≤ m.errors) : Dropped g m (after (report line problem) m) :=
  ⟨rfl, rfl, hcode, Nat.lt_of_le_of_lt herrors (errors_lt_report line m hp)⟩

/-- What an installed class is built on is handed to the machine. -/
theorem declared_link {c : ClassDef} (htitle : c.title = (head.name, head.flags, head.line)) (hcode : m.code = g.code) :
    Declared head g m
      (after (link head) { m with program := { m.program with classes := m.program.classes ++ [c] } }) := by
  have p1 (names : List String) : (flag (!names.isEmpty) : Int) = if names = [] then 0 else 1 := by cases names <;> rfl
  have p2 (names : List String) : flag (!names.isEmpty) = if names = [] then 0 else 1 := by cases names <;> rfl
  unfold link
  by_cases hbuilt : (!head.bases.isEmpty || !head.interfaces.isEmpty) = true
  · rw [if_pos hbuilt, after_bind, after_bind, after_setLine, after_put, p1, p2]
    refine ⟨⟨c, rfl, htitle⟩, fun _ => ⟨rfl, ?_⟩, fun hbases hinterfaces => ?_⟩
    · rw [← hcode]
      rfl
    · simp [hbases, hinterfaces] at hbuilt
  · obtain ⟨hbases, hinterfaces⟩ : head.bases = [] ∧ head.interfaces = [] := by simpa using hbuilt
    rw [if_neg hbuilt]
    exact ⟨⟨c, rfl, htitle⟩, fun h => absurd hinterfaces (h.resolve_left (absurd hbases)), fun _ _ => ⟨rfl, hcode⟩⟩

/-- A class whose members are done is installed, unless there is one of its name. -/
theorem completeClass_outcome {c : ClassDef} (htitle : c.title = (head.name, head.flags, head.line))
    (hcode : m.code = g.code) (herrors : g.errors ≤ m.errors) :
    Declared head g m (after (completeClass head c) m) ∨ Dropped g m (after (completeClass head c) m) := by
  unfold completeClass installClass
  rw [after_bind, result_modifyGet, after_modifyGet]
  unfold Program.installClass?
  by_cases htaken : (m.program.class? c.name).isSome = true
  · rw [if_pos htaken]
    refine .inr (dropped_report _ ?_ hcode herrors)
    split <;> rfl
  · rw [if_neg htaken]
    exact .inl (declared_link htitle hcode)

end Gen

/-- The code of a declaration installs it as a whole or drops it as a whole. -/
theorem Stmt.class_outcome (head : ClassHead) (members : List Member) (fault : Option ErrorReport) (g : GenState) :
    Declared head g ((Stmt.class_ head members fault).behindMembers g) (after (Stmt.class_ head members fault).gen g) ∨
      Dropped g ((Stmt.class_ head members fault).behindMembers g) (after (Stmt.class_ head members fault).gen g) := by
  have code := keepsCode_membersOf head members g
  have errors := errors_membersOf head members g
  have title := title_membersOf head members g
  rw [Stmt.gen_class, class_eq, after_bind]
  cases fault with
  | some error => exact .inr (dropped_report _ error.isError code errors)
  | none => exact completeClass_outcome title code errors

/-- However the tokens of a class or interface stand, the declaration is installed as a whole, with the head that stands
in the window in front of a closed body, or it is dropped as a whole with an error.  Where a head stands there in front
of a closed body, reading goes on behind the brace, whatever is the matter with the body. -/
theorem ClassKind.all_or_nothing (kind : ClassKind) (r : Readers) (s : TokenStream) (g : GenState) :
    ((∃ head ts j, kind.Header s.line head ts ∧ s.Shows ts ∧ Scan.Matches s.tokens .curly (s.pos + ts.length) j ∧
          j < s.stop ∧
          Declared head g (((kind.read r).run s).1.behindMembers g) (after ((kind.read r).run s).1.gen g)) ∨
        Dropped g (((kind.read r).run s).1.behindMembers g) (after ((kind.read r).run s).1.gen g)) ∧
      ∀ head ts j, kind.Header s.line head ts → s.Shows ts → Scan.Matches s.tokens .curly (s.pos + ts.length) j →
        j < s.stop → ((kind.read r).run s).2 = { s with pos := j + 1 } := by
  constructor
  · rcases kind.read_outcome r s with
      ⟨problem, hstmt, hproblem⟩ | ⟨head, ts, j, members, fault, hheader, hshows, hbody, hj, hstmt⟩
    · rw [hstmt]
      exact .inr (dropped_report s.line hproblem rfl (Nat.le_refl _))
    · rw [hstmt]
      exact (Stmt.class_outcome head members fault g).imp_left fun h => ⟨head, ts, j, hheader, hshows, hbody, hj, h⟩
  · intro head ts j hheader hshows hbody hj
    obtain ⟨members, fault, hrun⟩ := kind.run_read r hheader hshows hbody hj
    rw [hrun]

end StackScript
