/-
The classes of a program stay well formed.

Classes come into a program only where a declaration is completed, and they are never taken out or changed.  So whether
all of them are well formed is a judgment in the sense of `Judgment`: it holds of everything that makes bodies in
containers of their own, and is carried through every construct.  It does not hold of the installation of any class
whatever, but of that of a class whose members fit its head.
-/
import StackScript.Proofs.Classes.Members
import StackScript.Proofs.Traversal

namespace StackScript

open Gen

/-- Every class so far is well formed and, where no error has been reported, its virtual methods stand where they
may. -/
def GenState.ClassesFit (s : GenState) : Prop := ∀ c ∈ s.program.classes, c.WellFormed ∧ (s.errors = 0 → c.InPlace)

theorem GenState.ClassesFit.mono {s t : GenState} (h : s.ClassesFit) (hclasses : t.program.classes = s.program.classes)
    (herrors : s.errors ≤ t.errors) : t.ClassesFit := by
  intro c hc
  rw [hclasses] at hc
  exact ⟨(h c hc).1, fun he => (h c hc).2 (Nat.le_zero.mp (he ▸ herrors))⟩

namespace Gen

variable {α : Type}

/-- A generator that installs no class but well-formed ones. -/
def KeepsClasses (m : Gen α) : Prop := ∀ s, s.ClassesFit → (after m s).ClassesFit

namespace KeepsClasses

theorem still {m : Gen α} (h : Still m) : KeepsClasses m := fun s hs => hs.mono (h.classes s) (h.stores s).errors_le

theorem clauses (table : Nat) {cs : List CatchClause} (h : ∀ b ∈ cs.filterMap CatchClause.body?, KeepsClasses b.gen) :
    KeepsClasses (CatchClause.genAll table cs) := by
  induction cs with
  | nil => exact still (still_pure ())
  | cons c cs ih =>
      intro s hs
      cases c with
      | malformed r => exact ih h _ (still (still_report r.line r.problem) s hs)
      | clause className binding body =>
          have caught := h body List.mem_cons_self
            (after openContainer (after (enter [.exception, .guarded] 0 .none none) s)) hs
          exact ih (fun b hb => h b (List.mem_cons_of_mem _ hb)) _ caught

end KeepsClasses

/-- A judgment: whatever is generated, the classes of the program stay well formed. -/
def fitting : Judgment where
  Claims := fun _ m => KeepsClasses m
  still := .still
  bind := fun hm hf s hs => hf _ _ (hm s hs)
  perm := fun _ h => h
  thunk := fun _ _ h s hs => h (after openContainer s) hs
  switchRest := by
    intro _ sections fault h s hs
    have inner := h {} (after (put .switch 0 0 (.switch s.program.switches.length)) (after reserveSwitch s)) hs
    exact KeepsClasses.still (still_reportFault fault) _ inner
  functionBody := by
    intro _ name className body h s hs
    exact h (after openContainer { after (enter [.guarded, .function] 0 (.function name className) none) s with
      statics := [] :: s.statics }) hs
  tryCatch := by
    intro _ body clauses fault hb hc s hs
    have inner := hb (after (await s.blocks.blocks.size .loadException (.exception s.program.exceptions.length))
      (after reserveException (after (enter [.exception] s.code.size .none none) s))) hs
    exact KeepsClasses.still (still_reportFault fault) _ (KeepsClasses.clauses s.program.exceptions.length hc _ inner)

end Gen

/-! ### Declarations -/

namespace Gen

variable {head : ClassHead} {members : List Member} {s : GenState}

theorem keepsClasses_genAll (h : ∀ m ∈ members, ∀ c, KeepsClasses (m.gen c)) (c : ClassDef) :
    KeepsClasses (Member.genAll members c) := by
  induction members generalizing c with
  | nil => exact .still (still_pure c)
  | cons m ms ih =>
      exact fun s hs => ih (fun m' hm' => h m' (List.mem_cons_of_mem _ hm')) _ _ (h m List.mem_cons_self c s hs)

theorem keepsClasses_membersOf (head : ClassHead) (h : ∀ m ∈ members, ∀ c, KeepsClasses (m.gen c)) :
    KeepsClasses (membersOf head (Member.genAll members)) := by
  intro s hs
  unfold membersOf
  split
  · exact keepsClasses_genAll h head.blank s hs
  · exact keepsClasses_genAll h head.blank (after (enter [.class_] s.code.size (.class_ head.name) none) s) hs

/-- Members that fit make a well-formed class. -/
theorem wellFormed_membersOf (h : Member.AllFit head.flags members) (s : GenState) :
    (result (membersOf head (Member.genAll members)) s).WellFormed := by
  have blank : head.blank.WellFormed := ⟨List.forall_mem_nil _, List.forall_mem_nil _⟩
  unfold membersOf
  split
  · exact Member.wellFormed_genAll (c := head.blank) members h.fits blank s
  · exact Member.wellFormed_genAll (c := head.blank) members h.fits blank _

/-- Members that fit make a class in which virtual methods stand where they may, or an error. -/
theorem inPlace_membersOf (h : Member.AllFit head.flags members)
    (he : (after (membersOf head (Member.genAll members)) s).errors = 0) :
    (result (membersOf head (Member.genAll members)) s).InPlace := by
  have blank : head.blank.InPlace := List.forall_mem_nil _
  unfold membersOf at he ⊢
  rcases h.accounted with ⟨r, hr, hreported⟩ | h
  · exfalso
    split at he
    · have reported := Member.errors_lt_genAll members hr hreported head.blank s
      omega
    · have reported := Member.errors_lt_genAll members hr hreported head.blank
        (after (enter [.class_] s.code.size (.class_ head.name) none) s)
      have all : (after (Member.genAll members head.blank)
        (after (enter [.class_] s.code.size (.class_ head.name) none) s)).errors = 0 := he
      omega
  · split
    · exact Member.inPlace_genAll (c := head.blank) members h blank s
    · exact Member.inPlace_genAll (c := head.blank) members h blank _

theorem classesFit_completeClass {c : ClassDef} (hs : s.ClassesFit) (hc : c.WellFormed)
    (hplace : s.errors = 0 → c.InPlace) : (after (completeClass head c) s).ClassesFit := by
  obtain ⟨classes, hafter, hclasses⟩ := after_installClass c s
  unfold completeClass
  rw [after_bind, hafter]
  refine KeepsClasses.still (still_installed head _ _) _ fun d hd => ?_
  rcases hclasses with rfl | rfl
  · exact hs d hd
  · rcases List.mem_append.mp hd with hd | hd
    · exact hs d hd
    · rw [List.mem_singleton.mp hd]
      exact ⟨hc, hplace⟩

end Gen

/-- Where the members of a declaration fit, or an error ends it, classes stay well formed. -/
theorem Stmt.keepsClasses_class_ (head : ClassHead) {members : List Member} (fault : Option ErrorReport)
    (hgen : ∀ m ∈ members, ∀ c, KeepsClasses (m.gen c)) (hfit : fault = none → Member.AllFit head.flags members) :
    KeepsClasses (Stmt.class_ head members fault).gen := by
  intro s hs
  have front := keepsClasses_membersOf head hgen s hs
  rw [Stmt.gen_class, class_eq, after_bind]
  cases fault with
  | some error => exact KeepsClasses.still (still_report error.line error.problem) _ front
  | none => exact classesFit_completeClass front (wellFormed_membersOf (hfit rfl) s) (inPlace_membersOf (hfit rfl))

end StackScript
