/-
The tables of catch clauses.

The table of a `try` is reserved in front of its body and gets its clauses behind it.  Meanwhile the body and the
clauses reserve tables of their own, so a table holds just the clauses of its `try`, and what has been generated
so far keeps the clauses it has.
-/
import StackScript.Proofs.Traversal

namespace StackScript

open Gen

/-! ### The clauses so far stay -/

namespace Gen

/-- The clauses of every `try` so far stay as they are. -/
def KeepsClauses {α : Type} (m : Gen α) : Prop := ∀ s, s.program.exceptions <+: (after m s).program.exceptions

end Gen

theorem getElem?_of_grown {α : Type} {xs ys : List α} (h : xs <+: ys) {i : Nat} (hi : i < xs.length) :
    ys[i]? = xs[i]? := by
  rw [List.prefix_iff_getElem?.mp h i hi, List.getElem?_eq_getElem hi]

/-- Between two states clauses are added to new tables and to one table that was there. -/
structure Amends (table : Nat) (s t : GenState) : Prop where
  longer : s.program.exceptions.length ≤ t.program.exceptions.length
  others : ∀ i < s.program.exceptions.length, i ≠ table → t.program.exceptions[i]? = s.program.exceptions[i]?

theorem Amends.trans {table : Nat} {s t u : GenState} (h : Amends table s t) (h' : Amends table t u) : Amends table s u where
  longer := Nat.le_trans h.longer h'.longer
  others := fun i hi hne => (h'.others i (Nat.lt_of_lt_of_le hi h.longer) hne).trans (h.others i hi hne)

theorem Amends.of_grown {table : Nat} {s t : GenState} (h : s.program.exceptions <+: t.program.exceptions) : Amends table s t :=
  ⟨h.length_le, fun _ hi _ => getElem?_of_grown h hi⟩

namespace CatchClause

/-- The entries of the clauses, when their code is generated from a state. -/
def entriesFrom (table : Nat) : List CatchClause → GenState → List CatchEntry
  | [], _ => []
  | .malformed r :: cs, s => entriesFrom table cs (after (report r.line r.problem) s)
  | .clause className binding body :: cs, s =>
    ⟨className, binding, result (catchBody body.gen) s⟩ ::
      entriesFrom table cs (after ((CatchClause.clause className binding body).gen table) s)

variable {table : Nat}

/-- A clause is added to a table behind its body. -/
theorem exceptions_gen (className binding : String) (body : Stmt) (s : GenState) :
    (after ((CatchClause.clause className binding body).gen table) s).program.exceptions =
      (after (catchBody body.gen) s).program.exceptions.modify table
        (· ++ [⟨className, binding, result (catchBody body.gen) s⟩]) := by
  rfl

theorem keeps_catchBody {body : Stmt} (h : KeepsClauses body.gen) : KeepsClauses (catchBody body.gen) :=
  fun s => h (after openContainer (after (enter [.exception, .guarded] 0 .none none) s))

theorem amends_addCatch {className binding : String} {body : Stmt} (s : GenState) :
    Amends table (after (catchBody body.gen) s) (after ((CatchClause.clause className binding body).gen table) s) where
  longer := Nat.le_of_eq (by rw [exceptions_gen, List.length_modify])
  others := by
    intro i _ hne
    rw [exceptions_gen, List.getElem?_modify, Option.map_eq_map]
    simp [Ne.symm hne]

theorem amends_gen (c : CatchClause) (h : ∀ b ∈ c.body?, KeepsClauses b.gen) (s : GenState) :
    Amends table s (after (c.gen table) s) := by
  cases c with
  | malformed r =>
      exact .of_grown List.prefix_rfl
  | clause className binding body => exact (Amends.of_grown (keeps_catchBody (h body rfl) s)).trans (amends_addCatch s)

theorem amends_genAll (cs : List CatchClause) (h : ∀ b ∈ cs.filterMap CatchClause.body?, KeepsClauses b.gen) (s : GenState) :
    Amends table s (after (CatchClause.genAll table cs) s) := by
  induction cs generalizing s with
  | nil =>
      exact .of_grown List.prefix_rfl
  | cons c cs ih =>
      rw [CatchClause.genAll_cons, after_bind]
      refine (amends_gen c (fun b hb => h b ?_) s).trans (ih (fun b hb => h b ?_) _)
      · exact List.mem_filterMap.mpr ⟨c, List.mem_cons_self .., hb⟩
      · obtain ⟨d, hd, hb⟩ := List.mem_filterMap.mp hb
        exact List.mem_filterMap.mpr ⟨d, List.mem_cons_of_mem _ hd, hb⟩

/-- Clauses are added behind those that are in their table. -/
theorem entry_genAll (cs : List CatchClause) (h : ∀ b ∈ cs.filterMap CatchClause.body?, KeepsClauses b.gen) {s : GenState}
    {entries : List CatchEntry} (hs : s.program.exceptions[table]? = some entries) :
    (after (CatchClause.genAll table cs) s).program.exceptions[table]? = some (entries ++ entriesFrom table cs s) := by
  induction cs generalizing s entries with
  | nil =>
      rw [entriesFrom, List.append_nil]
      exact hs
  | cons c cs ih =>
      rw [CatchClause.genAll_cons, after_bind]
      cases c with
      | malformed r =>
          rw [entriesFrom]
          exact ih h hs
      | clause className binding body =>
          have hlt := (List.getElem?_eq_some_iff.mp hs).1
          have kept := getElem?_of_grown (keeps_catchBody (h body (List.mem_cons_self ..)) s) hlt
          have added : (after ((CatchClause.clause className binding body).gen table) s).program.exceptions[table]? =
              some (entries ++ [⟨className, binding, result (catchBody body.gen) s⟩]) := by
            rw [exceptions_gen, List.getElem?_modify, kept, hs]
            simp
          rw [ih (fun b hb => h b (List.mem_cons_of_mem _ hb)) added, entriesFrom, List.append_assoc, List.singleton_append]

end CatchClause

section Protected

variable {body : Stmt} {clauses : List CatchClause}

theorem amends_tryCatch (hc : ∀ b ∈ clauses.filterMap CatchClause.body?, KeepsClauses b.gen) (fault : Option Report) (s : GenState) : Amends s.program.exceptions.length
    (after (tryBody body.gen) s) (after (Stmt.tryCatch body clauses fault).gen s) := by
  rw [Stmt.gen_tryCatch, Gen.tryCatch, after_bind, after_bind]
  exact (CatchClause.amends_genAll clauses hc _).trans (.of_grown ((still_reportFault fault).clauses _ ▸ List.prefix_rfl))

variable (hb : KeepsClauses body.gen)

include hb

/-- The table of a `try` is reserved in front of its body. -/
theorem keeps_tryBody (s : GenState) :
    s.program.exceptions ++ [[]] <+: (after (tryBody body.gen) s).program.exceptions :=
  hb (after (await s.blocks.blocks.size .loadException (.exception s.program.exceptions.length))
    (after reserveException (after (enter [.exception] s.code.size .none none) s)))

theorem exceptions_tryBody (s : GenState) :
    (after (tryBody body.gen) s).program.exceptions[s.program.exceptions.length]? = some [] := by
  rw [getElem?_of_grown (keeps_tryBody hb s) (by simp), List.getElem?_concat_length]

variable (hc : ∀ b ∈ clauses.filterMap CatchClause.body?, KeepsClauses b.gen)

include hc

/-- The table of a `try` holds its clauses. -/
theorem exceptions_tryCatch (fault : Option Report) (s : GenState) :
    (after (Stmt.tryCatch body clauses fault).gen s).program.exceptions[s.program.exceptions.length]? =
      some (CatchClause.entriesFrom s.program.exceptions.length clauses (after (tryBody body.gen) s)) := by
  rw [Stmt.gen_tryCatch, Gen.tryCatch, after_bind, after_bind, (still_reportFault fault).clauses]
  exact CatchClause.entry_genAll clauses hc (exceptions_tryBody hb s)

theorem keeps_tryCatch (fault : Option Report) : KeepsClauses (Stmt.tryCatch body clauses fault).gen := by
  intro s
  refine List.prefix_iff_getElem?.mpr fun i hi => ?_
  have front := keeps_tryBody hb s
  have hlt : i < (after (tryBody body.gen) s).program.exceptions.length := by
    have := front.length_le
    rw [List.length_append] at this
    omega
  rw [(amends_tryCatch hc fault s).others i hlt (Nat.ne_of_lt hi), getElem?_of_grown front (by rw [List.length_append]; omega),
    List.getElem?_append_left hi, List.getElem?_eq_getElem hi]

end Protected

/-- A judgment: whatever is generated, the clauses so far stay. -/
def keeping : ScriptJudgment where
  Claims := fun _ m => KeepsClauses m
  still := fun h s => (h.clauses s) ▸ List.prefix_rfl
  bind := fun hm hf s => (hm s).trans (hf _ _)
  perm := fun _ h => h
  thunk := fun _ _ h s => h (after openContainer s)
  switchRest := by
    intro _ sections fault h s
    let front := after (put .switch 0 0 (.switch s.program.switches.length)) (after reserveSwitch s)
    have inner := h {} front
    rw [← (still_reportFault fault).clauses (after (sections {}) front)] at inner
    exact inner
  functionBody := by
    intro _ name className body h s
    exact h (after openContainer { after (enter [.guarded, .function] 0 (.function name className) none) s with
      statics := [] :: s.statics })
  tryCatch := fun _ _ fault hb hc => keeps_tryCatch hb hc fault
  completeClass := fun head c s => (completeClass_kept head c s).1 ▸ List.prefix_rfl

/-! ### Tables of the finished program -/

/-- What was put into tables of clauses between two states is in those of a program. -/
def Program.Catches (p : Program) (s t : GenState) : Prop := ∀ i, s.program.exceptions.length ≤ i →
  i < t.program.exceptions.length → p.exceptions[i]? = t.program.exceptions[i]?

namespace Program.Catches

variable {p : Program} {s t u : GenState}

theorem front (h : p.Catches s u) (kept : t.program.exceptions <+: u.program.exceptions) : p.Catches s t :=
  fun i hi hlt => (h i hi (Nat.lt_of_lt_of_le hlt kept.length_le)).trans (getElem?_of_grown kept hlt)

theorem back (h : p.Catches s u) (longer : s.program.exceptions.length ≤ t.program.exceptions.length) : p.Catches t u :=
  fun i hi => h i (Nat.le_trans longer hi)

/-- Moves inside a container, in front of a run and behind it, do not matter. -/
theorem within {s' t' : GenState} (hs : Local s s') (ht : Local t t') (h : p.Catches s t') : p.Catches s' t := by
  unfold Catches at h ⊢
  rw [hs.program, ← ht.program]
  exact h

/-- The tables of a `try` are those of its body and, behind them, those of its clauses. -/
theorem tryCatch {body : Stmt} {clauses : List CatchClause} {fault : Option Report}
    (h : p.Catches s (after (Stmt.tryCatch body clauses fault).gen s)) :
    p.Catches (after reserveException s) (after (tryBody body.gen) s) ∧
      p.Catches (after (tryBody body.gen) s)
        (after (CatchClause.genAll s.program.exceptions.length clauses) (after (tryBody body.gen) s)) := by
  have amends : Amends s.program.exceptions.length (after (tryBody body.gen) s) (after (Stmt.tryCatch body clauses fault).gen s) :=
    amends_tryCatch (fun b _ => keeping.claims_stmt b) fault s
  have reserved := (keeps_tryBody (keeping.claims_stmt body) s).length_le
  rw [List.length_append] at reserved
  constructor
  · intro i hi hlt
    rw [after_reserveException, List.length_append] at hi
    exact (h i (Nat.le_of_lt hi) (Nat.lt_of_lt_of_le hlt amends.longer)).trans (amends.others i hlt (Nat.ne_of_gt hi))
  · intro i hi hlt
    have unchanged := (still_reportFault fault).clauses (after (CatchClause.genAll s.program.exceptions.length clauses)
      (after (tryBody body.gen) s))
    rw [Stmt.gen_tryCatch, Gen.tryCatch, after_bind, after_bind] at h
    rw [← unchanged] at hlt ⊢
    exact h i (Nat.le_trans (Nat.le_of_lt reserved) hi) hlt

end Program.Catches

/-- A run reports no error, and what it puts into tables is in those of a program. -/
structure Program.Follows (p : Program) (s t : GenState) : Prop where
  errors : t.errors = s.errors
  completes : p.Completes s t
  catches : p.Catches s t

namespace Program.Follows

variable {p : Program} {s t u : GenState}

/-- So do both parts of the run, if the second one keeps the clauses so far. -/
theorem split (h : p.Follows s u) (hst : Retains s t) (htu : Retains t u)
    (longer : s.program.exceptions.length ≤ t.program.exceptions.length)
    (kept : t.program.exceptions <+: u.program.exceptions) : p.Follows s t ∧ p.Follows t u := by
  have front := hst.errors_le
  have back := htu.errors_le
  have errors := h.errors
  exact ⟨⟨by omega, h.completes.front htu, h.catches.front kept⟩, by omega, h.completes.back hst, h.catches.back longer⟩

/-- Moves inside a container, in front of the run and behind it, do not matter. -/
theorem within {s' t' : GenState} (hs : Local s s') (ht : Local t t') (h : p.Follows s t') : p.Follows s' t where
  errors := by
    rw [hs.errors, ← ht.errors]
    exact h.errors
  completes := .within hs ht h.completes
  catches := .within hs ht h.catches

/-- Static variables that are collected do not matter either. -/
theorem collected (h : p.Follows s { t with statics := t.statics.tail }) :
    p.Follows { s with statics := [] :: s.statics } t :=
  ⟨h.errors, ⟨h.completes.switches, h.completes.foreachs⟩, h.catches⟩

/-- The run inside a container. -/
theorem container (h : p.Follows s (after (closeContainer s.container) t)) : p.Follows (after openContainer s) t :=
  ⟨h.errors, ⟨h.completes.switches, h.completes.foreachs⟩, h.catches⟩

end Program.Follows

namespace CatchClause

variable {p : Program} {table : Nat} {s : GenState} {cs : List CatchClause}

/-- A run of clauses consists of the first one and the others. -/
theorem follows_rest (c : CatchClause) (htable : table < s.program.exceptions.length)
    (h : p.Follows s (after (CatchClause.genAll table (c :: cs)) s)) :
    table < (after (c.gen table) s).program.exceptions.length ∧
      p.Follows (after (c.gen table) s) (after (CatchClause.genAll table cs) (after (c.gen table) s)) := by
  rw [CatchClause.genAll_cons, after_bind] at h
  have first := (CatchClause.run_gen table c s htable).builds
  have htable' := Nat.lt_of_lt_of_le htable first.frame.exceptions
  have rest := (CatchClause.run_genAll table cs _ htable').builds
  exact ⟨htable', (first.errors_split rest h.errors).2, h.completes.back first.retains, h.catches.back first.frame.exceptions⟩

/-- The body of the first clause is generated in front of everything else. -/
theorem follows_catchBody {className binding : String} {body : Stmt} (htable : table < s.program.exceptions.length)
    (h : p.Follows s (after (CatchClause.genAll table (.clause className binding body :: cs)) s)) :
    p.Follows s (after (catchBody body.gen) s) := by
  rw [CatchClause.genAll_cons, after_bind] at h
  have first := (CatchClause.run_gen table (.clause className binding body) s htable).builds
  have rest := (CatchClause.run_genAll table cs _ (Nat.lt_of_lt_of_le htable first.frame.exceptions)).builds
  have errors := (first.errors_split rest h.errors).1
  have completes := h.completes.front rest.retains
  refine ⟨errors, ⟨completes.switches, completes.foreachs⟩, fun i hi hlt => ?_⟩
  -- The clause is put into a table that was there before.
  have added : Amends table (after (catchBody body.gen) s) (after ((CatchClause.clause className binding body).gen table) s) :=
    amends_addCatch s
  have amends := added.trans (amends_genAll cs (fun b _ => keeping.claims_stmt b) _)
  exact (h.catches i hi (Nat.lt_of_lt_of_le hlt amends.longer)).trans (amends.others i hlt (by omega))

end CatchClause

end StackScript
