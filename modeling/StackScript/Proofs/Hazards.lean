/-
What an exception meets in a statement.

An exception that is thrown passes loops, conditionals, switches and blocks; what matters to it are the protected
bodies around it.  `Stmt.hazards` keeps of a statement just the throws and the `try` constructs in it.  The bodies
of functions, of methods, of closures and of catch clauses fill containers of their own, so they are no part of
the statement around them; those of the clauses are kept with their `try`, because its descriptor lists them.

`Hazard.AllLie` says of a container where the hazards lie in it and where they jump.  Between them stands no
instruction that has to do with exceptions, so it accounts for every such instruction of the container.
-/
import StackScript.Proofs.Occupancy

namespace StackScript

mutual

/-- What an exception can come from or be stopped by. -/
inductive Hazard where
  | throw
  /-- A protected body and its clauses. -/
  | guard (body : List Hazard) (handlers : List Handler)

/-- What catches exceptions of a class. -/
inductive Handler where
  | clause (className binding : String) (body : List Hazard)

end

mutual

/-- The throws and the protected bodies in a statement, in source order. -/
def Stmt.hazards : Stmt → List Hazard
  | .throw _ _ => [.throw]
  | .tryCatch body clauses _ => [.guard body.hazards (CatchClause.handlers clauses)]
  | .sequence items | .block items _ | .namespace_ _ items => Stmt.allHazards items
  | .onLine _ body | .whileLoop _ _ body | .doLoop body _ _ | .doWithoutTest body _ => body.hazards
  | .forLoop _ init _ _ body _ _ => init.hazards ++ body.hazards
  | .foreach _ _ _ head => head.hazards
  | .conditional chain => chain.hazards
  | .switch _ _ sections _ => Section.allHazards sections
  | .empty | .report _ | .raw _ | .expression _ | .switchWithoutBody _ _ _ | .loopJump _ _ _ _ | .return_ _ | .exit _
  | .constant _ _ _ | .declaration _ _ _ | .using_ _ | .function _ _ _ _ | .class_ _ _ _ => []

def Stmt.allHazards : List Stmt → List Hazard
  | [] => []
  | s :: ss => s.hazards ++ Stmt.allHazards ss

def Chain.hazards : Chain → List Hazard
  | .branch _ _ body rest => body.hazards ++ rest.hazards
  | .otherwise body => body.hazards
  | .malformed _ | .done => []

def Section.allHazards : List Section → List Hazard
  | [] => []
  | .case_ _ _ _ body :: ss | .default_ _ _ body :: ss => Stmt.allHazards body ++ Section.allHazards ss

def ForeachHead.hazards : ForeachHead → List Hazard
  | .malformed _ | .unbound _ _ => []
  | .key _ _ rest => rest.hazards
  | .value _ _ _ body => body.hazards

/-- The clauses of a `try`, in source order. -/
def CatchClause.handlers : List CatchClause → List Handler
  | [] => []
  | .malformed _ :: cs => CatchClause.handlers cs
  | .clause className binding body :: cs => .clause className binding body.hazards :: CatchClause.handlers cs

end

/-- Whether an operation has to do with exceptions. -/
def Opcode.unwinds : Opcode → Bool
  | .throw | .loadException | .popException => true
  | _ => false

/-- No instruction from one index to another has to do with exceptions. -/
def Code.Calm (F : Code) (i j : Nat) : Prop :=
  ∀ n x, i ≤ n → n < j → F[n]? = some x → x.op.unwinds = false

section Lies

variable (p : Program)

mutual

/-- The hazards lie one behind the other, and what is thrown outside their protected bodies goes to `rescue`. -/
def Hazard.AllLie (F : Code) (rescue : Nat) : List Hazard → Nat → Nat → Prop
  | [], i, j => i ≤ j ∧ F.Calm i j
  | h :: hs, i, j => ∃ m n, i ≤ m ∧ F.Calm i m ∧ h.Lies F rescue m n ∧ Hazard.AllLie F rescue hs n j

/-- A throw jumps to where it is rescued.  A protected body lies between the two instructions of its `try`: the
first one jumps to the second, which is where throws in the body are rescued, and both have the descriptor
that lists the clauses. -/
def Hazard.Lies (F : Code) (rescue : Nat) : Hazard → Nat → Nat → Prop
  | .throw, i, j => F.JumpsAt .throw .none i rescue ∧ j = i + 1
  | .guard body handlers, i, j => ∃ id n entries, F.JumpsAt .loadException (.exception id) i n ∧
      Hazard.AllLie F n body (i + 1) n ∧ F.JumpsAt .popException (.exception id) n 0 ∧ j = n + 1 ∧
      p.exceptions[id]? = some entries ∧ Handler.AllListed handlers entries

/-- The entries are those of the clauses, in the same order. -/
def Handler.AllListed : List Handler → List CatchEntry → Prop
  | [], entries => entries = []
  | h :: hs, entries => ∃ e es, entries = e :: es ∧ h.Listed e ∧ Handler.AllListed hs es

/-- The body of a clause fills the container of its entry, which ends where throws in it go. -/
def Handler.Listed : Handler → CatchEntry → Prop
  | .clause className binding body, e => e.className = className ∧ e.binding = binding ∧
      ∃ n, Hazard.AllLie e.code n body 0 n ∧ e.code.JumpsAt .done .none n 0 ∧ e.code.size = n + 1

end

/-- A container holds the hazards of a statement and ends where the throws go that no protected body in it stops. -/
def Stmt.Unwinds (F : Code) (s : Stmt) : Prop :=
  ∃ n, Hazard.AllLie p F n s.hazards 0 n ∧ F.JumpsAt .done .none n 0 ∧ F.size = n + 1

end Lies

/-! ### Hazards one behind the other -/

namespace Code.Calm

variable {F : Code} {i j k : Nat}

theorem trans (h : F.Calm i j) (h' : F.Calm j k) : F.Calm i k := by
  intro n x hi hk hx
  by_cases hn : n < j
  · exact h n x hi hn hx
  · exact h' n x (Nat.not_lt.mp hn) hk hx

theorem none (F : Code) (i : Nat) : F.Calm i i := fun _ _ hi hj => absurd hj (Nat.not_lt.mpr hi)

/-- A single instruction. -/
theorem jump {op : Opcode} {p3 : Operand} {target : Nat} (h : F.JumpsAt op p3 i target) (hop : op.unwinds = false) :
    F.Calm i (i + 1) := by
  obtain ⟨y, hy, rfl, -⟩ := h
  intro n x hi hj hx
  obtain rfl : n = i := by omega
  obtain rfl : x = y := Option.some.inj (hx.symm.trans hy)
  exact hop

end Code.Calm

namespace Hazard

variable {p : Program} {F : Code} {rescue : Nat} {hs hs' : List Hazard} {i j k : Nat}

theorem AllLie.behind (hij : i ≤ j) (hcalm : F.Calm i j) (h : AllLie p F rescue hs j k) : AllLie p F rescue hs i k := by
  cases hs with
  | nil =>
      rw [AllLie] at h ⊢
      exact ⟨Nat.le_trans hij h.1, hcalm.trans h.2⟩
  | cons a hs =>
      rw [AllLie] at h ⊢
      obtain ⟨m, n, hjm, hcalm', ha, hhs⟩ := h
      exact ⟨m, n, Nat.le_trans hij hjm, hcalm.trans hcalm', ha, hhs⟩

theorem AllLie.append (h : AllLie p F rescue hs i j) (h' : AllLie p F rescue hs' j k) :
    AllLie p F rescue (hs ++ hs') i k := by
  induction hs generalizing i with
  | nil =>
      rw [AllLie] at h
      exact h'.behind h.1 h.2
  | cons a hs ih =>
      rw [AllLie] at h
      obtain ⟨m, n, him, hcalm, ha, hhs⟩ := h
      rw [List.cons_append, AllLie]
      exact ⟨m, n, him, hcalm, ha, ih hhs⟩

/-- A single hazard. -/
theorem Lies.all {a : Hazard} (h : a.Lies p F rescue i j) : AllLie p F rescue [a] i j := by
  rw [AllLie]
  refine ⟨i, j, Nat.le_refl i, .none F i, h, ?_⟩
  rw [AllLie]
  exact ⟨Nat.le_refl j, .none F j⟩

end Hazard

/-! ### Code that computes values -/

/-- Whatever has to do with exceptions in some code stood at its place before. -/
def Code.Undisturbed (a b : Code) : Prop :=
  ∀ (i : Nat) (op : Opcode), b[i]?.map Instruction.op = some op → op.unwinds = true → a[i]?.map Instruction.op = some op

namespace Code.Undisturbed

variable {a b c : Code}

theorem refl (a : Code) : Undisturbed a a := fun _ _ h _ => h

theorem trans (h : Undisturbed a b) (h' : Undisturbed b c) : Undisturbed a c :=
  fun i op hop hunwinds => h i op (h' i op hop hunwinds) hunwinds

/-- The same operations. -/
theorem of_ops (h : ∀ i : Nat, b[i]?.map Instruction.op = a[i]?.map Instruction.op) : Undisturbed a b :=
  fun i _ hop _ => (h i).symm.trans hop

theorem push (a : Code) {x : Instruction} (hx : x.op.unwinds = false) : Undisturbed a (a.push x) := by
  intro i op hop hunwinds
  rw [Array.getElem?_push] at hop
  split at hop
  · cases hop
    exact absurd (hx.symm.trans hunwinds) (by decide)
  · exact hop

theorem emit (s : GenState) {op : Opcode} (hop : op.unwinds = false) (p1 : Int) (p2 : Nat) (p3 : Operand) :
    Undisturbed s.code (Gen.after (Gen.emit op p1 p2 p3) s).code := push s.code hop

theorem patch (a : Code) (i target : Nat) : Undisturbed a (a.patch i target) := by
  refine of_ops fun k => ?_
  rw [Code.getElem?_patch]
  split
  · rw [Option.map_map]
    rfl
  · rfl

theorem pop (a : Code) : Undisturbed a a.pop := by
  intro i op hop _
  rw [Array.getElem?_pop] at hop
  split at hop
  · exact hop
  · cases hop

theorem take (a : Code) (n : Nat) : Undisturbed a (a.take n) := by
  intro i op hop _
  rw [Array.take_eq_extract, Array.getElem?_extract, Nat.zero_add] at hop
  split at hop
  · exact hop
  · cases hop

theorem mark (s : GenState) : Undisturbed s.code (Gen.after Gen.markCallee s).code := by
  unfold Gen.markCallee
  rw [Gen.after_modifyLast]
  refine of_ops fun i => ?_
  show (Array.modify ..)[i]?.map _ = _
  rw [Array.getElem?_modify]
  split
  · rw [Option.map_map]
    congr 1
    funext x
    simp only [Function.comp]
    split <;> rfl
  · rfl

end Code.Undisturbed

theorem Opcode.unwinds_of_isPlain {op : Opcode} (h : op.isPlain = true) : op.unwinds = false := by
  cases op <;> first | rfl | cases h

/-- What code that computes values adds has nothing to do with exceptions. -/
def Calms : Kind → GenState → GenState → Prop
  | .value _, s, t => Code.Undisturbed s.code t.code
  | .flow, _, _ | .sections _ _, _, _ => True

theorem Run.calms {k : Kind} {s t : GenState} (h : Run k s t) : Calms k s t := by
  induction h with
  | refl s => exact .refl _
  | trans _ _ ih ih' => exact Code.Undisturbed.trans ih ih'
  | quiet h => exact .of_ops fun i => by rw [h.code]
  | put s hop p1 p2 p3 _ _ => exact .emit s (Opcode.unwinds_of_isPlain hop) p1 p2 p3
  | rewrite _ _ _ hop p1 p2 p3 _ _ ih =>
      exact Code.Undisturbed.trans ih ((Code.Undisturbed.pop _).trans (.push _ (Opcode.unwinds_of_isPlain hop)))
  | mark _ _ ih => exact Code.Undisturbed.trans ih (.mark _)
  | skip hj _ ih =>
      refine (Code.Undisturbed.emit _ ?_ 1 0 .none).trans (Code.Undisturbed.trans ih (.patch _ _ _))
      rcases hj with rfl | rfl <;> rfl
  | choose _ _ ih ih' =>
      have jmpz : Opcode.jmpz.unwinds = false := rfl
      have jmp : Opcode.jmp.unwinds = false := rfl
      have yes := (Code.Undisturbed.emit _ jmpz 0 0 .none).trans ih
      have no := (Code.Undisturbed.emit _ jmp 0 0 .none).trans (Code.Undisturbed.trans (.patch _ _ _) ih')
      exact (yes.trans no).trans (.patch _ _ _)
  | discard _ ih => exact Code.Undisturbed.trans ih (.take _ _)
  | thunk | body => exact .refl _
  | statics _ ih | static _ _ _ ih | owned _ _ _ _ ih | file _ _ ih | lost _ _ _ ih => exact ih
  | _ => trivial

theorem Emitted.calm {F : Code} {m : Gen Unit} {i j : Nat} (hm : Gen.Valued m) (h : Emitted F m i j) : F.Calm i j := by
  obtain ⟨s, rfl, rfl, -, hF⟩ := h
  intro n x hi hj hx
  rw [hF n hi hj] at hx
  refine Bool.eq_false_iff.mpr fun hunwinds => ?_
  have before := (hm s).calms n x.op (by rw [hx]; rfl) hunwinds
  rw [Array.getElem?_eq_none hi] at before
  cases before

end StackScript
