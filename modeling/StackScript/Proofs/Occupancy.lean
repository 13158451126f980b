/-
Where the code of a statement lies.

`Stmt.Occupies` says of a finished container that a statement takes it up from one index to another: the
parts of the statement lie one behind the other, with nothing between them but what the construct adds,
and every jump has its target.  It is one definition by cases of the statement, so the layout of a
construct can be read there without following how its code is generated.  A switch without a body and a
`foreach` that binds nothing are laid out only where their problem is no error.

Code that fills a container of its own, as the body of a function does, is no part of the statement around
it; such bodies are told apart in `Proofs/Nesting.lean`.
-/
import StackScript.Proofs.Code
import StackScript.Proofs.Kept
import StackScript.Proofs.Walk

namespace StackScript

open Gen

/-- A container holds from one index to another just what a generator has added, which has reported no
error in doing so. -/
def Emitted (F : Code) (m : Gen Unit) (i j : Nat) : Prop :=
  ∃ s : GenState, s.code.size = i ∧ (after m s).code.size = j ∧ (after m s).errors = s.errors ∧
    Holds F i (after m s).code

namespace Code

/-- At an index stands a jump to a target. -/
def JumpsAt (F : Code) (op : Opcode) (p3 : Operand) (i target : Nat) : Prop :=
  ∃ x, F[i]? = some x ∧ x.op = op ∧ x.p1 = 0 ∧ x.p2 = target ∧ x.p3 = p3

end Code

/-- The guard in an entry of a switch is the code of an expression. -/
def CaseEntry.Guards (e : CaseEntry) (line : Nat) (guard : Expr) : Prop :=
  ∃ s, result (thunk line guard.isPresent (guard.gen {} none)) s = e.guard

/-- The sections of a switch start at `first` or behind it, none of them behind `out`, and no case before an
earlier one. -/
structure Ascends (cases : List CaseEntry) (default? : Option Nat) (first out : Nat) : Prop where
  ascending : cases.Pairwise fun e e' => e.start ≤ e'.start
  bounds : ∀ e ∈ cases, first ≤ e.start ∧ e.start ≤ out
  fallback : ∀ start, default? = some start → first ≤ start ∧ start ≤ out

section Occupies

variable (p : Program) (F : Code)

mutual

/-- The code of a statement takes up a container from one index to another. -/
def Stmt.Occupies : Stmt → Exits → Nat → Nat → Prop
  | .sequence items, exits, i, j | .block items _, exits, i, j | .namespace_ _ items, exits, i, j =>
    Stmt.AllOccupy items exits i j
  | .onLine _ body, exits, i, j => body.Occupies exits i j
  | .conditional chain, exits, i, j => chain.Occupies exits j i j
  | .switch subject _ sections _, exits, i, j =>
    ∃ k id table, Emitted F (subject.gen {} none) i k ∧ F.JumpsAt .switch (.switch id) k 0 ∧
      p.switches[id]? = some table ∧ table.out = j ∧ Ascends table.cases table.default? (k + 1) j ∧
      Section.AllOccupy sections (exits.inner j j) table.cases table.default? (k + 1) j
  | .switchWithoutBody subject _ r, _, i, j => r.problem.severity ≠ .error ∧ Emitted F (subject.gen {} none) i j
  | .whileLoop test _ body, exits, i, j =>
    ∃ m n, Emitted F (test.gen {} none) i m ∧ F.JumpsAt .jmpz .none m j ∧
      body.Occupies (exits.inner j i) (m + 1) n ∧ F.JumpsAt .jmp .none n i ∧ j = n + 1
  | .doLoop body test _, exits, i, j =>
    ∃ m n, body.Occupies (exits.inner j m) i m ∧ Emitted F (test.gen {} none) m n ∧
      F.JumpsAt .jmpnz .none n i ∧ j = n + 1
  | .doWithoutTest body _, exits, i, j => body.Occupies (exits.inner j j) i j
  | .forLoop _ init test _ body post _, exits, i, j =>
    ∃ f l m n k, init.Occupies exits i f ∧ Emitted F (test.gen {} none) f l ∧
      (if test.isPresent then F.JumpsAt .jmpz .none l j ∧ m = l + 1 else m = l) ∧
      body.Occupies (exits.inner j n) m n ∧ Emitted F (expression post.isPresent (post.gen {} none)) n k ∧
      F.JumpsAt .jmp .none k f ∧ j = k + 1
  | .foreach _ source _ head, exits, i, j =>
    ∃ k, Emitted F (source.gen {} none) i k ∧ head.Occupies none exits k j
  | .tryCatch body _ _, exits, i, j =>
    ∃ id n, F.JumpsAt .loadException (.exception id) i n ∧ body.Occupies exits (i + 1) n ∧
      F.JumpsAt .popException (.exception id) n 0 ∧ j = n + 1
  | .throw _ value, _, i, j =>
    ∃ k target, Emitted F (value.gen {} (some .throwable)) i k ∧ F.JumpsAt .throw .none k target ∧ j = k + 1
  | .loopJump kind _ level _, exits, i, j =>
    ∃ target, exits kind level = some target ∧ F.JumpsAt .jmp .none i target ∧ j = i + 1
  | .empty, _, i, j => j = i
  | .report r, _, i, j => Emitted F (Stmt.gen (.report r)) i j
  | .raw text, _, i, j => Emitted F (Stmt.gen (.raw text)) i j
  | .expression value, _, i, j => Emitted F (Stmt.gen (.expression value)) i j
  | .return_ value, _, i, j => Emitted F (Stmt.gen (.return_ value)) i j
  | .exit value, _, i, j => Emitted F (Stmt.gen (.exit value)) i j
  | .constant name line value, _, i, j => Emitted F (Stmt.gen (.constant name line value)) i j
  | .declaration type items fault, _, i, j => Emitted F (Stmt.gen (.declaration type items fault)) i j
  | .using_ line, _, i, j => Emitted F (Stmt.gen (.using_ line)) i j
  | .function head params fault body, _, i, j => Emitted F (Stmt.gen (.function head params fault body)) i j
  | .class_ head members fault, _, i, j => Emitted F (Stmt.gen (.class_ head members fault)) i j

/-- The statements lie one behind the other. -/
def Stmt.AllOccupy : List Stmt → Exits → Nat → Nat → Prop
  | [], _, i, j => j = i
  | s :: ss, exits, i, j => ∃ m, s.Occupies exits i m ∧ Stmt.AllOccupy ss exits m j

/-- The branches of a conditional that ends at `out`. -/
def Chain.Occupies : Chain → Exits → Nat → Nat → Nat → Prop
  | .branch test _ body rest, exits, out, i, j =>
    ∃ m n l, Emitted F (test.gen {} none) i m ∧ F.JumpsAt .jmpz .none m l ∧ body.Occupies exits (m + 1) n ∧
      (if rest.isDone then l = n else F.JumpsAt .jmp .none n out ∧ l = n + 1) ∧ rest.Occupies exits out l j
  | .otherwise body, exits, _, i, j => body.Occupies exits i j
  | .malformed _, _, _, i, j => j = i
  | .done, _, _, i, j => j = i

/-- The bodies of the sections lie one behind the other, and the cases of a table are theirs in this
order.  Of several default sections the first one counts. -/
def Section.AllOccupy : List Section → Exits → List CaseEntry → Option Nat → Nat → Nat → Prop
  | [], _, cases, default?, i, j => cases = [] ∧ default? = none ∧ j = i
  | .case_ line guard _ body :: sections, exits, cases, default?, i, j =>
    ∃ e es m, cases = e :: es ∧ e.Guards line guard ∧ e.start = i ∧ Stmt.AllOccupy body exits i m ∧
      Section.AllOccupy sections exits es default? m j
  | .default_ _ _ body :: sections, exits, cases, default?, i, j =>
    ∃ rest m, default? = some i ∧ Stmt.AllOccupy body exits i m ∧
      Section.AllOccupy sections exits cases rest m j

/-- The loop over a source whose code ends at `i`.  What its variables are bound to leaves no code. -/
def ForeachHead.Occupies : ForeachHead → Option String → Exits → Nat → Nat → Prop
  | .malformed problem, _, _, i, j => problem.severity ≠ .error ∧ j = i
  | .unbound _ _, _, _, _, _ => False
  | .key name _ rest, _, exits, i, j => rest.Occupies (some name) exits i j
  | .value byRef name _ body, key, exits, i, j =>
    ∃ id n, p.foreachs[id]? = some ⟨key, name, byRef⟩ ∧ F.JumpsAt .foreachInit (.foreach id) i j ∧
      F.JumpsAt .foreachStep (.foreach id) (i + 1) j ∧ body.Occupies (exits.inner j (i + 1)) (i + 2) n ∧
      F.JumpsAt .jmp .none n (i + 1) ∧ j = n + 1

end

end Occupies

/-! ### Code grows -/

theorem Emitted.le {F : Code} {m : Gen Unit} {i j : Nat} (h : Emitted F m i j) (hm : ∀ s, Frame s (after m s)) : i ≤ j := by
  obtain ⟨s, rfl, rfl, -, -⟩ := h
  exact (hm s).grows

/-- An expression and a statement are generated behind what is there. -/
theorem Emitted.le_expr {F : Code} {access : Access} {restriction : Option Restriction} {e : Expr} {i j : Nat}
    (h : Emitted F (e.gen access restriction) i j) : i ≤ j := h.le fun s => (Expr.valued_gen access restriction e s).frame

theorem Emitted.le_stmt {F : Code} {s : Stmt} {i j : Nat} (h : Emitted F s.gen i j) : i ≤ j :=
  h.le fun t => (Stmt.flows_gen s t).frame

namespace Ascends

variable {cases : List CaseEntry} {default? : Option Nat} {first first' out : Nat}

theorem nil : Ascends [] none first out := ⟨.nil, nofun, nofun⟩

/-- The table with a case in front. -/
theorem cons {e : CaseEntry} (h : Ascends cases default? first' out) (hle : e.start ≤ first') (hout : first' ≤ out) :
    Ascends (e :: cases) default? e.start out where
  ascending := List.pairwise_cons.mpr ⟨fun e' he' => Nat.le_trans hle (h.bounds e' he').1, h.ascending⟩
  bounds := by
    intro e' he'
    rcases List.mem_cons.mp he' with rfl | he'
    · exact ⟨Nat.le_refl _, Nat.le_trans hle hout⟩
    · exact ⟨Nat.le_trans hle (h.bounds e' he').1, (h.bounds e' he').2⟩
  fallback := fun start hstart => ⟨Nat.le_trans hle (h.fallback start hstart).1, (h.fallback start hstart).2⟩

/-- The table with a default section in front. -/
theorem default (h : Ascends cases default? first' out) (hle : first ≤ first') (hout : first' ≤ out) :
    Ascends cases (some first) first out where
  ascending := h.ascending
  bounds := fun e he => ⟨Nat.le_trans hle (h.bounds e he).1, (h.bounds e he).2⟩
  fallback := by
    intro start hstart
    cases hstart
    exact ⟨Nat.le_refl _, Nat.le_trans hle hout⟩

end Ascends

section Extent

variable {p : Program} {F : Code}

mutual

/-- Code is taken up forwards. -/
theorem Stmt.le_of_occupies : (s : Stmt) → ∀ {exits i j}, s.Occupies p F exits i j → i ≤ j
  | .sequence items, exits, i, j, h | .block items _, exits, i, j, h | .namespace_ _ items, exits, i, j, h =>
    Stmt.le_of_allOccupy items h
  | .onLine _ body, exits, i, j, h => Stmt.le_of_occupies body h
  | .conditional chain, exits, i, j, h => Chain.le_of_occupies chain h
  | .switch subject _ sections _, exits, i, j, h => by
    obtain ⟨k, id, table, hsubject, -, -, -, -, hsections⟩ := h
    have := hsubject.le_expr
    have := (Section.ascends_of_allOccupy sections hsections).1
    omega
  | .switchWithoutBody subject _ _, exits, i, j, h => h.2.le_expr
  | .whileLoop test _ body, exits, i, j, h => by
    obtain ⟨m, n, htest, -, hbody, -, rfl⟩ := h
    have := htest.le_expr
    have := Stmt.le_of_occupies body hbody
    omega
  | .doLoop body test _, exits, i, j, h => by
    obtain ⟨m, n, hbody, htest, -, rfl⟩ := h
    have := Stmt.le_of_occupies body hbody
    have := htest.le_expr
    omega
  | .doWithoutTest body _, exits, i, j, h => Stmt.le_of_occupies body h
  | .forLoop _ init test _ body post _, exits, i, j, h => by
    obtain ⟨f, l, m, n, k, hinit, htest, hexit, hbody, hpost, -, rfl⟩ := h
    have := Stmt.le_of_occupies init hinit
    have := htest.le_expr
    have : l ≤ m := by
      split at hexit
      · omega
      · omega
    have := Stmt.le_of_occupies body hbody
    have := hpost.le fun s => (valued_expression post.isPresent (Expr.valued_gen {} none post) s).frame
    omega
  | .foreach _ source _ head, exits, i, j, h => by
    obtain ⟨k, hsource, hhead⟩ := h
    have := hsource.le_expr
    have := ForeachHead.le_of_occupies head hhead
    omega
  | .tryCatch body _ _, exits, i, j, h => by
    obtain ⟨id, n, -, hbody, -, rfl⟩ := h
    have := Stmt.le_of_occupies body hbody
    omega
  | .throw _ value, exits, i, j, h => by
    obtain ⟨k, target, hvalue, -, rfl⟩ := h
    have := hvalue.le_expr
    omega
  | .loopJump _ _ _ _, exits, i, j, h => by
    obtain ⟨target, -, -, rfl⟩ := h
    omega
  | .empty, exits, i, j, h => Nat.le_of_eq h.symm
  | .report _, exits, i, j, h | .raw _, exits, i, j, h | .expression _, exits, i, j, h | .return_ _, exits, i, j, h
  | .exit _, exits, i, j, h | .constant _ _ _, exits, i, j, h | .declaration _ _ _, exits, i, j, h
  | .using_ _, exits, i, j, h | .function _ _ _ _, exits, i, j, h | .class_ _ _ _, exits, i, j, h => h.le_stmt

theorem Stmt.le_of_allOccupy : (ss : List Stmt) → ∀ {exits i j}, Stmt.AllOccupy p F ss exits i j → i ≤ j
  | [], exits, i, j, h => Nat.le_of_eq h.symm
  | s :: ss, exits, i, j, h => by
    obtain ⟨m, hs, hss⟩ := h
    exact Nat.le_trans (Stmt.le_of_occupies s hs) (Stmt.le_of_allOccupy ss hss)

theorem Chain.le_of_occupies : (c : Chain) → ∀ {exits out i j}, c.Occupies p F exits out i j → i ≤ j
  | .branch test _ body rest, exits, out, i, j, h => by
    obtain ⟨m, n, l, htest, -, hbody, hover, hrest⟩ := h
    have := htest.le_expr
    have := Stmt.le_of_occupies body hbody
    have : n ≤ l := by
      split at hover
      · omega
      · omega
    have := Chain.le_of_occupies rest hrest
    omega
  | .otherwise body, exits, out, i, j, h => Stmt.le_of_occupies body h
  | .malformed _, exits, out, i, j, h | .done, exits, out, i, j, h => Nat.le_of_eq h.symm

/-- The starts of the sections ascend. -/
theorem Section.ascends_of_allOccupy : (ss : List Section) → ∀ {exits cases default? i j},
    Section.AllOccupy p F ss exits cases default? i j → i ≤ j ∧ Ascends cases default? i j
  | [], exits, cases, default?, i, j, h => by
    obtain ⟨rfl, rfl, rfl⟩ := h
    exact ⟨Nat.le_refl _, .nil⟩
  | .case_ _ _ _ body :: ss, exits, cases, default?, i, j, h => by
    obtain ⟨e, es, m, rfl, -, rfl, hbody, hss⟩ := h
    have hle := Stmt.le_of_allOccupy body hbody
    obtain ⟨hle', ascends⟩ := Section.ascends_of_allOccupy ss hss
    exact ⟨Nat.le_trans hle hle', ascends.cons hle hle'⟩
  | .default_ _ _ body :: ss, exits, cases, default?, i, j, h => by
    obtain ⟨rest, m, rfl, hbody, hss⟩ := h
    have hle := Stmt.le_of_allOccupy body hbody
    obtain ⟨hle', ascends⟩ := Section.ascends_of_allOccupy ss hss
    exact ⟨Nat.le_trans hle hle', ascends.default hle hle'⟩

theorem ForeachHead.le_of_occupies : (h : ForeachHead) → ∀ {key exits i j}, h.Occupies p F key exits i j → i ≤ j
  | .malformed _, key, exits, i, j, h => Nat.le_of_eq h.2.symm
  | .unbound _ _, key, exits, i, j, h => h.elim
  | .key name _ rest, key, exits, i, j, h => ForeachHead.le_of_occupies rest h
  | .value _ _ _ body, key, exits, i, j, h => by
    obtain ⟨id, n, -, -, -, hbody, -, rfl⟩ := h
    have := Stmt.le_of_occupies body hbody
    omega

end

end Extent

end StackScript
