/-
Code that fits a script is walked through like the script.

`Stmt.Fits` says where in some code the parts of a statement lie and where its jumps go.  On such code the
walker makes the steps that the statement makes, and gets where the statement gets: behind it, or to the
target of the jump it ends with.  A loop that has used up its fuel has made at least as many moves, so a
script that never ends is walked through without end.
-/
import StackScript.Proofs.Structured

namespace StackScript

/-- Where the jumps on the enclosing loops go, as far as there are such loops. -/
abbrev Exits := LoopJump → Nat → Option Nat

namespace Exits

/-- The jumps inside a loop. -/
def inner (exits : Exits) (out again : Nat) : Exits := fun kind level =>
  if level ≤ 1 then
    match kind with
    | .break_ => some out
    | .continue_ => some again
  else exits kind (level - 1)

end Exits

namespace Sheet

variable (S : Sheet)

/-- The code of an expression lies between two indices. -/
def Passes (e : Expr) (i j : Nat) : Prop := S.at? i = some ⟨i, j, e⟩

/-- At an index stands a jump that keeps no value. -/
def Jumps (op : Opcode) (i target : Nat) : Prop :=
  S.at? i = none ∧ ∃ x, S.code[i]? = some x ∧ x.op = op ∧ x.p1 = 0 ∧ x.p2 = target

/-- At an index a value is dropped. -/
def Drops (i : Nat) : Prop := S.at? i = none ∧ ∃ x, S.code[i]? = some x ∧ x.op = .pop ∧ x.p1 = 1

end Sheet

namespace Expr

/-- An expression whose value is dropped. -/
def Fits (S : Sheet) (e : Expr) (i j : Nat) : Prop :=
  if e.isPresent then ∃ m, S.Passes e i m ∧ S.Drops m ∧ j = m + 1 else j = i

/-- A condition with a jump out of the loop, if there is one. -/
def FitsTest (S : Sheet) (e : Expr) (out i j : Nat) : Prop :=
  if e.isPresent then ∃ m, S.Passes e i m ∧ S.Jumps .jmpz m out ∧ j = m + 1 else j = i

end Expr

mutual

/-- The code of a statement lies between two indices. -/
def Stmt.Fits (S : Sheet) : Stmt → Exits → Nat → Nat → Prop
  | .expression value, _, i, j => value.Fits S i j
  | .sequence items, exits, i, j | .block items _, exits, i, j => Stmt.AllFit S items exits i j
  | .onLine _ body, exits, i, j => body.Fits S exits i j
  | .conditional chain, exits, i, j => chain.Fits S exits j i j
  | .whileLoop test _ body, exits, i, j =>
    ∃ m n, S.Passes test i m ∧ S.Jumps .jmpz m j ∧ body.Fits S (exits.inner j i) (m + 1) n ∧
      S.Jumps .jmp n i ∧ j = n + 1
  | .doLoop body test _, exits, i, j =>
    ∃ m n, body.Fits S (exits.inner j m) i m ∧ S.Passes test m n ∧ S.Jumps .jmpnz n i ∧ j = n + 1
  | .forLoop _ init test _ body post _, exits, i, j =>
    ∃ f m n l, init.Fits S exits i f ∧ test.FitsTest S j f m ∧ body.Fits S (exits.inner j n) m n ∧
      post.Fits S n l ∧ S.Jumps .jmp l f ∧ j = l + 1
  | .loopJump kind _ level _, exits, i, j => ∃ l, exits kind level = some l ∧ S.Jumps .jmp i l ∧ j = i + 1
  | _, _, i, j => j = i

def Stmt.AllFit (S : Sheet) : List Stmt → Exits → Nat → Nat → Prop
  | [], _, i, j => j = i
  | s :: ss, exits, i, j => ∃ m, s.Fits S exits i m ∧ Stmt.AllFit S ss exits m j

/-- The branches of a conditional that ends at `out`. -/
def Chain.Fits (S : Sheet) : Chain → Exits → Nat → Nat → Nat → Prop
  | .branch test _ body rest, exits, out, i, j =>
    ∃ m n l, S.Passes test i m ∧ S.Jumps .jmpz m l ∧ body.Fits S exits (m + 1) n ∧
      (if rest.isDone then l = n else S.Jumps .jmp n out ∧ l = n + 1) ∧ rest.Fits S exits out l j
  | .otherwise body, exits, _, i, j => body.Fits S exits i j
  | _, _, _, i, j => j = i

end

namespace Sheet

variable {S : Sheet} {ask : Oracle}

/-! ### Moves -/

theorem moves_add {k n : Nat} {w w' w'' : Walker} (h : S.moves ask k w = some w') (h' : S.moves ask n w' = some w'') :
    S.moves ask (k + n) w = some w'' := by
  induction k generalizing w with
  | zero =>
      cases h
      rw [Nat.zero_add]
      exact h'
  | succ k ih =>
      rw [moves] at h
      obtain ⟨v, hv, h⟩ := Option.bind_eq_some_iff.mp h
      rw [Nat.succ_add, moves, hv]
      exact ih h

theorem moves_one (w : Walker) : S.moves ask 1 w = S.move ask w := by
  rw [moves]
  cases S.move ask w <;> rfl

theorem Passes.moves {e : Expr} {i j : Nat} (h : S.Passes e i j) (stack : List Bool) (trace : List Expr) :
    S.moves ask 1 ⟨i, stack, trace⟩ = some ⟨j, ask (trace ++ [e]) :: stack, trace ++ [e]⟩ := by
  unfold Passes at h
  rw [moves_one, move, h]

/-- An instruction that belongs to no expression. -/
theorem moves_exec {i : Nat} {x : Instruction} (hnone : S.at? i = none) (hx : S.code[i]? = some x)
    (stack : List Bool) (trace : List Expr) :
    S.moves ask 1 ⟨i, stack, trace⟩ = Walker.exec x ⟨i, stack, trace⟩ := by
  rw [moves_one, move, hnone]
  dsimp only
  rw [hx]
  rfl

theorem Jumps.moves {i target : Nat} (h : S.Jumps .jmp i target) (stack : List Bool) (trace : List Expr) :
    S.moves ask 1 ⟨i, stack, trace⟩ = some ⟨target, stack, trace⟩ := by
  obtain ⟨hnone, x, hx, hop, -, rfl⟩ := h
  rw [moves_exec hnone hx, Walker.exec, hop]

theorem Jumps.moves_jmpz {i target : Nat} (h : S.Jumps .jmpz i target) (v : Bool) (stack : List Bool)
    (trace : List Expr) :
    S.moves ask 1 ⟨i, v :: stack, trace⟩ = some ⟨if v then i + 1 else target, stack, trace⟩ := by
  obtain ⟨hnone, x, hx, hop, hp1, rfl⟩ := h
  rw [moves_exec hnone hx, Walker.exec, hop]
  cases v <;> simp [Walker.branch, hp1]

theorem Jumps.moves_jmpnz {i target : Nat} (h : S.Jumps .jmpnz i target) (v : Bool) (stack : List Bool)
    (trace : List Expr) :
    S.moves ask 1 ⟨i, v :: stack, trace⟩ = some ⟨if v then target else i + 1, stack, trace⟩ := by
  obtain ⟨hnone, x, hx, hop, hp1, rfl⟩ := h
  rw [moves_exec hnone hx, Walker.exec, hop]
  cases v <;> simp [Walker.branch, hp1]

theorem Drops.moves {i : Nat} (h : S.Drops i) (v : Bool) (stack : List Bool) (trace : List Expr) :
    S.moves ask 1 ⟨i, v :: stack, trace⟩ = some ⟨i + 1, stack, trace⟩ := by
  obtain ⟨hnone, x, hx, hop, hp1⟩ := h
  rw [moves_exec hnone hx, Walker.exec, hop]
  simp [hp1]

/-- A condition and the jump behind it. -/
theorem moves_test {e : Expr} {i m target : Nat} (h : S.Passes e i m) (h' : S.Jumps .jmpz m target)
    (stack : List Bool) (trace : List Expr) :
    S.moves ask 2 ⟨i, stack, trace⟩ =
      some ⟨if ask (trace ++ [e]) then m + 1 else target, stack, trace ++ [e]⟩ :=
  moves_add (h.moves stack trace) (h'.moves_jmpz _ stack _)

/-! ### Getting where a statement gets -/

/-- The walker makes the steps of a statement, and gets behind it or to the target of its last jump.  Where
the statement runs out of fuel, the walker has made at least so many moves. -/
def Follows (S : Sheet) (ask : Oracle) (w : Walker) (p : Progress) (exits : Exits) (stop fuel : Nat) : Prop :=
  ∃ n w', S.moves ask n w = some w' ∧ w'.trace = p.trace ∧
    match p.ending with
    | .normal => w'.pc = stop ∧ w'.stack = w.stack
    | .jump kind level => exits kind level = some w'.pc ∧ w'.stack = w.stack
    | .unfinished => fuel ≤ n

/-- The same of one round of a loop that starts at `first`: another round comes after at least `least`
moves. -/
def Turns (S : Sheet) (ask : Oracle) (w : Walker) (r : Round) (exits : Exits) (first stop fuel least : Nat) : Prop :=
  match r with
  | .again trace => ∃ n, least ≤ n ∧ S.moves ask n w = some ⟨first, w.stack, trace⟩
  | .out p => S.Follows ask w p exits stop fuel

namespace Follows

variable {w w' : Walker} {p : Progress} {exits : Exits} {mid stop fuel : Nat}

theorem stay (stack : List Bool) (trace : List Expr) :
    S.Follows ask ⟨stop, stack, trace⟩ ⟨.normal, trace⟩ exits stop fuel :=
  ⟨0, _, rfl, rfl, rfl, rfl⟩

/-- Some moves in front. -/
theorem behind {k f : Nat} (h : S.Follows ask w' p exits stop f) (hk : S.moves ask k w = some w')
    (hstack : w'.stack = w.stack) (hf : fuel ≤ k + f) : S.Follows ask w p exits stop fuel := by
  obtain ⟨n, v, hn, htrace, hend⟩ := h
  refine ⟨k + n, v, moves_add hk hn, htrace, ?_⟩
  cases hp : p.ending with
  | normal =>
      rw [hp] at hend
      exact ⟨hend.1, hend.2.trans hstack⟩
  | jump kind level =>
      rw [hp] at hend
      exact ⟨hend.1, hend.2.trans hstack⟩
  | unfinished =>
      rw [hp] at hend
      have : f ≤ n := hend
      show fuel ≤ k + n
      omega

theorem andThen {next : List Expr → Progress} (h : S.Follows ask w p exits mid fuel)
    (hnext : ∀ trace, S.Follows ask ⟨mid, w.stack, trace⟩ (next trace) exits stop fuel) :
    S.Follows ask w (p.andThen next) exits stop fuel := by
  obtain ⟨n, ⟨pc, stack, trace⟩, hn, htrace, hend⟩ := h
  unfold Progress.andThen
  cases hp : p.ending with
  | normal =>
      rw [hp] at hend
      obtain ⟨rfl, rfl⟩ := hend
      dsimp only at htrace ⊢
      rw [← htrace]
      exact (hnext trace).behind hn rfl (Nat.le_add_left _ _)
  | jump kind level =>
      refine ⟨n, _, hn, htrace, ?_⟩
      rw [hp] at hend ⊢
      exact hend
  | unfinished =>
      refine ⟨n, _, hn, htrace, ?_⟩
      rw [hp] at hend ⊢
      exact hend

end Follows

namespace Turns

variable {w w' : Walker} {r : Round} {exits : Exits} {first stop fuel least : Nat}

theorem behind {k l : Nat} (h : S.Turns ask w' r exits first stop fuel l) (hk : S.moves ask k w = some w')
    (hstack : w'.stack = w.stack) (hl : least ≤ k + l) : S.Turns ask w r exits first stop fuel least := by
  cases r with
  | again trace =>
      obtain ⟨n, hn, hmoves⟩ := h
      rw [hstack] at hmoves
      exact ⟨k + n, by omega, moves_add hk hmoves⟩
  | out p => exact Follows.behind h hk hstack (Nat.le_add_left _ _)

/-- The body of a loop, behind which control gets to where `continue` goes. -/
theorem inLoop {p : Progress} {next : List Expr → Round} {again stop' : Nat}
    (h : S.Follows ask w p (exits.inner stop again) stop' fuel)
    (hagain : ∀ trace, ∃ k, S.moves ask k ⟨stop', w.stack, trace⟩ = some ⟨again, w.stack, trace⟩)
    (hnext : ∀ trace, S.Turns ask ⟨again, w.stack, trace⟩ (next trace) exits first stop fuel least) :
    S.Turns ask w (p.inLoop next) exits first stop fuel least := by
  obtain ⟨n, ⟨pc, stack, trace⟩, hn, htrace, hend⟩ := h
  dsimp only at htrace
  unfold Progress.inLoop
  cases hp : p.ending with
  | normal =>
      rw [hp] at hend
      obtain ⟨rfl, rfl⟩ := hend
      obtain ⟨k, hk⟩ := hagain trace
      dsimp only
      rw [← htrace]
      exact (hnext trace).behind (moves_add hn hk) rfl (Nat.le_add_left _ _)
  | jump kind level =>
      rw [hp] at hend
      obtain ⟨hexit, rfl⟩ := hend
      unfold Exits.inner at hexit
      by_cases hlevel : level ≤ 1
      · rw [if_pos hlevel] at hexit
        cases kind with
        | break_ =>
            simp only [if_pos hlevel]
            cases hexit
            exact ⟨n, _, hn, htrace, rfl, rfl⟩
        | continue_ =>
            simp only [if_pos hlevel]
            cases hexit
            rw [← htrace]
            exact (hnext trace).behind hn rfl (Nat.le_add_left _ _)
      · rw [if_neg hlevel] at hexit
        cases kind with
        | break_ =>
            simp only [if_neg hlevel]
            exact ⟨n, _, hn, htrace, hexit, rfl⟩
        | continue_ =>
            simp only [if_neg hlevel]
            exact ⟨n, _, hn, htrace, hexit, rfl⟩
  | unfinished =>
      rw [hp] at hend
      refine ⟨n, _, hn, htrace, ?_⟩
      rw [hp]
      exact hend

end Turns

/-- A loop is followed when each of its rounds is, with at least one move for each. -/
theorem follows_rounds {round : Nat → List Expr → Round} {exits : Exits} {first stop : Nat} {stack : List Bool}
    (h : ∀ n trace, S.Turns ask ⟨first, stack, trace⟩ (round (n + 1) trace) exits first stop (n + 1) 1)
    (fuel : Nat) (trace : List Expr) :
    S.Follows ask ⟨first, stack, trace⟩ (rounds round fuel trace) exits stop fuel := by
  induction fuel generalizing trace with
  | zero => exact ⟨0, _, rfl, rfl, Nat.le_refl 0⟩
  | succ n ih =>
      have turn := h n trace
      rw [rounds]
      cases hr : round (n + 1) trace with
      | again trace' =>
          rw [hr] at turn
          obtain ⟨k, hk, hmoves⟩ := turn
          exact (ih trace').behind hmoves rfl (by omega)
      | out p =>
          rw [hr] at turn
          exact turn

theorem follows_expression {e : Expr} {i j fuel : Nat} {exits : Exits} (h : e.Fits S i j) (stack : List Bool)
    (trace : List Expr) : S.Follows ask ⟨i, stack, trace⟩ ⟨.normal, e.take trace⟩ exits j fuel := by
  unfold Expr.Fits at h
  unfold Expr.take
  split at h
  · rename_i hpresent
    obtain ⟨m, hpass, hdrop, rfl⟩ := h
    rw [if_pos hpresent]
    exact ⟨2, _, moves_add (hpass.moves stack trace) (hdrop.moves _ stack _), rfl, rfl, rfl⟩
  · rename_i hpresent
    subst h
    rw [if_neg hpresent]
    exact .stay stack trace

/-- The test of a loop that may have none: control goes on behind it or leaves the loop. -/
theorem turns_test {e : Expr} {i m stop fuel first least : Nat} {exits : Exits} {stack : List Bool}
    {trace : List Expr} {r : Round} (h : e.FitsTest S stop i m)
    (hr : S.Turns ask ⟨m, stack, e.take trace⟩ r exits first stop fuel least) :
    S.Turns ask ⟨i, stack, trace⟩
      (if !e.isPresent || ask (e.take trace) then r else .out ⟨.normal, e.take trace⟩)
      exits first stop fuel least := by
  unfold Expr.FitsTest at h
  unfold Expr.take at hr ⊢
  cases hpresent : e.isPresent with
  | false =>
      rw [hpresent] at h hr
      obtain rfl : m = i := h
      exact hr
  | true =>
      rw [hpresent] at h hr
      obtain ⟨m, hpass, hjump, rfl⟩ := h
      have moved : S.moves ask 2 ⟨i, stack, trace⟩ = _ := moves_test hpass hjump stack trace
      simp only [Bool.not_true, Bool.false_or, if_true] at hr ⊢
      cases hask : ask (trace ++ [e]) with
      | true =>
          rw [hask] at moved
          exact hr.behind moved rfl (Nat.le_add_left _ _)
      | false =>
          rw [hask] at moved
          exact ⟨2, _, moved, rfl, rfl, rfl⟩

end Sheet

open Sheet

mutual

/-- On code that fits a statement the walker follows it. -/
theorem Stmt.follows {S : Sheet} {ask : Oracle} {exits : Exits} {i j : Nat} : (s : Stmt) → s.Fits S exits i j →
    ∀ (fuel : Nat) (stack : List Bool) (trace : List Expr),
      S.Follows ask ⟨i, stack, trace⟩ (s.exec ask fuel trace) exits j fuel
  | .expression value, h => by
      intro fuel stack trace
      exact follows_expression h stack trace
  | .sequence items, h | .block items _, h => by
      intro fuel stack trace
      exact Stmt.follows_all items h fuel stack trace
  | .onLine _ body, h => by
      intro fuel stack trace
      exact Stmt.follows body h fuel stack trace
  | .conditional chain, h => by
      intro fuel stack trace
      exact Chain.follows chain h fuel stack trace
  | .whileLoop test _ body, h => by
      intro fuel stack trace
      obtain ⟨m, n, hpass, hout, hbody, hback, rfl⟩ := h
      refine follows_rounds (fun k trace => ?_) fuel trace
      have moved : S.moves ask 2 ⟨i, stack, trace⟩ = _ := moves_test hpass hout stack trace
      cases hask : ask (trace ++ [test]) with
      | true =>
          rw [hask] at moved
          refine Turns.behind (l := 0) ?_ moved rfl (by decide)
          exact .inLoop (Stmt.follows body hbody (k + 1) stack _) (fun trace => ⟨1, hback.moves stack trace⟩)
            fun trace => ⟨0, Nat.le_refl 0, rfl⟩
      | false =>
          rw [hask] at moved
          exact ⟨2, _, moved, rfl, rfl, rfl⟩
  | .doLoop body test _, h => by
      intro fuel stack trace
      obtain ⟨m, n, hbody, hpass, hback, rfl⟩ := h
      refine follows_rounds (fun k trace => ?_) fuel trace
      refine .inLoop (Stmt.follows body hbody (k + 1) stack trace) (fun trace => ⟨0, rfl⟩) fun trace => ?_
      have moved : S.moves ask 2 ⟨m, stack, trace⟩ = _ :=
        moves_add (hpass.moves stack trace) (hback.moves_jmpnz _ stack _)
      cases hask : ask (trace ++ [test]) with
      | true =>
          rw [hask] at moved
          exact ⟨2, by decide, moved⟩
      | false =>
          rw [hask] at moved
          exact ⟨2, _, moved, rfl, rfl, rfl⟩
  | .forLoop _ init test _ body post _, h => by
      intro fuel stack trace
      obtain ⟨first, m, n, l, hinit, htest, hbody, hpost, hback, rfl⟩ := h
      refine Follows.andThen (Stmt.follows init hinit fuel stack trace) fun trace => ?_
      refine follows_rounds (fun k trace => ?_) fuel trace
      refine turns_test htest ?_
      refine .inLoop (Stmt.follows body hbody (k + 1) stack _) (fun trace => ⟨0, rfl⟩) fun trace => ?_
      have followed : S.Follows ask ⟨n, stack, trace⟩ ⟨.normal, post.take trace⟩ exits l 0 :=
        follows_expression hpost stack trace
      obtain ⟨k, ⟨pc, stack', trace'⟩, hk, htrace, hpc, hstack⟩ := followed
      dsimp only at htrace hpc hstack
      rw [htrace, hpc, hstack] at hk
      exact ⟨k + 1, Nat.le_add_left _ _, moves_add hk (hback.moves stack _)⟩
  | .loopJump kind _ level _, h => by
      intro fuel stack trace
      obtain ⟨l, hexit, hjump, rfl⟩ := h
      exact ⟨1, _, hjump.moves stack trace, rfl, hexit, rfl⟩
  | .empty, h | .report _, h | .raw _, h | .switch _ _ _ _, h | .switchWithoutBody _ _ _, h
  | .doWithoutTest _ _, h | .foreach _ _ _ _, h | .tryCatch _ _ _, h | .throw _ _, h | .return_ _, h | .exit _, h
  | .constant _ _ _, h | .declaration _ _ _, h | .namespace_ _ _, h | .using_ _, h | .function _ _ _ _, h
  | .class_ _ _ _, h => by
      intro fuel stack trace
      subst h
      exact .stay stack trace

theorem Stmt.follows_all {S : Sheet} {ask : Oracle} {exits : Exits} {i j : Nat} : (ss : List Stmt) →
    Stmt.AllFit S ss exits i j → ∀ (fuel : Nat) (stack : List Bool) (trace : List Expr),
      S.Follows ask ⟨i, stack, trace⟩ (Stmt.execAll ask ss fuel trace) exits j fuel
  | [], h => by
      intro fuel stack trace
      subst h
      exact .stay stack trace
  | s :: ss, h => by
      intro fuel stack trace
      obtain ⟨m, hs, hss⟩ := h
      exact (Stmt.follows s hs fuel stack trace).andThen (Stmt.follows_all ss hss fuel stack)

theorem Chain.follows {S : Sheet} {ask : Oracle} {exits : Exits} {out i : Nat} : (c : Chain) →
    c.Fits S exits out i out → ∀ (fuel : Nat) (stack : List Bool) (trace : List Expr),
      S.Follows ask ⟨i, stack, trace⟩ (c.exec ask fuel trace) exits out fuel
  | .branch test _ body rest, h => by
      intro fuel stack trace
      obtain ⟨m, n, l, hpass, hjump, hbody, hover, hrest⟩ := h
      rw [Chain.exec]
      have moved : S.moves ask 2 ⟨i, stack, trace⟩ = _ := moves_test hpass hjump stack trace
      cases hask : ask (trace ++ [test]) with
      | true =>
          rw [hask] at moved
          refine Follows.behind (f := fuel) ?_ moved rfl (Nat.le_add_left _ _)
          -- Behind the body the rest is jumped over, unless there is none.
          have beyond : ∀ trace, S.Follows ask ⟨n, stack, trace⟩ ⟨.normal, trace⟩ exits out fuel := by
            intro trace
            cases hdone : rest.isDone with
            | false =>
                rw [hdone] at hover
                exact ⟨1, _, hover.1.moves stack trace, rfl, rfl, rfl⟩
            | true =>
                rw [hdone] at hover
                obtain rfl : l = n := hover
                cases rest with
                | done =>
                    obtain rfl := hrest
                    exact .stay stack trace
                | branch _ _ _ _ => cases hdone
                | otherwise _ => cases hdone
                | malformed _ => cases hdone
          have followed := (Stmt.follows body hbody fuel stack (trace ++ [test])).andThen beyond
          have same : ∀ p : Progress, p.andThen (fun trace => ⟨.normal, trace⟩) = p := by
            rintro ⟨ending, trace⟩
            cases ending <;> rfl
          rw [same] at followed
          exact followed
      | false =>
          rw [hask] at moved
          exact (Chain.follows rest hrest fuel stack _).behind moved rfl (Nat.le_add_left _ _)
  | .otherwise body, h => by
      intro fuel stack trace
      exact Stmt.follows body h fuel stack trace
  | .malformed _, h | .done, h => by
      intro fuel stack trace
      subst h
      exact .stay stack trace

end

end StackScript
