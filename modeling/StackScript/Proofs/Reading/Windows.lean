/-
The windows in which trees are built.

`Level` is one level of the builder: the expressions inside groups and behind operators are not built but asked
of `call`.  The builder does what a level does that is right about smaller windows, so each of its calls works on a
window with fewer tokens, and the fuel it is given is never used up.
-/
import StackScript.Proofs.Reading.Tree

namespace StackScript

namespace Builder

/-! ### One level -/

/-- Builds an expression whose operators bind at least as tightly as the last argument, from a position on. -/
abbrev Call := Window → (pos power : Nat) → Built

namespace Level

variable (call : Call)

/-- The operand of the operator token `t`. -/
def operandOf (w : Window) (t : Token) (pos power : Nat) : Built :=
  if (w.at? pos).isNone then .error ⟨t.line, .missingOperand t.text⟩ else call w pos power

/-- All of `[start, stop)` as one expression; `none` when it is empty. -/
def enclosed (w : Window) (start : Nat) : Except TreeError (Option Node) :=
  if w.stop ≤ start then .ok none
  else do
    let (tree, pos) ← call w start 0
    match w.at? pos with
    | some t => .error ⟨t.line, .unexpectedToken t.text⟩
    | none => .ok (some tree)

/-- The arguments of a call, one in each piece. -/
def arguments (tokens : Array Token) (line : Nat) : List (Nat × Nat) → Except TreeError (List Node)
  | [] => .ok []
  | (start, stop) :: rest => do
    match ← enclosed call ⟨tokens, stop⟩ start with
    | some arg => return arg :: (← arguments tokens line rest)
    | none => .error ⟨line, .missingArgument⟩

/-- What may follow `->` and `::`: a name, reserved or not, or a tighter expression. -/
def member (w : Window) (pos power : Nat) : Built :=
  match w.at? pos with
  | none => .error ⟨w.lineAt pos, .missingMember⟩
  | some t => if t.isAny [.name, .keyword] then leaf .name pos (pos + 1) t.line else call w pos power

/-- Joins `left` with the operator token `t` at `pos` and what stands behind it. -/
def join (w : Window) (op : Operator) (t : Token) (left : Node) (pos power : Nat) : Built :=
  let start := left.place.start
  match op with
  | .call => do
    let close ← w.closing (pos + 1) .openParen .closeParen ⟨t.line, .unclosedParen⟩
    let args ← arguments call w.tokens t.line (Scan.splitCommas w.tokens (pos + 1) close)
    return (.call ⟨start, close + 1, t.line⟩ left args, close + 1)
  | .subscript => do
    let close ← w.closing (pos + 1) .openBracket .closeBracket ⟨t.line, .unclosedBracket⟩
    let place : Place := ⟨start, close + 1, t.line⟩
    match ← enclosed call ⟨w.tokens, close⟩ (pos + 1) with
    | some key => return (.index place left key, close + 1)
    | none => return (.append place left, close + 1)
  | .incr | .decr => .ok (.postfixed ⟨start, pos + 1, t.line⟩ op left, pos + 1)
  | .ternary => do
    let (yes, pos) ← operandOf call w t (pos + 1) 0
    match w.at? pos with
    | some colon =>
      if colon.is .colon then
        let (no, pos) ← operandOf call w colon (pos + 1) power
        return (.ternary ⟨start, pos, t.line⟩ left yes no, pos)
      else .error ⟨t.line, .missingColon⟩
    | none => .error ⟨t.line, .missingColon⟩
  | .arrow | .doubleColon => do
    let (member, pos) ← member call w (pos + 1) power
    return (.binary ⟨start, pos, t.line⟩ op left member, pos)
  | _ => do
    let (right, pos) ← operandOf call w t (pos + 1) power
    let place : Place := ⟨start, pos, t.line⟩
    if op.isAssignment then return (.assign place op left right, pos)
    else return (.binary place op left right, pos)

/-- Joins `left` with the operators behind it that bind at least as tightly as `power`.  Each round takes an
operator. -/
def operators : Nat → Window → (left : Node) → (pos power : Nat) → Built
  | 0, w, _, pos, _ => .error ⟨w.lineAt pos, .missingExpression⟩
  | n + 1, w, left, pos, power =>
    match w.at? pos with
    | none => .ok (left, pos)
    | some t =>
      match if t.is .openParen then some .call else t.op? with
      | none => .ok (left, pos)
      | some op =>
        match op.infixPower? with
        | none => .ok (left, pos)
        | some (leftPower, rightPower) =>
          if leftPower < power then .ok (left, pos)
          else do
            let (joined, pos) ← join call w op t left pos rightPower
            operators n w joined pos power

/-- A single operand: a leaf, a group, or an operator in front of an operand. -/
def operand (w : Window) (pos : Nat) : Built :=
  match w.at? pos with
  | none => .error ⟨w.lineAt pos, .missingExpression⟩
  | some t =>
    if t.isAny [.integer, .real] then leaf .number pos (pos + 1) t.line
    else if t.is .simpleString then leaf .simpleString pos (pos + 1) t.line
    else if t.is .template then leaf .template pos (pos + 1) t.line
    else if t.is .dollar then variableLeaf w pos t.line
    else if t.is .openParen then do
      let close ← w.closing (pos + 1) .openParen .closeParen ⟨t.line, .unclosedParen⟩
      match ← enclosed call ⟨w.tokens, close⟩ (pos + 1) with
      | some tree => return (tree, close + 1)
      | none => .error ⟨t.line, .emptyGroup⟩
    else if t.is .openBracket then bracketed w pos t.line
    else
      match t.keyword? with
      | some word => keyword w word pos t
      | none =>
        match t.op?.map Operator.asPrefix with
        | some op =>
          match op.prefixPower? with
          | some power => do
            let (x, stop) ← operandOf call w t (pos + 1) power
            return (.prefixed ⟨pos, stop, t.line⟩ op x, stop)
          | none => nameOrError w pos t
        | none => nameOrError w pos t

/-- An expression whose operators bind at least as tightly as `power`. -/
def expression (w : Window) (pos power : Nat) : Built := do
  let (first, next) ← operand call w pos
  operators call (w.stop - next + 1) w first next power

end Level

/-! ### What is behind a part -/

variable {w : Window} {n k low pos power : Nat} {built : Node × Nat}

theorem Window.moved_self (hw : w.stop ≤ w.tokens.size) : w.Moved 0 w := ⟨rfl, fun _ _ => rfl, hw, .inl rfl⟩

/-- What is built twice over one window. -/
theorem Attempts.made {high : Nat} {x : Except TreeError (Node × Nat)} (h : Attempts (Made w 0 low high) x x)
    (hx : x = .ok built) : Made w 0 low high built built := by
  subst hx
  cases h with
  | ok h => exact h

theorem made_of_operandOf (hw : w.stop ≤ w.tokens.size) (hpos : pos ≤ w.stop) {t : Token}
    (h : operandOf n w t pos power = .ok built) : Made w 0 pos w.stop built built :=
  Attempts.made ((copies n).operandOf (Window.moved_self hw) (Nat.le_refl _) t power (Nat.le_refl _) hpos) h

theorem made_of_member (hw : w.stop ≤ w.tokens.size) (hpos : pos ≤ w.stop) (h : member n w pos power = .ok built) :
    Made w 0 pos w.stop built built :=
  Attempts.made ((copies n).member (Window.moved_self hw) (Nat.le_refl _) power (Nat.le_refl _) hpos) h

theorem lt_of_operand (hw : w.stop ≤ w.tokens.size) (h : operand n w pos = .ok built) : pos < built.2 := by
  by_cases hpos : pos ≤ w.stop
  · have made := (copies n).operand (Window.moved_self hw) (Nat.le_refl w.stop) (Nat.le_refl pos) hpos
    exact (Attempts.made made h).behind
  · have ended : w.at? pos = none := if_neg (by omega)
    cases n with
    | zero => rw [operand] at h; cases h
    | succ n => rw [operand, ended] at h; cases h

theorem exists_of_bind {α β : Type} {x : Except TreeError α} {f : α → Except TreeError β} {b : β}
    (h : x >>= f = .ok b) : ∃ a, x = .ok a ∧ f a = .ok b := by
  cases x with
  | error e => cases h
  | ok a => exact ⟨a, rfl, h⟩

theorem Window.closing_bounds {start close : Nat} {opening closing : TokenClass} {error : TreeError}
    (h : w.closing start opening closing error = .ok close) : start ≤ close ∧ close < w.stop := by
  unfold Window.closing at h
  split at h
  · rename_i i hi
    cases h
    exact Scan.matching?_bounds hi
  · cases h

/-- An operator and what stands behind it take at least one token. -/
theorem lt_of_join (hw : w.stop ≤ w.tokens.size) {op : Operator} {t : Token} {left : Node} (hpos : pos < w.stop)
    (h : join (n + 1) w op t left pos power = .ok built) : pos < built.2 := by
  cases op using join_cases with
  | call =>
      rw [join] at h
      obtain ⟨close, hclose, h⟩ := exists_of_bind h
      obtain ⟨args, -, h⟩ := exists_of_bind h
      have := Window.closing_bounds hclose
      cases h
      dsimp only
      omega
  | subscript =>
      rw [join] at h
      obtain ⟨close, hclose, h⟩ := exists_of_bind h
      obtain ⟨key, -, h⟩ := exists_of_bind h
      have := Window.closing_bounds hclose
      cases key <;> cases h <;> dsimp only <;> omega
  | incr | decr =>
      rw [join] at h
      cases h
      exact Nat.lt_succ_self pos
  | ternary =>
      rw [join] at h
      obtain ⟨yes, hyes, h⟩ := exists_of_bind h
      have behind := (made_of_operandOf hw hpos hyes).behind
      obtain ⟨yes, e⟩ := yes
      dsimp only at h behind
      cases hat : w.at? e with
      | none =>
          rw [hat] at h
          cases h
      | some colon =>
          have hlt := Window.lt_of_at? hat
          rw [hat] at h
          dsimp only at h
          split at h
          · obtain ⟨no, hno, h⟩ := exists_of_bind h
            have behind' := (made_of_operandOf hw hlt hno).behind
            cases h
            dsimp only
            omega
          · cases h
  | arrow | doubleColon =>
      rw [join] at h
      obtain ⟨right, hright, h⟩ := exists_of_bind h
      have behind := (made_of_member hw hpos hright).behind
      cases h
      dsimp only
      omega
  | operand op =>
      rw [join] at h
      · obtain ⟨right, hright, h⟩ := exists_of_bind h
        have behind := (made_of_operandOf hw hpos hright).behind
        dsimp only at h
        split at h <;> cases h <;> dsimp only <;> omega
      all_goals assumption

/-! ### The builder does what a level does -/

/-- In every window of fewer than `k` tokens `call` makes what the builder makes with enough fuel. -/
def Call.Right (call : Call) (k : Nat) : Prop :=
  ∀ (w : Window) (pos power : Nat), w.stop ≤ w.tokens.size → w.stop - pos < k →
    ∀ n, 8 * (w.stop - pos) + 4 ≤ n → expression n w pos power = call w pos power

theorem bind_congr_ok {ε α β : Type} {x x' : Except ε α} {f f' : α → Except ε β} (hx : x = x')
    (hf : ∀ a, x = .ok a → f a = f' a) : x >>= f = x' >>= f' := by
  subst hx
  cases x with
  | error e => rfl
  | ok a => exact hf a rfl

section Level

variable {call : Call} (h : call.Right k) (hw : w.stop ≤ w.tokens.size)

include h hw

theorem operandOf_level (t : Token) (power : Nat) (hk : w.stop - pos < k) (hn : 8 * (w.stop - pos) + 5 ≤ n) :
    operandOf n w t pos power = Level.operandOf call w t pos power := by
  obtain ⟨n, rfl⟩ : ∃ m, n = m + 1 := ⟨n - 1, by omega⟩
  rw [operandOf, Level.operandOf, h w pos power hw hk n (by omega)]

theorem enclosed_level (hk : w.stop - pos < k) (hn : 8 * (w.stop - pos) + 5 ≤ n) :
    enclosed n w pos = Level.enclosed call w pos := by
  obtain ⟨n, rfl⟩ : ∃ m, n = m + 1 := ⟨n - 1, by omega⟩
  rw [enclosed, Level.enclosed]
  split
  · rfl
  · exact bind_congr_ok (h w pos 0 hw hk n (by omega)) fun _ _ => rfl

theorem member_level (power : Nat) (hk : w.stop - pos < k) (hn : 8 * (w.stop - pos) + 5 ≤ n) :
    member n w pos power = Level.member call w pos power := by
  obtain ⟨n, rfl⟩ : ∃ m, n = m + 1 := ⟨n - 1, by omega⟩
  rw [member, Level.member]
  cases w.at? pos with
  | none => rfl
  | some t =>
      dsimp only
      split
      · rfl
      · exact h w pos power hw hk n (by omega)

omit hw in
/-- The pieces between commas lie behind each other, so there is fuel for all of them. -/
theorem arguments_pieces (line : Nat) {is : List Nat} {start stop : Nat} (hstop : stop ≤ w.tokens.size)
    (hk : stop - start < k) (his : is.Pairwise (· < ·)) (hbounds : ∀ i ∈ is, start ≤ i ∧ i < stop)
    (hn : 8 * (stop - start) + 6 ≤ n) :
    arguments n w.tokens line (Scan.pieces start stop is) =
      Level.arguments call w.tokens line (Scan.pieces start stop is) := by
  induction is generalizing start n with
  | nil =>
      obtain ⟨n, rfl⟩ : ∃ m, n = m + 2 := ⟨n - 2, by omega⟩
      have piece : enclosed (n + 1) ⟨w.tokens, stop⟩ start = Level.enclosed call ⟨w.tokens, stop⟩ start :=
        enclosed_level h hstop hk (by dsimp only; omega)
      have rest : arguments (n + 1) w.tokens line [] = Level.arguments call w.tokens line [] := by
        rw [arguments, Level.arguments]
      rw [Scan.pieces, arguments, Level.arguments]
      refine bind_congr_ok piece fun arg _ => ?_
      cases arg with
      | none => rfl
      | some arg => exact bind_congr_ok rest fun _ _ => rfl
  | cons i is ih =>
      obtain ⟨n, rfl⟩ : ∃ m, n = m + 1 := ⟨n - 1, by omega⟩
      have first := hbounds i (by simp)
      rw [List.pairwise_cons] at his
      have piece : enclosed n ⟨w.tokens, i⟩ start = Level.enclosed call ⟨w.tokens, i⟩ start :=
        enclosed_level h (by dsimp only; omega) (by dsimp only; omega) (by dsimp only; omega)
      have rest : arguments n w.tokens line (Scan.pieces (i + 1) stop is) =
          Level.arguments call w.tokens line (Scan.pieces (i + 1) stop is) :=
        ih (by omega) his.2 (fun j hj => ⟨his.1 j hj, (hbounds j (by simp [hj])).2⟩) (by omega)
      rw [Scan.pieces, arguments, Level.arguments]
      refine bind_congr_ok piece fun arg _ => ?_
      cases arg with
      | none => rfl
      | some arg => exact bind_congr_ok rest fun _ _ => rfl

omit hw in
theorem arguments_level (line : Nat) {start stop : Nat} (hstop : stop ≤ w.tokens.size) (hk : stop - start < k)
    (hn : 8 * (stop - start) + 6 ≤ n) :
    arguments n w.tokens line (Scan.splitCommas w.tokens start stop) =
      Level.arguments call w.tokens line (Scan.splitCommas w.tokens start stop) := by
  unfold Scan.splitCommas
  split
  · obtain ⟨n, rfl⟩ : ∃ m, n = m + 1 := ⟨n - 1, by omega⟩
    rw [arguments, Level.arguments]
  · refine arguments_pieces h line hstop hk (Scan.commas_increase _ _ _) (fun i hi => ?_) hn
    have := Scan.commas_bounds hi
    omega

theorem join_level (op : Operator) (t : Token) (left : Node) (power : Nat) (hpos : pos < w.stop)
    (hk : w.stop - (pos + 1) < k) (hn : 8 * (w.stop - pos) ≤ n + 2) :
    join n w op t left pos power = Level.join call w op t left pos power := by
  obtain ⟨n, rfl⟩ : ∃ m, n = m + 1 := ⟨n - 1, by omega⟩
  have operand (t : Token) (power : Nat) :
      operandOf n w t (pos + 1) power = Level.operandOf call w t (pos + 1) power :=
    operandOf_level h hw t power hk (by omega)
  cases op using join_cases with
  | call =>
      rw [join, Level.join]
      refine bind_congr_ok rfl fun close hclose => ?_
      have bounds := Window.closing_bounds hclose
      exact bind_congr_ok (arguments_level h t.line (by omega) (by omega) (by omega)) fun _ _ => rfl
  | subscript =>
      rw [join, Level.join]
      refine bind_congr_ok rfl fun close hclose => ?_
      have bounds := Window.closing_bounds hclose
      refine bind_congr_ok (enclosed_level (w := ⟨w.tokens, close⟩) h ?_ ?_ ?_) fun _ _ => rfl
      all_goals dsimp only; omega
  | incr | decr => rw [join, Level.join]
  | ternary =>
      rw [join, Level.join]
      refine bind_congr_ok (operand t 0) fun yes hyes => ?_
      obtain ⟨yes, e⟩ := yes
      have behind := (made_of_operandOf hw hpos hyes).behind
      dsimp only
      cases w.at? e with
      | none => rfl
      | some colon =>
          dsimp only
          split
          · refine bind_congr_ok (operandOf_level h hw colon power ?_ ?_) fun _ _ => rfl
            all_goals dsimp only at behind; omega
          · rfl
  | arrow | doubleColon =>
      rw [join, Level.join]
      exact bind_congr_ok (member_level h hw power hk (by omega)) fun _ _ => rfl
  | operand op =>
      rw [join, Level.join]
      · exact bind_congr_ok (operand t power) fun _ _ => rfl
      all_goals assumption

theorem operand_level (hk : w.stop - pos ≤ k) (hn : 8 * (w.stop - pos) + 1 ≤ n) :
    operand n w pos = Level.operand call w pos := by
  obtain ⟨n, rfl⟩ : ∃ m, n = m + 1 := ⟨n - 1, by omega⟩
  rw [operand, Level.operand]
  cases ht : w.at? pos with
  | none => rfl
  | some t =>
      have hpos := Window.lt_of_at? ht
      dsimp only
      iterate 4 refine ite_congr rfl (fun _ => rfl) fun _ => ?_
      refine ite_congr rfl (fun _ => ?_) fun _ => ite_congr rfl (fun _ => rfl) fun _ => ?_
      · refine bind_congr_ok rfl fun close hclose => ?_
        have bounds := Window.closing_bounds hclose
        have inside : enclosed n ⟨w.tokens, close⟩ (pos + 1) = Level.enclosed call ⟨w.tokens, close⟩ (pos + 1) :=
          enclosed_level h (by dsimp only; omega) (by dsimp only; omega) (by dsimp only; omega)
        exact bind_congr_ok inside fun _ _ => rfl
      · cases t.keyword? with
        | some word => rfl
        | none =>
            cases t.op?.map Operator.asPrefix with
            | none => rfl
            | some op =>
                dsimp only
                cases op.prefixPower? with
                | none => rfl
                | some power =>
                    refine bind_congr_ok (operandOf_level h hw t power ?_ ?_) fun _ _ => rfl
                    all_goals omega

/-- Every round of the operators takes one, so there is fuel and there are rounds for all of them. -/
theorem operators_level (left : Node) (power : Nat) (hk : w.stop - pos ≤ k) {m : Nat} (hn : 8 * (w.stop - pos) + 2 ≤ n)
    (hm : w.stop - pos + 1 ≤ m) :
    operators n w left pos power = Level.operators call m w left pos power := by
  induction m generalizing n left pos with
  | zero => omega
  | succ m ih =>
      obtain ⟨n, rfl⟩ : ∃ l, n = l + 2 := ⟨n - 2, by omega⟩
      rw [operators, Level.operators]
      cases ht : w.at? pos with
      | none => rfl
      | some t =>
          have hpos := Window.lt_of_at? ht
          dsimp only
          cases if t.is .openParen then some .call else t.op? with
          | none => rfl
          | some op =>
              dsimp only
              cases hpower : op.infixPower? with
              | none => rfl
              | some powers =>
                  dsimp only
                  split
                  · rfl
                  · refine bind_congr_ok (join_level h hw op t left powers.2 hpos (by omega) (by omega)) fun joined hjoined => ?_
                    have := lt_of_join hw hpos hjoined
                    exact ih joined.1 (by omega) (by omega) (by omega)

/-- The builder does what a level does that is right about smaller windows. -/
theorem expression_level (power : Nat) (hk : w.stop - pos ≤ k) (hn : 8 * (w.stop - pos) + 4 ≤ n) :
    expression n w pos power = Level.expression call w pos power := by
  obtain ⟨n, rfl⟩ : ∃ m, n = m + 1 := ⟨n - 1, by omega⟩
  rw [expression, Level.expression]
  refine bind_congr_ok (operand_level h hw hk (by omega)) fun first hfirst => ?_
  have := lt_of_operand hw hfirst
  exact operators_level h hw first.1 power (by omega) (by omega) (Nat.le_refl _)

end Level

/-! ### Fuel -/

/-- Builds an expression with as much fuel as the tokens of the window can use up. -/
def tree : Call := fun w pos power => expression (8 * (w.stop - pos) + 4) w pos power

/-- More fuel than the tokens of the window can use up changes nothing. -/
theorem right_tree (k : Nat) : Call.Right tree k := by
  induction k with
  | zero => exact fun w pos power _ hk => absurd hk (Nat.not_lt_zero _)
  | succ k ih =>
      intro w pos power hw hk n hn
      rw [expression_level ih hw power (by omega) hn, tree, expression_level ih hw power (by omega) (Nat.le_refl _)]

/-- A level that is right about smaller windows is right. -/
theorem level_tree {call : Call} (hw : w.stop ≤ w.tokens.size)
    (h : ∀ (v : Window) (start power : Nat), v.stop ≤ v.tokens.size → v.stop - start < w.stop - pos →
      call v start power = tree v start power) : Level.expression call w pos power = tree w pos power := by
  have right : call.Right (w.stop - pos) := fun v start power hv hk n hn =>
    (right_tree _ v start power hv hk n hn).trans (h v start power hv hk).symm
  exact (expression_level right hw power (Nat.le_refl _) (Nat.le_refl _)).symm

end Builder

/-- A tree is built with enough fuel. -/
theorem Node.build_tree (tokens : Array Token) (start stop : Nat) :
    Node.build tokens start stop =
      Builder.Level.enclosed Builder.tree ⟨tokens, min stop tokens.size⟩ (min start (min stop tokens.size)) := by
  unfold Node.build
  refine Builder.enclosed_level (Builder.right_tree _) ?_ (Nat.lt_succ_self _) ?_
  all_goals dsimp only; omega

end StackScript
