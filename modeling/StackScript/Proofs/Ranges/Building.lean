/-
The builder accounts for the tokens it takes.

What a call of the builder returns covers the tokens from where it was asked to begin up to the position behind what it
took.  The proof is an induction on the fuel, with one case for each function of the builder: an operator lays its
operands and its own tokens out in a `Row`, and a group goes around the node inside it.
-/
import StackScript.Proofs.Ranges.Leaves

namespace StackScript

/-! ### Commas -/

/-- A place between two pieces holds a comma. -/
theorem Scan.comma_of_commas {tokens : Array Token} {n i j : Nat} {depth : Int} (h : j ∈ commas tokens n i depth) :
    ∃ t, tokens[j]? = some t ∧ t.is .comma = true := by
  induction n generalizing i depth with
  | zero => cases h
  | succ n ih =>
      rw [commas] at h
      cases ht : tokens[i]? with
      | none => simp [ht] at h
      | some t =>
          rw [ht] at h
          dsimp only at h
          split at h
          · rename_i hcomma
            rw [Bool.and_eq_true] at hcomma
            rcases List.mem_cons.mp h with rfl | h
            · exact ⟨t, ht, hcomma.1⟩
            · exact ih h
          · exact ih h

namespace Builder

variable {n i j pos start stop power line : Nat} {w : Window} {tokens : Array Token} {t : Token} {op : Operator}
  {left : Node} {built : Node × Nat} {args : List Node}

theorem Spans.of_row {x : Node} {is : List Nat} {e : Nat} {es : List (Element LeafKind)}
    (hx : x.elements = .operand left :: es) (hrow : Row w.tokens i (.operand left :: es) is e)
    (hop : x.op?.isSome = true) (hstart : x.place.start = left.place.start) (hstop : x.place.stop = e)
    (he : e ≤ w.stop) : Spans w i (x, e) :=
  ⟨Node.covers_of_operand hx hrow hop hstart hstop, he⟩

/-- Nothing is built where there is nothing. -/
theorem le_of_enclosed (h : enclosed n w start = .ok none) : w.stop ≤ start := by
  cases n with
  | zero => rw [enclosed] at h; cases h
  | succ n =>
      rw [enclosed] at h
      split at h
      · assumption
      · obtain ⟨⟨x, e⟩, -, h⟩ := exists_of_bind h
        dsimp only at h
        split at h <;> cases h

theorem eq_nil_of_arguments (h : arguments n tokens line [] = .ok args) : args = [] := by
  cases n <;> rw [arguments] at h <;> cases h
  rfl

/-- With so much fuel, what is built covers the tokens that are taken. -/
structure Sound (n : Nat) : Prop where
  expression {w : Window} {pos power : Nat} {built : Node × Nat} (hw : w.stop ≤ w.tokens.size)
    (h : expression n w pos power = .ok built) : Spans w pos built
  operandOf {w : Window} {t : Token} {pos power : Nat} {built : Node × Nat} (hw : w.stop ≤ w.tokens.size)
    (h : operandOf n w t pos power = .ok built) : Spans w pos built
  enclosed {w : Window} {start : Nat} {x : Node} (hw : w.stop ≤ w.tokens.size)
    (h : enclosed n w start = .ok (some x)) : x.Covers w.tokens start w.stop
  arguments {tokens : Array Token} {line start stop : Nat} {is : List Nat} {args : List Node} (hstop : stop ≤ tokens.size)
    (his : ∀ i ∈ is, ∃ t, tokens[i]? = some t ∧ t.is .comma = true)
    (h : arguments n tokens line (Scan.pieces start stop is) = .ok args) :
    args ≠ [] ∧ Row tokens start (Tree.separated args) is stop
  operators {w : Window} {i pos power : Nat} {left : Node} {built : Node × Nat} (hw : w.stop ≤ w.tokens.size)
    (hleft : left.Covers w.tokens i pos) (hpos : pos ≤ w.stop) (h : operators n w left pos power = .ok built) :
    Spans w i built
  join {w : Window} {i pos power : Nat} {op : Operator} {t : Token} {left : Node} {built : Node × Nat}
    (hw : w.stop ≤ w.tokens.size) (hleft : left.Covers w.tokens i pos) (ht : w.at? pos = some t)
    (hop : (Sign.behind op).fits t = true) (h : join n w op t left pos power = .ok built) : Spans w i built
  member {w : Window} {pos power : Nat} {built : Node × Nat} (hw : w.stop ≤ w.tokens.size)
    (h : member n w pos power = .ok built) : Spans w pos built
  operand {w : Window} {pos : Nat} {built : Node × Nat} (hw : w.stop ≤ w.tokens.size)
    (h : operand n w pos = .ok built) : Spans w pos built

theorem Sound.zero : Sound 0 where
  expression _ h := by rw [Builder.expression] at h; cases h
  operandOf _ h := by rw [Builder.operandOf] at h; cases h
  enclosed _ h := by rw [Builder.enclosed] at h; cases h
  arguments _ _ h := by rw [Builder.arguments] at h; cases h
  operators _ _ _ h := by unfold Builder.operators at h; cases h
  join _ _ _ _ h := by unfold Builder.join at h; cases h
  member _ h := by rw [Builder.member] at h; cases h
  operand _ h := by rw [Builder.operand] at h; cases h

section Step

variable (ih : Sound n) (hw : w.stop ≤ w.tokens.size)

include ih hw

/-! ### Operators behind an operand -/

section Join

variable (hleft : left.Covers w.tokens i pos) (ht : w.at? pos = some t)

include hleft ht

theorem spans_call (hop : (Sign.behind .call).fits t = true) (h : join (n + 1) w .call t left pos power = .ok built) :
    Spans w i built := by
  have hsign := Window.getElem?_of_at? ht
  rw [join] at h
  obtain ⟨close, hclose, h⟩ := exists_of_bind h
  obtain ⟨args, hargs, h⟩ := exists_of_bind h
  have bounds := Window.closing_bounds hclose
  obtain ⟨u, hu, hlast⟩ := Window.closes_of_closing hclose
  have last : Row w.tokens close [.sign (.mark .closeParen)] [close] (close + 1) := .sign hu hlast (.nil _)
  obtain ⟨is, inside⟩ : ∃ is, Row w.tokens (pos + 1) (Tree.separated args) is close := by
    unfold Scan.splitCommas at hargs
    split at hargs
    · obtain rfl := eq_nil_of_arguments hargs
      obtain rfl : close = pos + 1 := by omega
      exact ⟨[], .nil _⟩
    · exact ⟨_, (ih.arguments (by omega) (fun _ => Scan.comma_of_commas) hargs).2⟩
  cases h
  exact .of_row rfl (.operand hleft (.sign hsign hop (inside.append last))) rfl rfl rfl (by omega)

theorem spans_subscript (hop : (Sign.behind .subscript).fits t = true)
    (h : join (n + 1) w .subscript t left pos power = .ok built) : Spans w i built := by
  have hsign := Window.getElem?_of_at? ht
  rw [join] at h
  obtain ⟨close, hclose, h⟩ := exists_of_bind h
  obtain ⟨key, hkey, h⟩ := exists_of_bind h
  have bounds := Window.closing_bounds hclose
  obtain ⟨u, hu, hlast⟩ := Window.closes_of_closing hclose
  have last : Row w.tokens close [.sign (.mark .closeBracket)] [close] (close + 1) := .sign hu hlast (.nil _)
  cases key with
  | none =>
      have hempty := le_of_enclosed hkey
      obtain rfl : close = pos + 1 := Nat.le_antisymm hempty bounds.1
      cases h
      exact .of_row rfl (.operand hleft (.sign hsign hop last)) rfl rfl rfl (by omega)
  | some key =>
      have inside := ih.enclosed (w := ⟨w.tokens, close⟩) (show close ≤ w.tokens.size by omega) hkey
      cases h
      exact .of_row rfl (.operand hleft (.sign hsign hop (.operand inside last))) rfl rfl rfl (by omega)

theorem spans_ternary (hop : (Sign.behind .ternary).fits t = true)
    (h : join (n + 1) w .ternary t left pos power = .ok built) : Spans w i built := by
  have hsign := Window.getElem?_of_at? ht
  rw [join] at h
  obtain ⟨⟨yes, e⟩, hyes, h⟩ := exists_of_bind h
  have first := ih.operandOf hw hyes
  dsimp only at h
  cases hcolon : w.at? e with
  | none =>
      rw [hcolon] at h
      cases h
  | some colon =>
      rw [hcolon] at h
      dsimp only at h
      split at h
      · rename_i hmark
        obtain ⟨⟨no, e'⟩, hno, h⟩ := exists_of_bind h
        have second := ih.operandOf hw hno
        have behind : Row w.tokens e [.sign (.mark .colon), .operand no] [e] e' :=
          .sign (Window.getElem?_of_at? hcolon) hmark (.operand second.covers (.nil _))
        cases h
        exact .of_row rfl (.operand hleft (.sign hsign hop (.operand first.covers behind))) rfl rfl rfl second.within
      · cases h

omit ih hw in
/-- An operator with an operand on each side. -/
theorem spans_between (hop : (Sign.behind op).fits t = true) {right : Node} {e : Nat}
    (hright : Spans w (pos + 1) (right, e)) (start line : Nat) (hstart : start = left.place.start) :
    Spans w i (.binary ⟨start, e, line⟩ op left right, e) ∧ Spans w i (.assign ⟨start, e, line⟩ op left right, e) := by
  have row : Row w.tokens i [.operand left, .sign (.behind op), .operand right] [pos] e :=
    .operand hleft (.sign (Window.getElem?_of_at? ht) hop (.operand hright.covers (.nil _)))
  exact ⟨.of_row rfl row rfl hstart rfl hright.within, .of_row rfl row rfl hstart rfl hright.within⟩

theorem spans_join (hop : (Sign.behind op).fits t = true) (h : join (n + 1) w op t left pos power = .ok built) :
    Spans w i built := by
  cases op using join_cases with
  | call => exact spans_call ih hw hleft ht hop h
  | subscript => exact spans_subscript ih hw hleft ht hop h
  | ternary => exact spans_ternary ih hw hleft ht hop h
  | incr | decr =>
      have hpos := Window.lt_of_at? ht
      rw [join] at h
      cases h
      exact .of_row rfl (.operand hleft (.sign (Window.getElem?_of_at? ht) hop (.nil _))) rfl rfl rfl hpos
  | arrow | doubleColon =>
      rw [join] at h
      obtain ⟨⟨right, e⟩, hright, h⟩ := exists_of_bind h
      cases h
      exact (spans_between hleft ht hop (ih.member hw hright) _ _ rfl).1
  | operand op =>
      rw [join] at h
      · obtain ⟨⟨right, e⟩, hright, h⟩ := exists_of_bind h
        have both := spans_between hleft ht hop (ih.operandOf hw hright) left.place.start t.line rfl
        dsimp only at h
        split at h
        · cases h
          exact both.2
        · cases h
          exact both.1
      all_goals assumption

end Join

theorem spans_operators (hleft : left.Covers w.tokens i pos) (hpos : pos ≤ w.stop)
    (h : operators (n + 1) w left pos power = .ok built) : Spans w i built := by
  have stay {x : Built} (hx : x = .ok built) (hx' : x = .ok (left, pos)) : Spans w i built := by
    cases hx.symm.trans hx'
    exact ⟨hleft, hpos⟩
  rw [operators] at h
  cases ht : w.at? pos with
  | none =>
      rw [ht] at h
      exact stay h rfl
  | some t =>
      rw [ht] at h
      dsimp only at h
      cases hop : (if t.is .openParen then some .call else t.op?) with
      | none =>
          rw [hop] at h
          exact stay h rfl
      | some op =>
          rw [hop] at h
          dsimp only at h
          cases hpower : op.infixPower? with
          | none =>
              rw [hpower] at h
              exact stay h rfl
          | some powers =>
              rw [hpower] at h
              dsimp only at h
              split at h
              · exact stay h rfl
              · obtain ⟨⟨joined, e⟩, hjoined, h⟩ := exists_of_bind h
                have made := ih.join hw hleft ht (by simpa [Sign.fits] using hop) hjoined
                exact ih.operators hw made.covers made.within h

/-! ### Operands -/

theorem spans_member (h : member (n + 1) w pos power = .ok built) : Spans w pos built := by
  rw [member] at h
  cases ht : w.at? pos with
  | none =>
      rw [ht] at h
      cases h
  | some t =>
      rw [ht] at h
      dsimp only at h
      split at h
      · exact spans_single ht h trivial
      · exact ih.expression hw h

theorem spans_group (ht : w.at? pos = some t) (hopens : t.is .openParen = true)
    (h : (do
        let close ← w.closing (pos + 1) .openParen .closeParen ⟨t.line, .unclosedParen⟩
        match ← enclosed n ⟨w.tokens, close⟩ (pos + 1) with
        | some tree => return (tree, close + 1)
        | none => .error ⟨t.line, .emptyGroup⟩) = Except.ok built) : Spans w pos built := by
  obtain ⟨close, hclose, h⟩ := exists_of_bind h
  obtain ⟨inside, hinside, h⟩ := exists_of_bind h
  have bounds := Window.closing_bounds hclose
  have hparen : w.tokens[pos]?.any (·.is .openParen) = true := by simpa [Window.getElem?_of_at? ht] using hopens
  have hmatches := Window.matches_of_closing .round hparen hclose
  cases inside with
  | none => cases h
  | some x =>
      have covers := ih.enclosed (w := ⟨w.tokens, close⟩) (show close ≤ w.tokens.size by omega) hinside
      cases h
      exact ⟨covers.group hmatches, by dsimp only; omega⟩

theorem spans_prefixed (ht : w.at? pos = some t) (hop : t.op?.map Operator.asPrefix = some op)
    (h : (do
        let (x, stop) ← operandOf n w t (pos + 1) power
        return (.prefixed ⟨pos, stop, t.line⟩ op x, stop)) = Except.ok built) : Spans w pos built := by
  obtain ⟨⟨x, e⟩, hx, h⟩ := exists_of_bind h
  have made := ih.operandOf hw hx
  cases h
  have row : Row w.tokens pos [.sign (.before op), .operand x] [pos] e :=
    .sign (Window.getElem?_of_at? ht) (by simpa [Sign.fits] using hop) (.operand made.covers (.nil _))
  exact ⟨Node.covers_of_sign row rfl rfl rfl, made.within⟩

theorem spans_operand (h : operand (n + 1) w pos = .ok built) : Spans w pos built := by
  rw [operand] at h
  cases ht : w.at? pos with
  | none =>
      rw [ht] at h
      cases h
  | some t =>
      rw [ht] at h
      dsimp only at h
      split at h
      · exact spans_single ht h trivial
      split at h
      · exact spans_single ht h trivial
      split at h
      · exact spans_single ht h trivial
      split at h
      · exact spans_variableLeaf hw (Nat.le_of_lt (Window.lt_of_at? ht)) h
      split at h
      · rename_i hopens
        exact spans_group ih hw ht hopens h
      split at h
      · rename_i hopens
        exact spans_bracketed hw (by simpa [Window.getElem?_of_at? ht] using hopens) h
      cases hword : t.keyword? with
      | some word =>
          rw [hword] at h
          exact spans_keyword hw ht hword h
      | none =>
          rw [hword] at h
          dsimp only at h
          cases hop : t.op?.map Operator.asPrefix with
          | none =>
              rw [hop] at h
              exact spans_nameOrError hw ht h
          | some op =>
              rw [hop] at h
              dsimp only at h
              cases hpower : op.prefixPower? with
              | none =>
                  rw [hpower] at h
                  exact spans_nameOrError hw ht h
              | some power =>
                  rw [hpower] at h
                  exact spans_prefixed ih hw ht hop h

/-! ### Windows -/

theorem spans_expression (h : expression (n + 1) w pos power = .ok built) : Spans w pos built := by
  rw [expression] at h
  obtain ⟨⟨first, e⟩, hfirst, h⟩ := exists_of_bind h
  have made := ih.operand hw hfirst
  exact ih.operators hw made.covers made.within h

theorem covers_of_enclosed {x : Node} (h : enclosed (n + 1) w start = .ok (some x)) : x.Covers w.tokens start w.stop := by
  rw [enclosed] at h
  split at h
  · cases h
  · obtain ⟨⟨y, e⟩, hy, h⟩ := exists_of_bind h
    have made := ih.expression hw hy
    dsimp only at h
    cases he : w.at? e with
    | some u =>
        rw [he] at h
        cases h
    | none =>
        rw [he] at h
        -- No token is left, so what is built reaches the end of the window.
        obtain rfl : e = w.stop := by
          have within : e ≤ w.stop := made.within
          refine Nat.le_antisymm within (Nat.le_of_not_lt fun hlt => ?_)
          rw [Window.at?, if_pos hlt, Array.getElem?_eq_none_iff] at he
          omega
        cases h
        exact made.covers

omit hw in
theorem row_of_arguments {is : List Nat} (hstop : stop ≤ tokens.size)
    (his : ∀ i ∈ is, ∃ t, tokens[i]? = some t ∧ t.is .comma = true)
    (h : arguments (n + 1) tokens line (Scan.pieces start stop is) = .ok args) :
    args ≠ [] ∧ Row tokens start (Tree.separated args) is stop := by
  cases is with
  | nil =>
      rw [Scan.pieces, arguments] at h
      obtain ⟨arg, harg, h⟩ := exists_of_bind h
      cases arg with
      | none => cases h
      | some arg =>
          obtain ⟨rest, hrest, h⟩ := exists_of_bind h
          obtain rfl := eq_nil_of_arguments hrest
          cases h
          exact ⟨by simp, .operand (ih.enclosed (w := ⟨tokens, stop⟩) hstop harg) (.nil _)⟩
  | cons i is =>
      obtain ⟨t, ht, hcomma⟩ := his i (List.mem_cons_self ..)
      have hi := (Array.getElem?_eq_some_iff.mp ht).1
      rw [Scan.pieces, arguments] at h
      obtain ⟨arg, harg, h⟩ := exists_of_bind h
      cases arg with
      | none => cases h
      | some arg =>
          obtain ⟨rest, hrest, h⟩ := exists_of_bind h
          obtain ⟨hne, row⟩ := ih.arguments hstop (fun j hj => his j (List.mem_cons_of_mem _ hj)) hrest
          have first := ih.enclosed (w := ⟨tokens, i⟩) (Nat.le_of_lt hi) harg
          cases h
          obtain ⟨next, rest, rfl⟩ := List.exists_cons_of_ne_nil hne
          exact ⟨by simp, .operand first (.sign ht hcomma row)⟩

omit hw in
theorem Sound.succ : Sound (n + 1) where
  expression hw h := spans_expression ih hw h
  operandOf hw h := by
    rw [Builder.operandOf] at h
    split at h
    · cases h
    · exact ih.expression hw h
  enclosed hw h := covers_of_enclosed ih hw h
  arguments hstop his h := row_of_arguments ih hstop his h
  operators hw hleft hpos h := spans_operators ih hw hleft hpos h
  join hw hleft ht hop h := spans_join ih hw hleft ht hop h
  member hw h := spans_member ih hw h
  operand hw h := spans_operand ih hw h

end Step

theorem sound (n : Nat) : Sound n := by
  induction n with
  | zero => exact .zero
  | succ n ih => exact .succ ih

end Builder

/-- A tree that is built covers the tokens of its window. -/
theorem Node.covers_of_build {tokens : Array Token} {start stop : Nat} {t : Node}
    (h : Node.build tokens start stop = .ok (some t)) :
    t.Covers tokens (min start (min stop tokens.size)) (min stop tokens.size) :=
  (Builder.sound _).enclosed (Nat.min_le_right ..) h

end StackScript
