/-
Headers around an expression.

A header ends where a scan of the tokens finds its end, and the scans do not all count the same brackets: the source of a
`foreach` goes up to the first `as`, the guard of a `case` up to the first colon or semicolon outside parentheses, and an
expression up to the first semicolon outside braces.  Tokens are `Embeddable` when none of these scans ends among them.
Then the expression between a header and its end is the one that the tokens come to as a statement of their own.
-/
import StackScript.Proofs.Delimiting.Expression
import StackScript.Proofs.Ranges.Brackets

namespace StackScript

/-- Tokens that can stand in a header: their parentheses and braces are closed, and no semicolon ends them. -/
structure Embeddable (e : List Token) : Prop where
  filled : e ≠ []
  parens : Scan.rise (Scan.depthChange [.openParen] [.closeParen]) e = 0
  braces : Scan.rise (Scan.depthChange [.openBrace] [.closeBrace]) e ≤ 0
  closed : ∀ k < e.length, e[k]?.any (·.is .closeParen) = true →
    0 < Scan.rise (Scan.depthChange [.openParen] [.closeParen]) (e.take k)
  unended : e.getLast?.any (·.is .semicolon) = false

/-- There is no `as` among the tokens, which would end the source of a loop. -/
def NoAs (e : List Token) : Prop := ∀ t ∈ e, t.isKeyword .as_ = false

/-- What ends a label stands in parentheses only. -/
def NoLabel (e : List Token) : Prop :=
  ∀ k < e.length, e[k]?.any (·.isAny [.semicolon, .colon]) = true →
    0 < Scan.rise (Scan.depthChange [.openParen] [.closeParen]) (e.take k)

namespace Embeddable

variable {e : List Token} {semicolon : Token}

theorem length_pos (h : Embeddable e) : 0 < e.length := List.length_pos_iff.mpr h.filled

/-- When only semicolons are behind it, the expression of a statement goes up to the semicolon that ends it. -/
theorem exprEnd_statement (h : Embeddable e) (hsemicolon : semicolon.is .semicolon = true)
    (hrest : ∀ i, (TokenStream.ofList (e ++ [semicolon])).exprEnd 0 false ≤ i → i < (e ++ [semicolon]).length →
      ∃ u, (e ++ [semicolon])[i]? = some u ∧ u.is .semicolon = true) :
    Scan.semicolon? (e ++ [semicolon]).toArray 0 (e.length + 1) = some e.length := by
  have hpos := h.length_pos
  have length : (e ++ [semicolon]).length = e.length + 1 := by simp
  cases hfound : Scan.semicolon? (e ++ [semicolon]).toArray 0 (e.length + 1) with
  | none =>
      have missed := @Scan.not_fits_of_none (e ++ [semicolon]).toArray _ _ (e ++ [semicolon]) 0 0 (by simp)
        (by rw [length]; exact hfound) e.length semicolon (by simp)
      have := h.braces
      simp [hsemicolon] at missed
      omega
  | some j =>
      have bound := (Scan.semicolon?_bounds hfound).2
      by_cases hj : j = e.length
      · rw [hj]
      · have ends : (TokenStream.ofList (e ++ [semicolon])).exprEnd 0 false = j := by
          show (Scan.semicolon? (e ++ [semicolon]).toArray 0 (e ++ [semicolon]).length).getD _ = j
          rw [length, hfound]
          rfl
        obtain ⟨u, hu, hsemicolon'⟩ := hrest (e.length - 1) (by omega) (by omega)
        rw [List.getElem?_append_left (by omega), ← List.getLast?_eq_getElem?] at hu
        have unended := h.unended
        rw [hu, Option.any_some, hsemicolon'] at unended
        cases unended

end Embeddable

/-! ### The expression between a header and its end -/

namespace Passage

variable {before e after : List Token} {semicolon : Token}

/-- Behind the first tokens everything is on the line of the last ones. -/
theorem line_behind {front rest : List Token} {line i : Nat} (hrest : rest ≠ []) (hlines : ∀ t ∈ rest, t.line = line)
    (hi : front.length ≤ i) :
    (((front ++ rest).toArray[i]?).or (front ++ rest).toArray.back?).map Token.line = some line := by
  rw [List.getElem?_toArray, List.back?_toArray, List.getElem?_append_right hi, List.getLast?_append,
    List.getLast?_eq_some_getLast hrest, Option.some_or]
  cases ht : rest[i - front.length]? with
  | none => exact congrArg some (hlines _ (List.getLast_mem hrest))
  | some t => exact congrArg some (hlines t (List.mem_of_getElem? ht))

/-- The tokens of an expression in front of a semicolon and, the second time, in a header.  What follows them is on one
line both times. -/
def embedded (before : List Token) {e after : List Token} {semicolon : Token} (filled : 0 < e.length)
    (hafter : after ≠ []) (hlines : ∀ t ∈ after, t.line = semicolon.line) : Passage where
  tokens := (e ++ [semicolon]).toArray
  stop := e.length
  filled := by simp
  there := (before ++ e ++ after).toArray
  shift := before.length
  moved := fun i hi => by
    rw [List.getElem?_toArray, List.getElem?_toArray, List.getElem?_append_left (by rw [List.length_append]; omega),
      List.getElem?_append_right (Nat.le_add_left ..), Nat.add_sub_cancel, List.getElem?_append_left hi]
  room := .inl (by
    have := List.length_pos_iff.mpr hafter
    simp
    omega)
  lines := fun pos _ => by
    by_cases hinside : pos - 1 < e.length
    · have near : (e ++ [semicolon]).toArray[pos - 1]? = some e[pos - 1] := by
        rw [List.getElem?_toArray, List.getElem?_append_left hinside, List.getElem?_eq_getElem hinside]
      have far : (before ++ e ++ after).toArray[pos - 1 + before.length]? = some e[pos - 1] := by
        rw [List.getElem?_toArray, List.getElem?_append_left (by rw [List.length_append]; omega),
          List.getElem?_append_right (Nat.le_add_left ..), Nat.add_sub_cancel, List.getElem?_eq_getElem hinside]
      rw [near, far, Option.some_or, Option.some_or]
    · rw [line_behind hafter hlines (by rw [List.length_append]; omega),
        line_behind (List.cons_ne_nil _ _) (fun t ht => congrArg Token.line (List.mem_singleton.mp ht)) (by omega)]
  anchored := .inr filled

/-- An expression statement and a header hold the same expression. -/
theorem run_expr_embedded (he : Embeddable e) (hafter : after ≠ []) (hlines : ∀ t ∈ after, t.line = semicolon.line)
    (hend : Scan.semicolon? (e ++ [semicolon]).toArray 0 (e.length + 1) = some e.length) {n n' : Nat}
    (hn : 2 * Token.extents e + 2 ≤ n + 1) (hn' : 2 * Token.extents e + 2 ≤ n' + 1) :
    (Parse.expr (Parse.readers n') false).run
        ⟨(before ++ e ++ after).toArray, before.length, before.length + e.length⟩ =
      (Parse.exprBetween (Parse.readers n) (e ++ [semicolon]).toArray 0 e.length,
        ⟨(before ++ e ++ after).toArray, before.length + e.length, before.length + e.length⟩) := by
  let W : Passage := embedded before he.length_pos hafter hlines
  have extent : W.extent 0 = Token.extents e := by simp [W, embedded, Passage.extent, Passage.ahead]
  have agree : W.Agree 0 (Parse.readers (n + 1)) (Parse.readers (n' + 1)) :=
    agree_deep _ _ (by rwa [extent]) (by rwa [extent])
  -- Without the semicolon the window ends where the expression does.
  have alone : Scan.semicolon? (e ++ [semicolon]).toArray 0 e.length = none := by
    cases hfound : Scan.semicolon? (e ++ [semicolon]).toArray 0 e.length with
    | none => rfl
    | some j =>
        have bound := (Scan.semicolon?_bounds hfound).2
        have longer : Scan.semicolon? (e ++ [semicolon]).toArray 0 (e.length + 1) = some j :=
          Scan.findAtDepth_longer 1 hfound
        rw [hend] at longer
        cases longer
        exact absurd bound (Nat.lt_irrefl _)
  have last : (W.near 0).exprEnd (W.near 0).pos false = e.length := by
    show (Scan.semicolon? (e ++ [semicolon]).toArray 0 e.length).getD _ = _
    rw [alone]
    exact Nat.zero_max _
  have hpos := he.length_pos
  obtain ⟨value, _, stop, ⟨rfl, -⟩, hnear, hfar⟩ := agree.expr (.refl W) false (Nat.le_refl 0)
  rw [show (Parse.readers (n + 1)).expr false = Parse.expr (Parse.readers n) false from rfl, Parse.run_exprBetween, last,
    if_neg (show ¬e.length ≤ (W.near 0).pos from Nat.not_le_of_lt hpos)] at hnear
  obtain ⟨hvalue, hstop⟩ := Prod.mk.inj hnear
  have stopped : e.length = stop := by
    have := congrArg TokenStream.pos hstop
    rwa [show ((W.near 0).setPos e.length).pos = e.length from Nat.min_eq_left (by simp [W, embedded])] at this
  subst stopped hvalue
  have start : W.far 0 = ⟨(before ++ e ++ after).toArray, before.length, before.length + e.length⟩ := by
    simp [W, embedded, Passage.far, Nat.add_comm]
  have done : W.far e.length =
      ⟨(before ++ e ++ after).toArray, before.length + e.length, before.length + e.length⟩ := by
    simp [W, embedded, Passage.far, Nat.add_comm]
  rw [← start, ← done]
  exact hfar

end Passage

namespace TokenStream

variable {a b : Nat}

theorem window_inside (s : TokenStream) (hab : a ≤ b) (hb : b ≤ s.tokens.size) : s.window a b = ⟨s.tokens, a, b⟩ := by
  rw [window, setStop, setPos, Nat.min_eq_left hb, Nat.min_eq_left (Nat.le_trans hab hb)]

theorem setPos_inside (s : TokenStream) (ha : a ≤ s.tokens.size) : s.setPos a = ⟨s.tokens, a, s.stop⟩ := by
  rw [setPos, Nat.min_eq_left ha]

end TokenStream

/-! ### Variables in headers -/

namespace Parse

variable {r : Readers} {tokens : Array Token} {i line : Nat} {name : String}

/-- A dollar sign and a name are a variable wherever they stand. -/
theorem exprBetween_variable (r : Readers) (hdollar : tokens[i]? = some ⟨.dollar, "$", line⟩)
    (hname : tokens[i + 1]? = some ⟨.name, name, line⟩) :
    exprBetween r tokens i (i + 2) = .tree (.leaf (Place.lineOnly ⟨i, i + 2, line⟩) (.variable line name 0)) := by
  have inside : i + 1 < tokens.size := (Array.getElem?_eq_some_iff.mp hname).1
  have build : Node.build tokens i (i + 2) = .ok (some (.leaf ⟨i, i + 2, line⟩ .variable)) := by
    have fuel : 8 * (i + 2 - i) + 8 = 24 := by omega
    have here : Builder.Window.at? ⟨tokens, i + 2⟩ i = some ⟨.dollar, "$", line⟩ :=
      (if_pos (show i < i + 2 by omega)).trans hdollar
    have next : Builder.Window.at? ⟨tokens, i + 2⟩ (i + 1) = some ⟨.name, name, line⟩ :=
      (if_pos (Nat.lt_add_one (i + 1))).trans hname
    have behind : Builder.Window.at? ⟨tokens, i + 2⟩ (i + 2) = none := if_neg (Nat.lt_irrefl (i + 2))
    have dollars : Builder.Window.runLength ⟨tokens, i + 2⟩ (·.is .dollar) 2 i = 1 := by
      rw [Builder.Window.runLength, here, Builder.Window.runLength, next]
      rfl
    have var : Builder.variableLeaf ⟨tokens, i + 2⟩ i line = .ok (.leaf ⟨i, i + 2, line⟩ .variable, i + 2) := by
      unfold Builder.variableLeaf
      rw [show i + 2 - i = 2 by omega, dollars]
      simp [Builder.Window.isAt, next, Builder.leaf, Token.isAny, Token.is, TokenKind.classes]
    have operand : Builder.operand 22 ⟨tokens, i + 2⟩ i = .ok (.leaf ⟨i, i + 2, line⟩ .variable, i + 2) := by
      rw [Builder.operand, here]
      exact var
    have operators : Builder.operators 22 ⟨tokens, i + 2⟩ (.leaf ⟨i, i + 2, line⟩ .variable) (i + 2) 0 =
        .ok (.leaf ⟨i, i + 2, line⟩ .variable, i + 2) := by rw [Builder.operators, behind]
    have expression : Builder.expression 23 ⟨tokens, i + 2⟩ i 0 = .ok (.leaf ⟨i, i + 2, line⟩ .variable, i + 2) := by
      rw [Builder.expression, operand]
      exact operators
    unfold Node.build
    dsimp only
    rw [Nat.min_eq_left (show i + 2 ≤ tokens.size from inside), Nat.min_eq_left (Nat.le_add_right i 2), fuel]
    simp [Builder.enclosed, expression, behind, bind, Except.bind]
  have sigil : (⟨tokens, i, i + 2⟩ : TokenStream).peek = some ⟨.dollar, "$", line⟩ := TokenStream.peek_inside (by omega) hdollar
  have named : (⟨tokens, i + 1, i + 2⟩ : TokenStream).peek = some ⟨.name, name, line⟩ :=
    TokenStream.peek_inside (Nat.lt_add_one (i + 1)) hname
  have skipped : (⟨tokens, i, i + 2⟩ : TokenStream).skipWhile (·.is .dollar) = ⟨tokens, i + 1, i + 2⟩ := by
    have length : (⟨tokens, i, i + 2⟩ : TokenStream).runLength (·.is .dollar) 2 0 = 1 := by
      rw [TokenStream.runLength, show TokenStream.peekNth ⟨tokens, i, i + 2⟩ 0 = _ from sigil]
      dsimp only
      rw [if_pos (show Token.is ⟨.dollar, "$", line⟩ .dollar = true from rfl), TokenStream.runLength,
        show TokenStream.peekNth ⟨tokens, i, i + 2⟩ (0 + 1) = _ from named]
      rfl
    rw [TokenStream.skipWhile, TokenStream.remaining, Nat.add_sub_cancel_left, length]
  have leaf : ((leaf r .variable).run ⟨tokens, i, i + 2⟩).1 = .variable line name 0 := by
    show ((variableLeaf r).run _).1 = _
    simp only [variableLeaf, Parse.line, pos, peek, bind_pure_comp, bind_map_left, StateT.run_bind, StateT.run_get,
      StateT.run_modify, pure_bind, skipped, named]
    rw [if_pos (show Token.isAny ⟨.name, name, line⟩ [.name, .keyword] = true from rfl), Nat.add_sub_cancel_left]
    rfl
  unfold exprBetween
  rw [if_neg (by omega), build]
  dsimp only
  rw [Tree.mapLeaves, TokenStream.window_inside ⟨tokens, i, i + 2⟩ (Nat.le_add_right i 2) inside, leaf]

/-- The variable in a window of its own. -/
theorem run_expr_variable (r : Readers) (hdollar : tokens[i]? = some ⟨.dollar, "$", line⟩)
    (hname : tokens[i + 1]? = some ⟨.name, name, line⟩) :
    (expr r false).run ⟨tokens, i, i + 2⟩ =
      (.tree (.leaf (Place.lineOnly ⟨i, i + 2, line⟩) (.variable line name 0)), ⟨tokens, i + 2, i + 2⟩) := by
  have inside : i + 1 < tokens.size := (Array.getElem?_eq_some_iff.mp hname).1
  have none : Scan.semicolon? tokens i (i + 2) = none := by
    rw [Scan.semicolon?, Nat.add_sub_cancel_left]
    simp [Scan.findAtDepth, hdollar, hname, Token.is, TokenKind.classes]
  have last : (⟨tokens, i, i + 2⟩ : TokenStream).exprEnd i false = i + 2 := by
    show (Scan.semicolon? tokens i (i + 2)).getD _ = _
    rw [none]
    exact Nat.max_eq_right (Nat.le_add_right i 2)
  rw [run_exprBetween, show (⟨tokens, i, i + 2⟩ : TokenStream).pos = i from rfl, last, if_neg (by omega),
    exprBetween_variable r hdollar hname, TokenStream.setPos, Nat.min_eq_left (show i + 2 ≤ tokens.size from inside)]

end Parse

/-! ### Loops over an expression -/

/-- The tokens of a `foreach` over some tokens, whose variable is `$v` and whose body is empty. -/
def foreachTokens (line : Nat) (e : List Token) (behind : Nat) : List Token :=
  [⟨.keyword .foreach, "foreach", line⟩, ⟨.openParen, "(", line⟩] ++ e ++
    [⟨.keyword .as_, "as", behind⟩, ⟨.dollar, "$", behind⟩, ⟨.name, "v", behind⟩, ⟨.closeParen, ")", behind⟩,
      ⟨.openBrace, "\x7b", behind⟩, ⟨.closeBrace, "\x7d", behind⟩]

namespace Embeddable

variable {before e after : List Token} {p : Token → Int → Bool}

theorem getElem?_inside {k : Nat} (hk : k < e.length) : (before ++ e ++ after).toArray[before.length + k]? = e[k]? := by
  rw [List.getElem?_toArray, List.getElem?_append_left (by rw [List.length_append]; omega),
    List.getElem?_append_right (Nat.le_add_right ..), Nat.add_sub_cancel_left]

theorem getElem?_behind (k : Nat) :
    (before ++ e ++ after).toArray[before.length + e.length + k]? = after[k]? := by
  rw [List.getElem?_toArray, List.getElem?_append_right (by rw [List.length_append]; omega), List.length_append,
    Nat.add_sub_cancel_left]

/-- The parenthesis in front of the tokens is closed behind them. -/
theorem findAtDepth_closing (h : Embeddable e) (n : Nat) :
    Scan.findAtDepth (before ++ e ++ after).toArray (Scan.depthChange [.openParen] [.closeParen])
        (fun t depth => !t.isAny [.openParen] && t.isAny [.closeParen] && depth ≤ 1) (e.length + n) before.length 1 =
      Scan.findAtDepth (before ++ e ++ after).toArray (Scan.depthChange [.openParen] [.closeParen])
        (fun t depth => !t.isAny [.openParen] && t.isAny [.closeParen] && depth ≤ 1) n (before.length + e.length) 1 := by
  rw [Scan.findAtDepth_pass (fun k hk => getElem?_inside hk), h.parens, Int.add_zero]
  intro k t ht
  by_cases hclose : t.is .closeParen = true
  · have := h.closed k (List.getElem?_eq_some_iff.mp ht).1 (by rw [ht]; exact hclose)
    simp [Token.isAny, hclose]
    omega
  · simp [Token.isAny, hclose]

/-- No label ends among the tokens. -/
theorem findAtDepth_label (h : Embeddable e) (hlabel : NoLabel e) (n : Nat) :
    Scan.findAtDepth (before ++ e ++ after).toArray (Scan.depthChange [.openParen] [.closeParen])
        (fun t depth => t.isAny [.semicolon, .colon] && depth < 1) (e.length + n) before.length 0 =
      Scan.findAtDepth (before ++ e ++ after).toArray (Scan.depthChange [.openParen] [.closeParen])
        (fun t depth => t.isAny [.semicolon, .colon] && depth < 1) n (before.length + e.length) 0 := by
  rw [Scan.findAtDepth_pass (fun k hk => getElem?_inside hk), h.parens, Int.add_zero]
  intro k t ht
  by_cases hends : t.isAny [.semicolon, .colon] = true
  · have := hlabel k (List.getElem?_eq_some_iff.mp ht).1 (by rw [ht]; exact hends)
    simp
    omega
  · simp [hends]

end Embeddable

/-- A search for `as` goes on behind the tokens. -/
theorem NoAs.findAtDepth_as {before e after : List Token} (h : NoAs e) (n : Nat) :
    Scan.findAtDepth (before ++ e ++ after).toArray (fun _ => 0) (fun t _ => t.isKeyword .as_) (e.length + n)
        before.length 0 =
      Scan.findAtDepth (before ++ e ++ after).toArray (fun _ => 0) (fun t _ => t.isKeyword .as_) n
        (before.length + e.length) 0 := by
  rw [Scan.findAtDepth_pass (fun k hk => Embeddable.getElem?_inside hk) fun k t ht => h t (List.mem_of_getElem? ht)]
  simp [Scan.rise]

namespace Parse

variable {r : Readers} {s : TokenStream} {t u : Token}

/-- Braces with nothing between them. -/
theorem run_block_empty (r : Readers) (ht : s.peek = some t) (hopen : t.is .openBrace = true) (hu : s.peekNth 1 = some u)
    (hclose : u.is .closeBrace = true) (hend : s.pos + 2 = s.stop) :
    (block r).run s = (.block [] none, { s with pos := s.pos + 2 }) := by
  obtain ⟨tokens, pos, stop⟩ := s
  dsimp only at hend
  subst hend
  have opened : (⟨tokens, pos, pos + 2⟩ : TokenStream).check [.openBrace] = true := by
    rw [TokenStream.check_of_peek ht, Token.isAny, List.any_cons, hopen, Bool.true_or]
  have next : (⟨tokens, pos + 1, pos + 2⟩ : TokenStream).peek = some u := hu
  have entered := TokenStream.advance_inside tokens (show pos < pos + 2 by omega)
  have closed := TokenStream.advance_inside tokens (Nat.lt_add_one (pos + 1))
  have braces : (braces r).run ⟨tokens, pos, pos + 2⟩ = (.block [] none, ⟨tokens, pos + 2, pos + 2⟩) := by
    simp only [braces, line, bind_pure_comp, advance, blockItems, peek, bind_map_left, map_bind,
      LawfulMonadStateOf.get_bind_get_bind, StateT.run_bind, StateT.run_get, StateT.run_modify, StateT.run_map,
      pure_bind, entered, next, hclose, ↓reduceIte, closed, map_pure]
    rfl
  have behind : (⟨tokens, pos + 2, pos + 2⟩ : TokenStream).skipWhile (·.is .semicolon) = ⟨tokens, pos + 2, pos + 2⟩ := by
    simp [TokenStream.skipWhile, TokenStream.remaining, TokenStream.runLength]
  replace braces : (Parse.braces r).run ⟨tokens, pos, pos + 2⟩ =
      (pure (.block [] none, ⟨tokens, pos + 2, pos + 2⟩) : Id _) := braces
  simp [block, check, opened, braces, skipSemicolons, behind]
  rfl

/-- The variable of a header and the line it stands on, as it is read from `i` on. -/
def headerVariable (i line : Nat) (name : String) : Expr :=
  .tree (.leaf (Place.lineOnly ⟨i, i + 2, line⟩) (.variable line name 0))

variable {tokens : Array Token} {i line m : Nat} {name : String}

/-- The rest of a `foreach`, from its variable on, wherever the cursor stands: the variable, the parenthesis behind it and
a body with nothing in it. -/
theorem run_foreachHead (pos : Nat) (hdollar : tokens[i]? = some ⟨.dollar, "$", line⟩)
    (hname : tokens[i + 1]? = some ⟨.name, name, line⟩) (ht : tokens[i + 3]? = some t) (hopen : t.is .openBrace = true)
    (hu : tokens[i + 4]? = some u) (hclose : u.is .closeBrace = true) :
    (foreachHead (readers (m + 1)) i (i + 2)).run ⟨tokens, pos, i + 5⟩ =
      (.value false name (headerVariable i line name) (.block [] none), ⟨tokens, i + 5, i + 5⟩) := by
  have inside : i + 4 < tokens.size := (Array.getElem?_eq_some_iff.mp hu).1
  have noArrow : Scan.findAtDepth tokens (fun _ => 0) (fun t _ => t.is .doubleArrow) 2 i 0 = none := by
    simp [Scan.findAtDepth, hdollar, hname, Token.is, TokenKind.classes]
  have value : ((readers (m + 1)).expr false).run ((⟨tokens, pos, i + 5⟩ : TokenStream).window i (i + 2)) =
      (headerVariable i line name, ⟨tokens, i + 2, i + 2⟩) := by
    rw [TokenStream.window_inside _ (Nat.le_add_right i 2) (by dsimp only; omega)]
    exact run_expr_variable (readers m) hdollar hname
  have body : (block (readers (m + 1))).run ((⟨tokens, pos, i + 5⟩ : TokenStream).setPos (i + 3)) =
      (.block [] none, ⟨tokens, i + 5, i + 5⟩) := by
    rw [TokenStream.setPos_inside _ (by dsimp only; omega)]
    refine run_block_empty _ (t := t) (u := u) ?_ hopen ?_ hclose rfl
    · simp [TokenStream.peek, TokenStream.peekNth, ht]
    · simp [TokenStream.peekNth, hu]
  have whole : (foreachHead (readers (m + 1)) i (i + 2)).run ⟨tokens, pos, i + 5⟩ =
      (foreachValue (readers (m + 1)) i (i + 2)).run ⟨tokens, pos, i + 5⟩ := by
    simp [foreachHead, findIndex, noArrow]
  have byValue : ((⟨tokens, pos, i + 5⟩ : TokenStream).get? i).any (·.is .ampersand) = false := by
    simp [TokenStream.get?, hdollar, Token.is, TokenKind.classes]
  have sole : (headerVariable i line name).soleVariableName? = some name := rfl
  replace body : (block (readers (m + 1))).run ((⟨tokens, pos, i + 5⟩ : TokenStream).setPos (i + 3)) =
      (pure (.block [] none, ⟨tokens, i + 5, i + 5⟩) : Id _) := body
  rw [whole]
  simp only [foreachValue, within, bind_pure_comp, setPos, bind_map_left, StateT.run_bind, StateT.run_get, pure_bind,
    byValue, Bool.false_eq_true, ↓reduceIte, add_le_iff_nonpos_right, nonpos_iff_eq_zero, OfNat.ofNat_ne_zero, value,
    sole, StateT.run_modify, StateT.run_map, body, map_pure]
  rfl

/-- A condition whose expression goes up to its end. -/
theorem run_condition_whole {value : Expr} {start stop : Nat} (hle : start ≤ stop) (hstop : stop ≤ s.tokens.size)
    (hexpr : (r.expr false).run ⟨s.tokens, start, stop⟩ = (value, ⟨s.tokens, stop, stop⟩)) :
    (condition r start stop).run s = ((value, []), s) := by
  replace hexpr : (r.expr false).run (s.window start stop) = (pure (value, ⟨s.tokens, stop, stop⟩) : Id _) := by
    rw [s.window_inside hle hstop]
    exact hexpr
  have inside : ((do
      let value ← r.expr false
      return (value, ← rest) : Parse (Expr × List Token)).run (s.window start stop)).1 = (value, []) := by
    simp [hexpr, rest]
    rfl
  show (((do
      let value ← r.expr false
      return (value, ← rest) : Parse (Expr × List Token)).run (s.window start stop)).1, s) = _
  rw [inside]

/-- A `foreach` over tokens that can stand in a header is read up to its end, whatever they come to. -/
theorem run_foreachStatement {e : List Token} (he : Embeddable e) (has : NoAs e) (line behind : Nat) {value : Expr}
    (hvalue : (expr (readers m) false).run ⟨(foreachTokens line e behind).toArray, 2, 2 + e.length⟩ =
      (value, ⟨(foreachTokens line e behind).toArray, 2 + e.length, 2 + e.length⟩)) :
    (foreachStatement (readers (m + 1))).run (.ofList (foreachTokens line e behind)) =
      (.foreach line value [] (.value false "v" (headerVariable (2 + e.length + 1) behind "v") (.block [] none)),
        ⟨(foreachTokens line e behind).toArray, 2 + e.length + 6, 2 + e.length + 6⟩) := by
  have hpos := he.length_pos
  have start : TokenStream.ofList (foreachTokens line e behind) =
      ⟨(foreachTokens line e behind).toArray, 0, 2 + e.length + 6⟩ := by
    simp [TokenStream.ofList, foreachTokens]
    omega
  have size : (foreachTokens line e behind).toArray.size = 2 + e.length + 6 := by
    simp [foreachTokens]
    omega
  have after (k : Nat) : (foreachTokens line e behind).toArray[2 + e.length + k]? =
      [(⟨.keyword .as_, "as", behind⟩ : Token), ⟨.dollar, "$", behind⟩, ⟨.name, "v", behind⟩, ⟨.closeParen, ")", behind⟩,
        ⟨.openBrace, "\x7b", behind⟩, ⟨.closeBrace, "\x7d", behind⟩][k]? := Embeddable.getElem?_behind k
  have as₀ : (foreachTokens line e behind).toArray[2 + e.length]? = some ⟨.keyword .as_, "as", behind⟩ := after 0
  have as₁ := after 1
  have as₂ := after 2
  have as₃ := after 3
  have closing : Scan.matching? (foreachTokens line e behind).toArray [.openParen] [.closeParen] 2 (2 + e.length + 6) =
      some (2 + e.length + 3) := by
    rw [Scan.matching?, show 2 + e.length + 6 - 2 = e.length + 6 by omega]
    refine (he.findAtDepth_closing 6).trans ?_
    show Scan.findAtDepth (foreachTokens line e behind).toArray _ _ 6 (2 + e.length) 1 = _
    simp [Scan.findAtDepth, as₀, as₁, as₂, as₃, Scan.depthChange, Token.isAny, Token.is, TokenKind.classes]
  have as : Scan.findAtDepth (foreachTokens line e behind).toArray (fun _ => 0) (fun t _ => t.isKeyword .as_)
      (2 + e.length + 1) 2 0 = some (2 + e.length) := by
    rw [show 2 + e.length + 1 = e.length + 3 by omega]
    refine (has.findAtDepth_as 3).trans ?_
    exact Scan.findAtDepth_stop (after 0) rfl
  have source : (condition (readers (m + 1)) 2 (2 + e.length)).run
      ⟨(foreachTokens line e behind).toArray, 1, 2 + e.length + 6⟩ =
      (pure ((value, []), ⟨(foreachTokens line e behind).toArray, 1, 2 + e.length + 6⟩) : Id _) :=
    run_condition_whole (Nat.le_add_right ..) (by dsimp only; omega) hvalue
  have head : (foreachHead (readers (m + 1)) (2 + e.length + 1) (2 + e.length + 3)).run
      ⟨(foreachTokens line e behind).toArray, 1, 2 + e.length + 6⟩ =
      (pure (.value false "v" (headerVariable (2 + e.length + 1) behind "v") (.block [] none),
        ⟨(foreachTokens line e behind).toArray, 2 + e.length + 6, 2 + e.length + 6⟩) : Id _) :=
    run_foreachHead 1 (after 1) (after 2) (after 4) rfl (after 5) rfl
  have entered := TokenStream.advance_inside (foreachTokens line e behind).toArray (show 0 < 2 + e.length + 6 by omega)
  have opened : (⟨(foreachTokens line e behind).toArray, 1, 2 + e.length + 6⟩ : TokenStream).check [.openParen] = true :=
    TokenStream.check_of_peek (TokenStream.peek_inside (t := ⟨.openParen, "(", line⟩) (by omega) rfl) _
  have here : (⟨(foreachTokens line e behind).toArray, 0, 2 + e.length + 6⟩ : TokenStream).line = line :=
    TokenStream.line_of_peek (TokenStream.peek_inside (t := ⟨.keyword .foreach, "foreach", line⟩) (by omega) rfl)
  have group : (⟨(foreachTokens line e behind).toArray, 1, 2 + e.length + 6⟩ : TokenStream).delimit 2 [.openParen]
      [.closeParen] = 2 + e.length + 3 := by
    rw [TokenStream.delimit, closing]
    rfl
  have filled : (some (1, 2 + e.length + 3)).filter (fun range => decide (range.1 + 1 < range.2)) =
      some (1, 2 + e.length + 3) := by
    rw [Option.filter_some, if_pos (decide_eq_true (by dsimp only; omega))]
  have present : (some (2 + e.length)).filter (fun i => decide (2 < i)) = some (2 + e.length) := by
    rw [Option.filter_some, if_pos (decide_eq_true (by omega))]
  rw [start]
  simp only [foreachStatement, Parse.line, bind_pure_comp, advance, check, Bool.not_eq_eq_eq_not, Bool.not_true,
    filledParenGroup?, parenGroup?, group?, Functor.map_map, findIndex, bind_map_left, StateT.run_bind,
    StateT.run_get, StateT.run_modify, pure_bind, entered, opened, Bool.true_eq_false, ↓reduceIte, here,
    Nat.reduceAdd, group, add_lt_add_iff_left, Nat.reduceLT]
  rw [filled]
  simp
  rw [as, present]
  simp [source, head]
  rfl

end Parse

/-! ### Switches on an expression -/

/-- The tokens of a `switch` on `$x` with one case, whose guard is some tokens and whose body is empty. -/
def switchTokens (line : Nat) (e : List Token) (behind : Nat) : List Token :=
  [⟨.keyword .switch, "switch", line⟩, ⟨.openParen, "(", line⟩, ⟨.dollar, "$", line⟩, ⟨.name, "x", line⟩,
      ⟨.closeParen, ")", line⟩, ⟨.openBrace, "\x7b", line⟩, ⟨.keyword .case_, "case", line⟩] ++ e ++
    [⟨.colon, ":", behind⟩, ⟨.closeBrace, "\x7d", behind⟩]

namespace Parse

variable {e : List Token} {line behind m : Nat} {value : Expr} {first : Token}

theorem getElem?_switchTokens_behind (k : Nat) : (switchTokens line e behind).toArray[7 + e.length + k]? =
    [(⟨.colon, ":", behind⟩ : Token), ⟨.closeBrace, "\x7d", behind⟩][k]? := Embeddable.getElem?_behind k

theorem size_switchTokens : (switchTokens line e behind).toArray.size = 7 + e.length + 2 := by
  simp [switchTokens]
  omega

/-- A guard goes up to the colon behind it. -/
theorem run_caseGuard? (he : Embeddable e) (hlabel : NoLabel e) (hfirst : e[0]? = some first)
    (hvalue : (expr (readers m) false).run ⟨(switchTokens line e behind).toArray, 7, 7 + e.length⟩ =
      (value, ⟨(switchTokens line e behind).toArray, 7 + e.length, 7 + e.length⟩)) :
    (caseGuard? (readers (m + 1))).run ⟨(switchTokens line e behind).toArray, 7, 7 + e.length + 2⟩ =
      (some (first.line, value), ⟨(switchTokens line e behind).toArray, 7 + e.length, 7 + e.length + 2⟩) := by
  have hpos := he.length_pos
  have size : (switchTokens line e behind).toArray.size = 7 + e.length + 2 := size_switchTokens
  have colon : (switchTokens line e behind).toArray[7 + e.length]? = some ⟨.colon, ":", behind⟩ :=
    getElem?_switchTokens_behind 0
  have start : (switchTokens line e behind).toArray[7]? = some first := (Embeddable.getElem?_inside hpos).trans hfirst
  have ends : Scan.findAtDepth (switchTokens line e behind).toArray (Scan.depthChange [.openParen] [.closeParen])
      (fun t depth => t.isAny [.semicolon, .colon] && depth < 1)
      (⟨(switchTokens line e behind).toArray, 7, 7 + e.length + 2⟩ : TokenStream).remaining 7 0 = some (7 + e.length) := by
    rw [TokenStream.remaining, show 7 + e.length + 2 - 7 = e.length + 2 by omega]
    refine (he.findAtDepth_label hlabel 2).trans ?_
    exact Scan.findAtDepth_stop colon rfl
  have here : (⟨(switchTokens line e behind).toArray, 7, 7 + e.length + 2⟩ : TokenStream).line = first.line :=
    TokenStream.line_of_peek (TokenStream.peek_inside (by omega) start)
  have window : (⟨(switchTokens line e behind).toArray, 7, 7 + e.length + 2⟩ : TokenStream).window 7 (7 + e.length) =
      ⟨(switchTokens line e behind).toArray, 7, 7 + e.length⟩ :=
    TokenStream.window_inside _ (Nat.le_add_right ..) (by dsimp only; omega)
  have moved : (⟨(switchTokens line e behind).toArray, 7, 7 + e.length + 2⟩ : TokenStream).setPos (7 + e.length) =
      ⟨(switchTokens line e behind).toArray, 7 + e.length, 7 + e.length + 2⟩ :=
    TokenStream.setPos_inside _ (by dsimp only; omega)
  replace hvalue : ((readers (m + 1)).expr false).run ⟨(switchTokens line e behind).toArray, 7, 7 + e.length⟩ =
      (value, ⟨(switchTokens line e behind).toArray, 7 + e.length, 7 + e.length⟩) := hvalue
  simp only [caseGuard?, Parse.line, bind_pure_comp, within, setPos, bind_map_left,
    LawfulMonadStateOf.get_bind_get_bind, StateT.run_bind, StateT.run_get, pure_bind, ends, Option.getD_some,
    add_le_iff_nonpos_right, nonpos_iff_eq_zero, List.length_eq_zero_iff, he.filled, ↓reduceIte, StateT.run_map,
    StateT.run_modify, map_pure, here, window, hvalue, moved]
  rfl

/-- A colon right behind a guard leaves nothing over. -/
theorem run_labelRest {s : TokenStream} {t : Token} (ht : s.peek = some t) (hcolon : t.is .colon = true) :
    labelRest.run s = ([], s.advance) := by
  have still : s.skipUntil [.semicolon, .colon] = s := by
    have none (n : Nat) : s.runLength (fun t => !t.isAny [.semicolon, .colon]) n 0 = 0 := by
      cases n with
      | zero => rfl
      | succ n =>
          rw [TokenStream.runLength, show s.peekNth 0 = some t from ht]
          simp [Token.isAny, hcolon]
    rw [TokenStream.skipUntil, TokenStream.skipWhile, none]
    rfl
  simp [labelRest, still, pos, advance]
  rfl

theorem run_sectionItems_closed {s : TokenStream} {t : Token} (r : Readers) (n : Nat) (ht : s.peek = some t)
    (hclose : t.is .closeBrace = true) : (sectionItems r (n + 1)).run s = (([], true), s.advance) := by
  simp [sectionItems, peek, ht, hclose, advance]
  rfl

/-- The sections of the switch: the case, and nothing behind it. -/
theorem run_sections (he : Embeddable e) (hlabel : NoLabel e) (hfirst : e[0]? = some first)
    (hvalue : (expr (readers m) false).run ⟨(switchTokens line e behind).toArray, 7, 7 + e.length⟩ =
      (value, ⟨(switchTokens line e behind).toArray, 7 + e.length, 7 + e.length⟩)) (brace end_ n : Nat) :
    (sections (readers (m + 1)) brace end_ (n + 1)).run ⟨(switchTokens line e behind).toArray, 6, 7 + e.length + 2⟩ =
      (([.case_ first.line value [] []], none),
        ⟨(switchTokens line e behind).toArray, 7 + e.length + 2, 7 + e.length + 2⟩) := by
  have word : (⟨(switchTokens line e behind).toArray, 6, 7 + e.length + 2⟩ : TokenStream).peek =
      some ⟨.keyword .case_, "case", line⟩ := TokenStream.peek_inside (by omega) rfl
  have entered := TokenStream.advance_inside (switchTokens line e behind).toArray (show 6 < 7 + e.length + 2 by omega)
  have guard : (caseGuard? (readers (m + 1))).run ⟨(switchTokens line e behind).toArray, 7, 7 + e.length + 2⟩ =
      (pure (some (first.line, value), ⟨(switchTokens line e behind).toArray, 7 + e.length, 7 + e.length + 2⟩) : Id _) :=
    run_caseGuard? he hlabel hfirst hvalue
  have colon : (⟨(switchTokens line e behind).toArray, 7 + e.length, 7 + e.length + 2⟩ : TokenStream).peek =
      some ⟨.colon, ":", behind⟩ := TokenStream.peek_inside (by omega) (getElem?_switchTokens_behind 0)
  have past := TokenStream.advance_inside (switchTokens line e behind).toArray
    (show 7 + e.length < 7 + e.length + 2 by omega)
  have brace : (⟨(switchTokens line e behind).toArray, 7 + e.length + 1, 7 + e.length + 2⟩ : TokenStream).peek =
      some ⟨.closeBrace, "\x7d", behind⟩ := TokenStream.peek_inside (by omega) (getElem?_switchTokens_behind 1)
  have left := TokenStream.advance_inside (switchTokens line e behind).toArray
    (show 7 + e.length + 1 < 7 + e.length + 2 by omega)
  have rest : labelRest.run ⟨(switchTokens line e behind).toArray, 7 + e.length, 7 + e.length + 2⟩ =
      (pure ([], ⟨(switchTokens line e behind).toArray, 7 + e.length + 1, 7 + e.length + 2⟩) : Id _) := by
    rw [run_labelRest colon rfl, past]
    rfl
  have items (n : Nat) : (sectionItems (readers (m + 1)) (n + 1)).run
      ⟨(switchTokens line e behind).toArray, 7 + e.length + 1, 7 + e.length + 2⟩ =
      (pure (([], true), ⟨(switchTokens line e behind).toArray, 7 + e.length + 2, 7 + e.length + 2⟩) : Id _) := by
    rw [run_sectionItems_closed _ _ brace rfl, left]
    rfl
  simp only [sections, peek, bind_pure_comp, Token.is, TokenKind.classes, List.contains_eq_mem, decide_eq_true_eq,
    advance, Token.isKeyword, Token.keyword?, TokenKind.keyword?, beq_iff_eq, map_pure, Parse.line, bind_map_left,
    StateT.run_bind, StateT.run_get, pure_bind, word, List.mem_cons, reduceCtorEq, List.not_mem_nil, or_self,
    ↓reduceIte, Option.some.injEq, StateT.run_modify, entered, guard, rest, items, StateT.run_pure]
  rfl

/-- A `switch` with a guard of tokens that can stand in a header is read up to its end, whatever they come to. -/
theorem run_switchStatement (he : Embeddable e) (hlabel : NoLabel e) (hfirst : e[0]? = some first)
    (hvalue : (expr (readers m) false).run ⟨(switchTokens line e behind).toArray, 7, 7 + e.length⟩ =
      (value, ⟨(switchTokens line e behind).toArray, 7 + e.length, 7 + e.length⟩)) :
    (switchStatement (readers (m + 1))).run (.ofList (switchTokens line e behind)) =
      (.switch (headerVariable 2 line "x") [] [.case_ first.line value [] []] none,
        ⟨(switchTokens line e behind).toArray, 7 + e.length + 2, 7 + e.length + 2⟩) := by
  have size : (switchTokens line e behind).toArray.size = 7 + e.length + 2 := size_switchTokens
  have start : TokenStream.ofList (switchTokens line e behind) =
      ⟨(switchTokens line e behind).toArray, 0, 7 + e.length + 2⟩ := by
    rw [TokenStream.ofList, ← size, List.size_toArray]
  have front (k : Nat) (t : Token) (hk : k < 7) (ht : (switchTokens line e behind).toArray[k]? = some t) :
      (⟨(switchTokens line e behind).toArray, k, 7 + e.length + 2⟩ : TokenStream).peek = some t ∧
        (⟨(switchTokens line e behind).toArray, k, 7 + e.length + 2⟩ : TokenStream).advance =
          ⟨(switchTokens line e behind).toArray, k + 1, 7 + e.length + 2⟩ := by
    have hlt : k < 7 + e.length + 2 := by omega
    exact ⟨TokenStream.peek_inside hlt ht, TokenStream.advance_inside _ hlt⟩
  obtain ⟨word, entered⟩ := front 0 ⟨.keyword .switch, "switch", line⟩ (by omega) rfl
  obtain ⟨paren, -⟩ := front 1 ⟨.openParen, "(", line⟩ (by omega) rfl
  obtain ⟨brace, past⟩ := front 5 ⟨.openBrace, "\x7b", line⟩ (by omega) rfl
  have here : (⟨(switchTokens line e behind).toArray, 0, 7 + e.length + 2⟩ : TokenStream).line = line :=
    TokenStream.line_of_peek word
  have opened : (⟨(switchTokens line e behind).toArray, 1, 7 + e.length + 2⟩ : TokenStream).check [.openParen] = true :=
    TokenStream.check_of_peek paren _
  have group : (⟨(switchTokens line e behind).toArray, 1, 7 + e.length + 2⟩ : TokenStream).delimit 2 [.openParen]
      [.closeParen] = 4 := by
    have closing : Scan.matching? (switchTokens line e behind).toArray [.openParen] [.closeParen] 2 (7 + e.length + 2) =
        some 4 := by
      rw [Scan.matching?, show 7 + e.length + 2 - 2 = e.length + 4 + 1 + 1 + 1 by omega]
      rfl
    rw [TokenStream.delimit, closing]
    rfl
  have subject : (condition (readers (m + 1)) 2 4).run ⟨(switchTokens line e behind).toArray, 1, 7 + e.length + 2⟩ =
      (pure ((headerVariable 2 line "x", []), ⟨(switchTokens line e behind).toArray, 1, 7 + e.length + 2⟩) : Id _) :=
    run_condition_whole (by omega) (by dsimp only; omega) (run_expr_variable (readers m) rfl rfl)
  have moved : (⟨(switchTokens line e behind).toArray, 1, 7 + e.length + 2⟩ : TokenStream).setPos 5 =
      ⟨(switchTokens line e behind).toArray, 5, 7 + e.length + 2⟩ :=
    TokenStream.setPos_inside _ (by dsimp only; omega)
  have inside (end_ n : Nat) : (sections (readers (m + 1)) line end_ (n + 1)).run
      ⟨(switchTokens line e behind).toArray, 6, 7 + e.length + 2⟩ =
      (pure (([.case_ first.line value [] []], none),
        ⟨(switchTokens line e behind).toArray, 7 + e.length + 2, 7 + e.length + 2⟩) : Id _) :=
    run_sections he hlabel hfirst hvalue line end_ n
  have filled : (if 4 < 7 + e.length + 2 then some (1, 4) else none).filter
      (fun range : Nat × Nat => decide (range.1 + 1 < range.2)) = some (1, 4) := by
    rw [if_pos (by omega)]
    rfl
  have braced : (some (⟨.openBrace, "\x7b", line⟩ : Token)).filter (·.is .openBrace) = some ⟨.openBrace, "\x7b", line⟩ := rfl
  rw [start]
  simp only [switchStatement, Parse.line, bind_pure_comp, advance, check, Bool.not_eq_eq_eq_not, Bool.not_true,
    filledParenGroup?, parenGroup?, group?, Functor.map_map, bind_map_left, StateT.run_bind, StateT.run_get,
    StateT.run_modify, pure_bind, entered, zero_add, opened, Bool.true_eq_false, ↓reduceIte, here, Nat.reduceAdd,
    group]
  rw [filled]
  simp only [StateT.run_bind, subject]
  simp only [setPos, Nat.reduceAdd, StateT.run_modify, peek, bind_pure_comp, StateT.run_map, StateT.run_get, map_pure,
    pure_bind, moved, brace, braced]
  rw [StateT.run_bind, StateT.run_get, pure_bind, StateT.run_bind, StateT.run_modify, pure_bind, StateT.run_bind,
    StateT.run_get, pure_bind, StateT.run_map, past, inside]
  rfl

/-! ### Sources of one header -/

/-- A loop and a switch start with a word that declares nothing. -/
theorem run_statementOf_header {s : TokenStream} {word : Keyword} {text : String} {line : Nat} (r : Readers)
    (hword : word = .foreach ∨ word = .switch) (ht : s.peek = some ⟨.keyword word, text, line⟩) :
    (statementOf r ⟨.keyword word, text, line⟩).run s = (keywordStatement r ⟨.keyword word, text, line⟩ word).run s := by
  have kind : declarationKind?.run s = (pure (none, s) : Id _) := by
    have next : s.peekNth 0 = some ⟨.keyword word, text, line⟩ := ht
    rcases hword with rfl | rfl <;>
      simp only [declarationKind?, peekNth, bind_pure_comp, peek, Token.keyword?, TokenKind.keyword?, Token.isKeyword,
        functionKind?, functionOffset?, Bool.and_eq_true, Functor.map_map, bind_map_left,
        LawfulMonadStateOf.get_bind_get_bind, StateT.run_bind, StateT.run_get, pure_bind, ht, Option.bind_some,
        Option.any_some, Token.isType, Keyword.isType, Bool.false_eq_true, ↓reduceIte, next, Option.some_beq_some,
        beq_iff_eq, reduceCtorEq, StateT.run_pure]
  have special : (⟨.keyword word, text, line⟩ : Token).is .raw = false ∧
      (⟨.keyword word, text, line⟩ : Token).is .openBrace = false := ⟨rfl, rfl⟩
  simp [statementOf, special, kind, Token.keyword?, TokenKind.keyword?]

end Parse

namespace Script

open Parse

variable {bytes : Nat} {t : Token} {ts : List Token} {body : Stmt}

/-- A statement that takes all tokens is the whole source. -/
theorem items_single {n : Nat} (hn : (t :: ts).length = n)
    (hrun : (statementOf (readers (2 * bytes + 3)) t).run (.ofList (t :: ts)) = (body, ⟨(t :: ts).toArray, n, n⟩)) :
    Script.items bytes (t :: ts) = [.onLine t.line body] := by
  subst hn
  let s : TokenStream := ⟨(t :: ts).toArray, (t :: ts).length, (t :: ts).length⟩
  have still : s.skipWhile (·.is .semicolon) = s := by
    simp [s, TokenStream.skipWhile, TokenStream.remaining, TokenStream.runLength]
  have item : (statement (readers (2 * bytes + 3))).run (.ofList (t :: ts)) = (pure (.onLine t.line body, s) : Id _) := by
    rw [run_statement (peek_ofList t ts), StateT.run_bind, hrun]
    show (if (decide ((s.skipWhile (·.is .semicolon)).pos = 0) && _) = true then _ else _ : Parse Stmt).run
      (s.skipWhile (·.is .semicolon)) = _
    rw [still]
    rfl
  have rest : ((Parse.statements (readers (2 * bytes + 4)) ts.length).run s) = (pure ([], s) : Id _) := by
    have ended : s.atEnd = true := decide_eq_true (Nat.le_refl _)
    cases ts.length with
    | zero => rfl
    | succ n =>
        show (if s.atEnd = true then pure [] else _ : Parse _).run s = _
        rw [ended, if_pos rfl]
        rfl
  rw [items_cons, StateT.run_bind, item]
  show ((Parse.statements (readers (2 * bytes + 4)) ts.length >>= fun items => pure (.onLine t.line body :: items) :
    Parse _).run s).1 = _
  rw [StateT.run_bind, rest]
  rfl

variable {e : List Token} {semicolon : Token} {bytes' line : Nat} {value : Expr}

/-- What tokens that can stand in a header come to as a statement of their own, and that there is something. -/
theorem items_embedded (he : Embeddable e) (hsemicolon : semicolon.is .semicolon = true)
    (hitems : Script.items bytes (e ++ [semicolon]) = [.onLine line (.expression value)]) :
    Scan.semicolon? (e ++ [semicolon]).toArray 0 (e.length + 1) = some e.length ∧ (∃ first, e[0]? = some first ∧ first.line = line) ∧
      value = exprBetween (readers (2 * bytes + 2)) (e ++ [semicolon]).toArray 0 e.length := by
  obtain ⟨first, rest, rfl⟩ := List.exists_cons_of_ne_nil he.filled
  obtain ⟨hline, hvalue, hrest⟩ := items_expression (by simp) hitems
  have ends := he.exprEnd_statement hsemicolon fun i hi hlt => by
    obtain ⟨u, hu, hus⟩ := hrest i hi hlt
    exact ⟨u, by rwa [← List.getElem?_toArray], hus⟩
  refine ⟨ends, ⟨first, rfl, hline.symm⟩, ?_⟩
  have last : (TokenStream.ofList (first :: rest ++ [semicolon])).exprEnd 0 false = (first :: rest).length := by
    show (Scan.semicolon? (first :: rest ++ [semicolon]).toArray 0 (first :: rest ++ [semicolon]).length).getD _ = _
    rw [List.length_append, show [semicolon].length = 1 from rfl, ends]
    rfl
  rw [← last]
  exact hvalue

/-- Tokens come to something: an expression, or an error. -/
theorem ne_missing_embedded (he : Embeddable e) (hsemicolon : semicolon.is .semicolon = true)
    (hitems : Script.items bytes (e ++ [semicolon]) = [.onLine line (.expression value)]) : value ≠ .missing := by
  obtain ⟨-, -, rfl⟩ := items_embedded he hsemicolon hitems
  have hpos := he.length_pos
  have built := Node.build_ne_none hpos (show e.length ≤ (e ++ [semicolon]).toArray.size by simp)
  unfold exprBetween
  rw [if_neg (Nat.not_le_of_lt hpos)]
  generalize Node.build (e ++ [semicolon]).toArray 0 e.length = tree at built ⊢
  cases tree with
  | error error => exact Expr.noConfusion
  | ok root =>
      cases root with
      | none => exact absurd rfl built
      | some root => exact Expr.noConfusion

/-- A `foreach` over the tokens of a statement is a loop over the expression of the statement. -/
theorem items_foreach (he : Embeddable e) (has : NoAs e) (hsemicolon : semicolon.is .semicolon = true)
    (hitems : Script.items bytes (e ++ [semicolon]) = [.onLine line (.expression value)])
    (hbytes : Token.extents (e ++ [semicolon]) ≤ bytes + 1)
    (hbytes' : Token.extents (foreachTokens line e semicolon.line) ≤ bytes' + 1) :
    Script.items bytes' (foreachTokens line e semicolon.line) =
      [.onLine line (.foreach line value []
        (.value false "v" (headerVariable (2 + e.length + 1) semicolon.line "v") (.block [] none)))] := by
  obtain ⟨ends, -, rfl⟩ := items_embedded he hsemicolon hitems
  have first := semicolon.extent_pos
  have shorter : Token.extents e + semicolon.extent ≤ bytes + 1 := by simpa using hbytes
  have shorter' : Token.extents e + 1 ≤ bytes' + 1 := by
    simp only [foreachTokens, Token.extents_append, Token.extents_cons] at hbytes'
    have := Token.extent_pos ⟨.openParen, "(", line⟩
    omega
  have lines : ∀ t ∈ [(⟨.keyword .as_, "as", semicolon.line⟩ : Token), ⟨.dollar, "$", semicolon.line⟩,
      ⟨.name, "v", semicolon.line⟩, ⟨.closeParen, ")", semicolon.line⟩, ⟨.openBrace, "\x7b", semicolon.line⟩,
      ⟨.closeBrace, "\x7d", semicolon.line⟩], t.line = semicolon.line := by simp
  have source := @Passage.run_expr_embedded [⟨.keyword .foreach, "foreach", line⟩, ⟨.openParen, "(", line⟩] e _ semicolon he
    (List.cons_ne_nil _ _) lines ends (2 * bytes + 2) (2 * bytes' + 2) (by omega) (by omega)
  have read := run_foreachStatement he has line semicolon.line source
  have peek : (TokenStream.ofList (foreachTokens line e semicolon.line)).peek = some ⟨.keyword .foreach, "foreach", line⟩ :=
    peek_ofList _ _
  have length : (foreachTokens line e semicolon.line).length = 2 + e.length + 6 := by
    simp [foreachTokens]
    omega
  exact items_single length ((run_statementOf_header _ (.inl rfl) peek).trans read)

/-- A `switch` with a case of the tokens of a statement has the expression of the statement as its guard. -/
theorem items_switch (he : Embeddable e) (hlabel : NoLabel e) (hsemicolon : semicolon.is .semicolon = true)
    (hitems : Script.items bytes (e ++ [semicolon]) = [.onLine line (.expression value)])
    (hbytes : Token.extents (e ++ [semicolon]) ≤ bytes + 1)
    (hbytes' : Token.extents (switchTokens line e semicolon.line) ≤ bytes' + 1) :
    Script.items bytes' (switchTokens line e semicolon.line) =
      [.onLine line (.switch (headerVariable 2 line "x") [] [.case_ line value [] []] none)] := by
  obtain ⟨ends, ⟨first, hfirst, rfl⟩, rfl⟩ := items_embedded he hsemicolon hitems
  have last := semicolon.extent_pos
  have shorter : Token.extents e + semicolon.extent ≤ bytes + 1 := by simpa using hbytes
  have shorter' : Token.extents e + 1 ≤ bytes' + 1 := by
    simp only [switchTokens, Token.extents_append, Token.extents_cons] at hbytes'
    have := Token.extent_pos ⟨.openParen, "(", first.line⟩
    omega
  have lines : ∀ t ∈ [(⟨.colon, ":", semicolon.line⟩ : Token), ⟨.closeBrace, "\x7d", semicolon.line⟩],
      t.line = semicolon.line := by simp
  have guard := @Passage.run_expr_embedded [⟨.keyword .switch, "switch", first.line⟩, ⟨.openParen, "(", first.line⟩,
    ⟨.dollar, "$", first.line⟩, ⟨.name, "x", first.line⟩, ⟨.closeParen, ")", first.line⟩,
    ⟨.openBrace, "\x7b", first.line⟩, ⟨.keyword .case_, "case", first.line⟩] e _ semicolon he (List.cons_ne_nil _ _) lines
    ends (2 * bytes + 2) (2 * bytes' + 2) (by omega) (by omega)
  have read := run_switchStatement he hlabel hfirst guard
  have peek : (TokenStream.ofList (switchTokens first.line e semicolon.line)).peek =
      some ⟨.keyword .switch, "switch", first.line⟩ := peek_ofList _ _
  have length : (switchTokens first.line e semicolon.line).length = 7 + e.length + 2 := by
    rw [← List.size_toArray, size_switchTokens]
  exact items_single length ((run_statementOf_header _ (.inr rfl) peek).trans read)

end Script

end StackScript
