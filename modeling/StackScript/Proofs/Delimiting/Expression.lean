/-
An expression and its end.

Where an expression ends is told by a scan of the tokens behind the cursor.  Up to there nothing else of the window is
looked at, so the expression of a statement is what the same tokens come to in any window in which they end.  Only one
reader of statements returns an expression, and so a source that is a single expression statement is the expression that
all its tokens come to.
-/
import StackScript.Proofs.Leftovers
import StackScript.Proofs.Reading.Script
import StackScript.Proofs.Yields

namespace StackScript

/-! ### Scanning over tokens -/

namespace Scan

variable {tokens : Array Token} {change : Token → Int} {p : Token → Int → Bool}

/-- How much deeper the tokens lead. -/
def rise (change : Token → Int) (ts : List Token) : Int := (ts.map change).sum

theorem rise_nil (change : Token → Int) : rise change [] = 0 := rfl

theorem rise_cons (change : Token → Int) (t : Token) (ts : List Token) : rise change (t :: ts) = change t + rise change ts :=
  List.sum_cons

/-- Tokens of which none fits are passed over. -/
theorem findAtDepth_pass {ts : List Token} {n i : Nat} {depth : Int} (hts : ∀ k < ts.length, tokens[i + k]? = ts[k]?)
    (hp : ∀ k t, ts[k]? = some t → p t (depth + rise change (ts.take k)) = false) :
    findAtDepth tokens change p (ts.length + n) i depth =
      findAtDepth tokens change p n (i + ts.length) (depth + rise change ts) := by
  induction ts generalizing i depth with
  | nil => simp [rise_nil]
  | cons t ts ih =>
      have here : tokens[i]? = some t := hts 0 (Nat.zero_lt_succ _)
      have first : p t depth = false := by simpa [rise_nil] using hp 0 t rfl
      have index : (t :: ts).length + n = ts.length + n + 1 := by rw [List.length_cons]; omega
      rw [index, findAtDepth, here]
      dsimp only
      rw [first, if_neg Bool.false_ne_true, ih]
      · rw [rise_cons, List.length_cons, Int.add_assoc, Nat.add_assoc, Nat.add_comm 1]
      · intro k hk
        have := hts (k + 1) (Nat.succ_lt_succ hk)
        rwa [List.getElem?_cons_succ, ← Nat.add_assoc, Nat.add_right_comm] at this
      · intro k u hu
        have := hp (k + 1) u hu
        rwa [List.take_succ_cons, rise_cons, ← Int.add_assoc] at this

/-- A token that fits ends the search. -/
theorem findAtDepth_stop {n i : Nat} {depth : Int} {t : Token} (ht : tokens[i]? = some t) (hp : p t depth = true) :
    findAtDepth tokens change p (n + 1) i depth = some i := by
  rw [findAtDepth, ht]
  exact if_pos hp

/-- A search that finds nothing has passed over every token. -/
theorem not_fits_of_none {ts : List Token} {i : Nat} {depth : Int} (hts : ∀ k < ts.length, tokens[i + k]? = ts[k]?)
    (h : findAtDepth tokens change p ts.length i depth = none) {k : Nat} {t : Token} (ht : ts[k]? = some t) :
    p t (depth + rise change (ts.take k)) = false := by
  induction ts generalizing i depth k with
  | nil => cases ht
  | cons u ts ih =>
      have here : tokens[i]? = some u := hts 0 (Nat.zero_lt_succ _)
      rw [List.length_cons, findAtDepth, here] at h
      dsimp only at h
      split at h
      · cases h
      · rename_i hu
        cases k with
        | zero =>
            cases ht
            simpa [rise_nil] using hu
        | succ k =>
            rw [List.take_succ_cons, rise_cons, ← Int.add_assoc]
            refine ih (fun k hk => ?_) h ht
            have := hts (k + 1) (Nat.succ_lt_succ hk)
            rwa [List.getElem?_cons_succ, ← Nat.add_assoc, Nat.add_right_comm] at this

/-- A longer search finds the same. -/
theorem findAtDepth_longer {n i j : Nat} {depth : Int} (m : Nat) (h : findAtDepth tokens change p n i depth = some j) :
    findAtDepth tokens change p (n + m) i depth = some j := by
  induction n generalizing i depth with
  | zero => cases h
  | succ n ih =>
      rw [Nat.add_right_comm, findAtDepth]
      rw [findAtDepth] at h
      cases ht : tokens[i]? with
      | none => simp [ht] at h
      | some t =>
          rw [ht] at h
          dsimp only at h ⊢
          split at h
          · rename_i hp
            rw [if_pos hp, h]
          · rename_i hp
            rw [if_neg hp, ih h]

end Scan

/-! ### Expressions in windows -/

namespace Parse

variable {r : Readers} {s s' : TokenStream} {value : Expr} {t : Token}

/-- An expression does not depend on what is behind its end. -/
theorem run_exprBetween (r : Readers) (s : TokenStream) (atComma : Bool) :
    (expr r atComma).run s = (exprBetween r s.tokens s.pos (s.exprEnd s.pos atComma),
      if s.exprEnd s.pos atComma ≤ s.pos then s else s.setPos (s.exprEnd s.pos atComma)) := by
  unfold expr exprBetween
  show (if s.exprEnd s.pos atComma ≤ s.pos then _ else _ : Parse Expr).run s = _
  split
  · rfl
  · show (setPos (s.exprEnd s.pos atComma) >>= _ : Parse Expr).run s = _
    cases Node.build s.tokens s.pos (s.exprEnd s.pos atComma) with
    | error error => rfl
    | ok root =>
        cases root with
        | none => rfl
        | some root => rfl

/-! ### Expression statements -/

/-- Whatever the statement is, it is no expression. -/
def NoExpression : Stmt → Prop
  | .expression _ => False
  | _ => True

/-- Where a reader of statements comes to an expression, it has read nothing else. -/
def IsExpression (r : Readers) (s : TokenStream) (p : Parse Stmt) : Prop :=
  ∀ value s', p.run s = (.expression value, s') → (r.expr false).run s = (value, s')

theorem isExpression_of_yields {p : Parse Stmt} (h : p.Yields NoExpression) : IsExpression r s p := by
  intro value s' hrun
  have none := h s
  rw [hrun] at none
  exact none.elim

theorem isExpression_statement : IsExpression r s (expressionStatement r) := by
  intro value s' h
  unfold expressionStatement at h
  rw [StateT.run_map] at h
  cases h
  rfl

/-- The reader only looks: it leaves the stream as it is. -/
def Looks {α : Type} (p : Parse α) : Prop := ∀ s, (p.run s).2 = s

theorem Looks.pure {α : Type} (a : α) : Looks (pure a) := fun _ => rfl

theorem Looks.bind {α β : Type} {p : Parse α} {f : α → Parse β} (hp : Looks p) (hf : ∀ a, Looks (f a)) :
    Looks (p >>= f) := fun s => (hf _ _).trans (hp s)

theorem looks_peekNth (n : Nat) : Looks (peekNth n) := fun _ => rfl

/-- What is only looked at does not matter. -/
theorem isExpression_look {α : Type} {look : Parse α} {f : α → Parse Stmt} (hlook : Looks look)
    (h : ∀ a, IsExpression r s (f a)) : IsExpression r s (look >>= f) := by
  intro value s' hrun
  rw [StateT.run_bind] at hrun
  refine h (look.run s).1 value s' ?_
  have still := hlook s
  generalize look.run s = looked at hrun still
  obtain ⟨a, s₁⟩ := looked
  cases still
  exact hrun

theorem isExpression_ite {c : Prop} [Decidable c] {p q : Parse Stmt} (hp : IsExpression r s p) (hq : IsExpression r s q) :
    IsExpression r s (if c then p else q) := by
  split
  · exact hp
  · exact hq

theorem noExpression_report (report : Report) : Yields (pure (.report report)) NoExpression := .pure trivial

theorem noExpression_dropped (line : Nat) (problem : Problem) : (dropped line problem).Yields NoExpression :=
  .behind fun _ => noExpression_report _

theorem noExpression_recovered (line : Nat) (problem : Problem) : (recovered line problem).Yields NoExpression :=
  .behind fun _ => noExpression_report _

theorem noExpression_braces : (braces r).Yields NoExpression :=
  .behind fun _ => .behind fun _ => .behind fun _ => .behind fun _ => .pure trivial

/-! #### Declarations -/

theorem noExpression_function : (functionDeclaration r).Yields NoExpression := by
  unfold functionDeclaration
  refine .behind fun here => .behind fun returns => .behind fun _ => .behind fun byRef => .behind fun next => ?_
  split
  · exact .behind fun _ => .behind fun _ => noExpression_report _
  · refine .behind fun _ => .behind fun opened => .ite ?_ (.behind fun _ => noExpression_report _)
    refine .behind fun parenLine => .behind fun read => ?_
    split
    · exact .behind fun _ => noExpression_report _
    · exact .behind fun _ => .pure trivial

theorem noExpression_classBody (head : ClassHead) (withoutBrace unclosed : Problem) :
    (classBody r head withoutBrace unclosed).Yields NoExpression := by
  unfold classBody
  refine .behind fun opened => .ite (noExpression_dropped _ _) (.behind fun group => ?_)
  split
  · exact .behind fun _ => noExpression_report _
  · exact .behind fun read => .behind fun _ => .pure trivial

theorem noExpression_class (flags : ClassFlags) : (classDeclaration r flags).Yields NoExpression := by
  unfold classDeclaration
  refine .behind fun here => .behind fun _ => .behind fun next => ?_
  split
  · exact noExpression_dropped _ _
  · refine .behind fun _ => .behind fun bases => ?_
    split
    · exact noExpression_dropped _ _
    · refine .behind fun interfaces => ?_
      split
      · exact noExpression_dropped _ _
      · exact noExpression_classBody _ _ _

theorem noExpression_interface : (interfaceDeclaration r).Yields NoExpression := by
  unfold interfaceDeclaration
  refine .behind fun here => .behind fun _ => .behind fun next => ?_
  split
  · exact noExpression_dropped _ _
  · refine .behind fun _ => .behind fun bases => ?_
    split
    · exact noExpression_dropped _ _
    · exact noExpression_classBody _ _ _

theorem noExpression_namespace : (namespaceDeclaration r).Yields NoExpression := by
  unfold namespaceDeclaration
  refine .behind fun here => .behind fun _ => .behind fun next => ?_
  split
  · exact noExpression_dropped _ _
  · refine .behind fun _ => .behind fun opened => .ite (.behind fun _ => noExpression_dropped _ _) (.behind fun group => ?_)
    split
    · exact .behind fun _ => noExpression_report _
    · exact .behind fun items => .behind fun _ => .pure trivial

theorem noExpression_using : usingStatement.Yields NoExpression := by
  unfold usingStatement
  have ends (here : Nat) : Yields (do
      if ← check [.semicolon] then return .using_ here
      else recovered here (.usingUnterminated (textOf (← peek)))) NoExpression :=
    .behind fun ended => .ite (.pure trivial) (.behind fun _ => noExpression_recovered _ _)
  exact .behind fun here => .behind fun _ => .behind fun _ => .behind fun renamed =>
    .ite (.behind fun _ => ends here) (ends here)

theorem noExpression_declaration (kind : DeclarationKind) : (declaration r kind).Yields NoExpression := by
  cases kind with
  | class_ flags => exact .ite (.behind fun _ => noExpression_class flags) (noExpression_class flags)
  | interface => exact noExpression_interface
  | function => exact noExpression_function
  | namespace_ => exact noExpression_namespace
  | using_ => exact noExpression_using

theorem noExpression_constant : (constant r).Yields NoExpression := by
  unfold constant
  refine .behind fun here => .behind fun _ => .behind fun next => ?_
  split
  · exact noExpression_recovered _ _
  · refine .ite (noExpression_recovered _ _) (.behind fun _ => .behind fun equals => .ite ?_ (noExpression_recovered _ _))
    exact .behind fun valueLine => .behind fun value => .pure trivial

theorem noExpression_variables : (variableDeclaration r).Yields NoExpression := by
  unfold variableDeclaration
  refine .behind fun here => .behind fun isStatic => .behind fun type => ?_
  split
  · exact .behind fun _ => noExpression_recovered _ _
  · exact .behind fun s => .behind fun read => .pure trivial

/-! #### Control flow -/

theorem noExpression_if : (ifStatement r).Yields NoExpression := .behind fun _ => .behind fun _ => .behind fun _ => .pure trivial

theorem noExpression_switch : (switchStatement r).Yields NoExpression := by
  unfold switchStatement
  refine .behind fun here => .behind fun _ => .behind fun opened =>
    .ite (.behind fun _ => noExpression_report _) (.behind fun group => ?_)
  split
  · exact .behind fun _ => noExpression_report _
  · refine .behind fun subject => .behind fun _ => .behind fun next => ?_
    split
    · exact .behind fun _ => .behind fun _ => .pure trivial
    · exact .behind fun _ => .behind fun _ => .behind fun _ => .behind fun _ => .pure trivial

theorem noExpression_while : (whileStatement r).Yields NoExpression := by
  unfold whileStatement
  refine .behind fun here => .behind fun _ => .behind fun opened =>
    .ite (.behind fun _ => noExpression_report _) (.behind fun group => ?_)
  split
  · exact .behind fun _ => noExpression_report _
  · exact .behind fun test => .behind fun _ => .behind fun body => .pure trivial

theorem noExpression_do : (doStatement r).Yields NoExpression := by
  unfold doStatement
  refine .behind fun here => .behind fun _ => .behind fun body => .behind fun found =>
    .ite (.behind fun _ => .pure trivial) (.behind fun opened =>
      .ite (.behind fun _ => .pure trivial) (.behind fun group => ?_))
  split
  · exact .behind fun _ => .pure trivial
  · exact .behind fun test => .behind fun _ => .pure trivial

theorem noExpression_for : (forStatement r).Yields NoExpression := by
  unfold forStatement
  refine .behind fun here => .behind fun _ => .behind fun opened =>
    .ite (.behind fun _ => noExpression_report _) (.behind fun group => ?_)
  split
  · exact .behind fun _ => .behind fun _ => .behind fun _ => .behind fun _ => noExpression_report _
  · refine .behind fun init => ?_
    dsimp only
    split
    · exact .behind fun _ => .behind fun _ => .pure trivial
    · exact .behind fun test => .behind fun post => .behind fun _ => .behind fun body => .pure trivial

theorem noExpression_foreach : (foreachStatement r).Yields NoExpression := by
  unfold foreachStatement
  refine .behind fun here => .behind fun _ => .behind fun opened =>
    .ite (.behind fun _ => noExpression_report _) (.behind fun group => ?_)
  split
  · exact .behind fun _ => noExpression_report _
  · refine .behind fun as => ?_
    split
    · exact .behind fun _ => .behind fun _ => noExpression_report _
    · exact .behind fun source => .behind fun head => .pure trivial

theorem noExpression_try : (tryStatement r).Yields NoExpression :=
  .behind fun _ => .behind fun _ => .behind fun _ => .behind fun _ =>
    .ite (.behind fun _ => .behind fun _ => .pure trivial) (.behind fun _ => .pure trivial)

theorem noExpression_loopJump (jump : LoopJump) : (loopJump jump).Yields NoExpression := by
  unfold loopJump
  refine .behind fun here => .behind fun _ => .behind fun next => ?_
  split
  · exact .behind fun _ => .behind fun _ => .behind fun _ => .behind fun _ => .behind fun _ => .pure trivial
  · exact .behind fun _ => .behind fun _ => .behind fun _ => .behind fun _ => .pure trivial

theorem isExpression_keywordStatement (t : Token) (word : Keyword) : IsExpression r s (keywordStatement r t word) := by
  unfold keywordStatement
  split
  · exact isExpression_of_yields noExpression_if
  · exact isExpression_of_yields noExpression_while
  · exact isExpression_of_yields noExpression_do
  · exact isExpression_of_yields noExpression_for
  · exact isExpression_of_yields noExpression_foreach
  · exact isExpression_of_yields noExpression_switch
  · exact isExpression_of_yields noExpression_try
  · exact isExpression_of_yields (.behind fun _ => .behind fun _ => .behind fun _ => .pure trivial)
  · exact isExpression_of_yields (noExpression_loopJump _)
  · exact isExpression_of_yields (noExpression_loopJump _)
  · exact isExpression_of_yields (.behind fun _ => .behind fun _ => .pure trivial)
  · exact isExpression_of_yields (.behind fun _ => .behind fun _ => .pure trivial)
  · exact isExpression_of_yields noExpression_constant
  · exact isExpression_look (looks_peekNth 1) fun _ =>
      isExpression_ite isExpression_statement (isExpression_of_yields noExpression_variables)
  · exact isExpression_statement
  · exact isExpression_statement
  · exact isExpression_statement
  · exact isExpression_statement
  · exact isExpression_statement
  · refine isExpression_ite ?_ (isExpression_ite isExpression_statement (isExpression_of_yields (noExpression_recovered _ _)))
    exact isExpression_look (fun _ => rfl) fun _ =>
      isExpression_ite isExpression_statement (isExpression_of_yields noExpression_variables)

/-- Telling declarations from other statements takes no token. -/
theorem looks_declarationKind? : Looks declarationKind? := by
  have function : Looks functionKind? := by
    refine .bind (fun _ => rfl) fun offset => ?_
    split
    · exact .pure _
    · exact (looks_peekNth _).bind fun _ => .pure _
  refine (looks_peekNth 1).bind fun next => .bind (fun _ => rfl) fun t => ?_
  dsimp only
  split
  case h_7 => exact function
  all_goals exact .pure _

/-- A statement that is an expression is read as one. -/
theorem isExpression_statementOf (ht : s.peek = some t) : IsExpression r s (statementOf r t) := by
  unfold statementOf
  refine isExpression_ite (isExpression_of_yields (.behind fun _ => .pure trivial)) ?_
  split
  · rename_i hopened
    have opened : s.check [.openBrace] = true := by simpa [TokenStream.check, ht, Token.isAny] using hopened
    have block : (block r).run s = (braces r >>= fun body => skipSemicolons >>= fun _ => pure body : Parse Stmt).run s := by
      simp [block, check, opened]
    intro value s' h
    rw [block] at h
    exact isExpression_of_yields (noExpression_braces.bind fun _ hbody => .behind fun _ => .pure hbody) value s' h
  · refine isExpression_look looks_declarationKind? fun kind => ?_
    split
    · exact isExpression_of_yields (noExpression_declaration _)
    · split
      · exact isExpression_keywordStatement t _
      · exact isExpression_statement

end Parse

/-! ### Sources of one statement -/

namespace TokenStream

variable {s : TokenStream} {p : Token → Bool}

theorem runLength_full {n k : Nat} (h : n ≤ s.runLength p n k) {j : Nat} (hj : j < n) :
    ∃ t, s.peekNth (k + j) = some t ∧ p t = true := by
  induction n generalizing k j with
  | zero => exact absurd hj (Nat.not_lt_zero j)
  | succ n ih =>
      rw [runLength] at h
      cases hpeek : s.peekNth k with
      | none => simp [hpeek] at h
      | some t =>
          rw [hpeek] at h
          dsimp only at h
          split at h
          · rename_i ht
            cases j with
            | zero => exact ⟨t, hpeek, ht⟩
            | succ j =>
                have := ih (Nat.le_of_succ_le_succ h) (Nat.lt_of_succ_lt_succ hj)
                rwa [Nat.add_assoc, Nat.add_comm 1] at this
          · exact absurd h (Nat.not_succ_le_zero n)

/-- Skipping that comes to the end has passed over nothing else. -/
theorem skipWhile_atEnd (h : (s.skipWhile p).atEnd = true) {i : Nat} (hi : s.pos ≤ i) (hlt : i < s.stop) :
    ∃ t, s.tokens[i]? = some t ∧ p t = true := by
  have full : s.remaining ≤ s.runLength p s.remaining 0 := by
    have : s.stop ≤ s.pos + s.runLength p s.remaining 0 := of_decide_eq_true h
    rw [remaining]
    rw [remaining] at this
    omega
  obtain ⟨t, ht, hp⟩ := runLength_full full (j := i - s.pos) (by rw [remaining]; omega)
  rw [peekNth, Nat.zero_add, Nat.add_sub_cancel' hi, if_pos hlt] at ht
  exact ⟨t, ht, hp⟩

end TokenStream

namespace Script

open Parse

variable {bytes line : Nat} {value : Expr} {t : Token} {ts : List Token}

/-- The first statement of a source, and the rest. -/
theorem items_cons (bytes : Nat) (t : Token) (ts : List Token) :
    Script.items bytes (t :: ts) = ((statement (readers (2 * bytes + 3)) >>= fun item =>
      Parse.statements (readers (2 * bytes + 4)) ts.length >>= fun items => pure (item :: items) : Parse _).run
        (.ofList (t :: ts))).1 := by
  have started : (TokenStream.ofList (t :: ts)).atEnd = false := by simp [TokenStream.atEnd, TokenStream.ofList]
  show ((if (TokenStream.ofList (t :: ts)).atEnd = true then pure [] else _ : Parse _).run _).1 = _
  rw [started, if_neg Bool.false_ne_true]
  rfl

theorem peek_ofList (t : Token) (ts : List Token) : (TokenStream.ofList (t :: ts)).peek = some t := by
  simp [TokenStream.peek, TokenStream.peekNth, TokenStream.ofList]

/-- A source that is one expression statement: the expression is read from its start on, and there are only semicolons
behind it. -/
theorem items_expression (hlen : 0 < ts.length)
    (hitems : Script.items bytes (t :: ts) = [.onLine line (.expression value)]) :
    let s := TokenStream.ofList (t :: ts)
    line = t.line ∧ value = exprBetween (readers (2 * bytes + 2)) s.tokens 0 (s.exprEnd 0 false) ∧
      ∀ i, s.exprEnd 0 false ≤ i → i < s.stop → ∃ u, s.tokens[i]? = some u ∧ u.is .semicolon = true := by
  intro s
  have peek : s.peek = some t := peek_ofList t ts
  rw [items_cons, StateT.run_bind, run_statement peek, StateT.run_bind] at hitems
  generalize hmade : (statementOf (readers (2 * bytes + 3)) t).run s = made at hitems
  obtain ⟨body, s₁⟩ := made
  -- Either nothing was taken, and the statement is reported, or the next one is behind the semicolons.
  have behind (b : Bool) (s₂ : TokenStream) (h : (((if b = true then do
        Parse.advance
        return .onLine t.line (.sequence [body, .report ⟨t.line, .misplacedToken t.text⟩])
      else return .onLine t.line body : Parse Stmt) >>= fun item =>
        Parse.statements (readers (2 * bytes + 4)) ts.length >>= fun items => pure (item :: items)).run s₂).1 =
          [.onLine line (.expression value)]) :
      line = t.line ∧ body = .expression value ∧ s₂.atEnd = true := by
    cases b with
    | true => cases h
    | false =>
        obtain ⟨n, hn⟩ : ∃ n, ts.length = n + 1 := ⟨ts.length - 1, by omega⟩
        rw [hn] at h
        by_cases hend : s₂.atEnd = true
        · obtain ⟨hitem, -⟩ := List.cons.inj h
          obtain ⟨rfl, rfl⟩ := Stmt.onLine.inj hitem
          exact ⟨rfl, rfl, hend⟩
        · have rest : ∃ item items, ((Parse.statements (readers (2 * bytes + 4)) (n + 1)).run s₂).1 = item :: items := by
            show ∃ item items, ((if s₂.atEnd = true then pure [] else _ : Parse _).run s₂).1 = item :: items
            rw [if_neg hend]
            exact ⟨_, _, rfl⟩
          obtain ⟨item, items, hrest⟩ := rest
          have none : ((Parse.statements (readers (2 * bytes + 4)) (n + 1)).run s₂).1 = [] := (List.cons.inj h).2
          rw [none] at hrest
          cases hrest
  obtain ⟨hline, hbody, hend⟩ := behind _ (s₁.skipWhile (·.is .semicolon)) hitems
  subst hbody
  have hexpr := isExpression_statementOf (r := readers (2 * bytes + 3)) peek value s₁ hmade
  rw [show (readers (2 * bytes + 3)).expr false = expr (readers (2 * bytes + 2)) false from rfl, run_exprBetween] at hexpr
  obtain ⟨hvalue, hs₁⟩ := Prod.mk.inj hexpr
  refine ⟨hline, hvalue.symm, fun i hi hlt => ?_⟩
  subst hs₁
  split at hend
  · exact TokenStream.skipWhile_atEnd hend (Nat.zero_le i) hlt
  · exact TokenStream.skipWhile_atEnd hend (Nat.le_trans (Nat.min_le_left _ _) hi) hlt

end Script

end StackScript
