/-
Statements and declarations, read twice.
-/
import StackScript.Parser.Statement
import StackScript.Proofs.Reading.Class
import StackScript.Proofs.Reading.Control
import StackScript.Proofs.Reading.Leaf

namespace StackScript

namespace Passage

variable {W : Passage} {first pos : Nat} {r r' : Readers}

/-- What every reader of an expression comes to. -/
abbrev ReadsExpr (W : Passage) (pos : Nat) (p p' : Parse Expr) : Prop :=
  W.Reads pos (fun x e => x.meets .read = true ∧ (pos ≤ e ∧ (pos ≤ W.stop → e ≤ W.stop)) ∧ (x.isMissing = true → e = pos))
    p p'

/-! ### Declarations -/

theorem reads_functionOffset? :
    W.Reads pos (fun _ e => e = pos) Parse.functionOffset? Parse.functionOffset? := by
  unfold Parse.functionOffset?
  refine .get ?_
  simp only [peek_far, peekNth_far]
  exact .pure ⟨rfl, rfl⟩

theorem reads_functionKind? :
    W.Reads pos (fun k e => e = pos ∧ (k.isSome = true → pos < W.stop)) Parse.functionKind? Parse.functionKind? := by
  unfold Parse.functionKind?
  refine reads_functionOffset?.bind fun offset e he => ?_
  subst he
  cases offset with
  | none => exact .pure ⟨rfl, rfl, nofun⟩
  | some offset =>
      refine (reads_peekNth (offset + 1)).bind fun t e met => ?_
      obtain ⟨he, ht⟩ := met
      refine .pure ⟨rfl, he, fun h => ?_⟩
      cases t with
      | none => simp at h
      | some t =>
          have := ht rfl
          omega

theorem reads_declarationKind? :
    W.Reads pos (fun k e => e = pos ∧ (k.isSome = true → pos < W.stop)) Parse.declarationKind? Parse.declarationKind? := by
  unfold Parse.declarationKind?
  refine (reads_peekNth 1).bind fun next e met => reads_peek.bind fun t e₁ met' => ?_
  obtain ⟨h₁, _⟩ := met
  obtain ⟨h₂, ht⟩ := met'
  subst h₁ h₂
  have found {kind : Option DeclarationKind} (h : (t.bind Token.keyword?).isSome = true) :
      e₁ = e₁ ∧ (kind.isSome = true → e₁ < W.stop) := by
    cases t with
    | none => cases h
    | some t => exact ⟨rfl, fun _ => (ht t rfl).1⟩
  dsimp only
  split <;> rename_i hword
  · exact .pure ⟨rfl, found (by rw [hword]; rfl)⟩
  · exact .pure ⟨rfl, found (by rw [hword]; rfl)⟩
  · exact .pure ⟨rfl, found (by rw [hword]; rfl)⟩
  · exact .pure ⟨rfl, found (by rw [hword]; rfl)⟩
  · exact .pure ⟨rfl, found (by rw [hword]; rfl)⟩
  · exact .pure ⟨rfl, found (by rw [hword]; rfl)⟩
  · exact reads_functionKind?

theorem reads_declaration (h : W.Agree (pos + 1) r r') (hlt : pos < W.stop) (kind : DeclarationKind) :
    W.ReadsDeclaration pos (Parse.declaration r kind) (Parse.declaration r' kind) := by
  unfold Parse.declaration
  split
  · rename_i flags
    split
    · refine reads_advance.bind fun _ e he => (reads_classDeclaration h flags (by omega)).mono fun _ _ met => ?_
      exact ⟨met.1, by omega⟩
    · exact reads_classDeclaration h flags (Nat.le_refl _)
  · exact reads_interfaceDeclaration h (Nat.le_refl _)
  · exact reads_functionDeclaration h (Nat.le_refl _) hlt
  · exact reads_namespaceDeclaration h (Nat.le_refl _)
  · exact reads_usingStatement

/-- What every reader of a declaration comes to, as a statement. -/
theorem ReadsDeclaration.stmt {p p' : Parse Stmt} (h : W.ReadsDeclaration pos p p') : W.ReadsStmt pos p p' :=
  Reads.mono h fun _ _ met => ⟨met.1, met.2.1⟩

theorem reads_undeclared (t : Token) : W.ReadsStmt pos (Parse.undeclared t) (Parse.undeclared t) :=
  reads_skipDeclaration.bind fun _ _ h₁ => (reads_eat _).bind fun _ _ h₂ => .pure ⟨rfl, rfl, Nat.le_trans h₁ h₂.1⟩

theorem reads_scopeItems (h : W.Agree (first + 1) r r') (n : Nat) (hpos : first ≤ pos) :
    W.Reads pos (fun ss e => Stmt.allMeet .read ss = true ∧ pos ≤ e) (Parse.scopeItems r n) (Parse.scopeItems r' n) := by
  induction n generalizing pos with
  | zero => exact .pure ⟨rfl, rfl, Nat.le_refl _⟩
  | succ n ih =>
      unfold Parse.scopeItems
      refine reads_peek.bind fun t e met => ?_
      obtain ⟨he, ht⟩ := met
      subst he
      cases t with
      | none => exact .pure ⟨rfl, rfl, Nat.le_refl _⟩
      | some t =>
          have hlt := (ht t rfl).1
          have behind {p p' : Parse Stmt} (item : W.ReadsStmt e p p') :
              W.Reads e (fun ss e' => Stmt.allMeet .read ss = true ∧ e ≤ e')
                (do
                  let item ← p
                  Parse.skipSemicolons
                  return .onLine t.line item :: (← Parse.scopeItems r n))
                (do
                  let item ← p'
                  Parse.skipSemicolons
                  return .onLine t.line item :: (← Parse.scopeItems r' n)) := by
            refine item.bind fun item e₁ met => reads_skipSemicolons.bind fun _ e₂ h₂ => ?_
            obtain ⟨hitem, h₁⟩ := met
            refine (ih (by omega)).bind fun items e₃ met => ?_
            obtain ⟨hitems, h₃⟩ := met
            refine .pure ⟨rfl, ?_, by omega⟩
            exact Stmt.allMeet_cons (by rwa [Stmt.meets_onLine]) hitems
          refine reads_declarationKind?.bind fun kind e₁ met => ?_
          obtain ⟨h₁, _⟩ := met
          subst h₁
          cases kind with
          | none => exact behind (reads_undeclared t)
          | some kind => exact behind (reads_declaration (h.mono (by omega)) hlt kind).stmt

theorem reads_scope (h : W.Agree (pos + 1) r r') :
    W.Reads pos (fun ss e => Stmt.allMeet .read ss = true ∧ pos ≤ e) (Parse.scope r) (Parse.scope r') := by
  unfold Parse.scope
  refine .get ?_
  rw [remaining_far]
  exact reads_scopeItems h _ (Nat.le_refl _)

/-! ### Statements -/

theorem reads_expressionStatement (hexpr : W.ReadsExpr pos (r.expr false) (r'.expr false)) :
    W.ReadsStmt pos (Parse.expressionStatement r) (Parse.expressionStatement r') :=
  hexpr.map fun _ _ ⟨hx, he, _⟩ => ⟨hx, he.1⟩

theorem reads_keywordStatement (h : W.Agree (pos + 1) r r') (hexpr : W.ReadsExpr pos (r.expr false) (r'.expr false))
    (hlt : pos < W.stop) (t : Token) (word : Keyword) :
    W.ReadsStmt pos (Parse.keywordStatement r t word) (Parse.keywordStatement r' t word) := by
  unfold Parse.keywordStatement
  split
  · exact reads_ifStatement h (Nat.le_refl _) hlt
  · exact reads_whileStatement h (Nat.le_refl _) hlt
  · exact reads_doStatement h (Nat.le_refl _) hlt
  · exact reads_forStatement h (Nat.le_refl _) hlt
  · exact reads_foreachStatement h (Nat.le_refl _) hlt
  · exact reads_switchStatement h (Nat.le_refl _) hlt
  · exact reads_tryStatement h (Nat.le_refl _) hlt
  · exact reads_throwStatement h (Nat.le_refl _) hlt
  · exact reads_loopJump _
  · exact reads_loopJump _
  · exact reads_returnStatement h (Nat.le_refl _) hlt
  · exact reads_exitStatement h (Nat.le_refl _) hlt
  · exact reads_constant h (Nat.le_refl _) hlt
  · refine (reads_peekNth 1).bind fun next e met => ?_
    obtain ⟨he, _⟩ := met
    subst he
    split
    · exact reads_expressionStatement hexpr
    · exact reads_variableDeclaration h (Nat.le_refl _)
  · exact reads_expressionStatement hexpr
  · exact reads_expressionStatement hexpr
  · exact reads_expressionStatement hexpr
  · exact reads_expressionStatement hexpr
  · exact reads_expressionStatement hexpr
  · split
    · refine reads_functionOffset?.bind fun offset e he => ?_
      subst he
      split
      · exact reads_expressionStatement hexpr
      · exact reads_variableDeclaration h (Nat.le_refl _)
    · split
      · exact reads_expressionStatement hexpr
      · exact reads_recovered _ _

theorem reads_statementOf (h : W.Agree (pos + 1) r r') (hexpr : W.ReadsExpr pos (r.expr false) (r'.expr false))
    {t : Token} (ht : (W.near pos).peek = some t) :
    W.ReadsStmt pos (Parse.statementOf r t) (Parse.statementOf r' t) := by
  have hlt := (lt_of_peek ht).1
  unfold Parse.statementOf
  split
  · exact reads_advance.bind fun _ _ he => .pure ⟨rfl, rfl, he.1⟩
  · split
    · rename_i hopened
      refine reads_bracedBlock h ?_
      simpa [TokenStream.check, ht, Token.isAny] using hopened
    · refine reads_declarationKind?.bind fun kind e met => ?_
      obtain ⟨he, _⟩ := met
      subst he
      cases kind with
      | some kind => exact (reads_declaration h hlt kind).stmt
      | none =>
          dsimp only
          split
          · exact reads_keywordStatement h hexpr hlt t _
          · exact reads_expressionStatement hexpr

/-- A statement takes at least one token. -/
theorem reads_statement (h : W.Agree (pos + 1) r r') (hexpr : W.ReadsExpr pos (r.expr false) (r'.expr false)) :
    W.Reads pos (fun s e => s.meets .read = true ∧ pos ≤ e ∧ (pos < W.stop → pos < e)) (Parse.statement r)
      (Parse.statement r') := by
  unfold Parse.statement
  refine (reads_look (peek_far W pos)).bind fun t e met => ?_
  obtain ⟨he, ht⟩ := met
  subst he
  cases t with
  | none =>
      refine .pure ⟨rfl, rfl, Nat.le_refl _, fun hlt => ?_⟩
      obtain ⟨t, hsome⟩ := peek_of_lt hlt
      rw [← ht] at hsome
      cases hsome
  | some t =>
      refine echo_pos.bind fun start start' e₁ met => ?_
      obtain ⟨h₁, hstart, hstart'⟩ := met
      subst h₁
      refine (reads_statementOf h hexpr ht.symm).bind fun body e₂ met => ?_
      obtain ⟨hbody, h₂⟩ := met
      refine reads_skipSemicolons.bind fun _ e₃ h₃ => echo_pos.bind fun here here' e₄ met => ?_
      obtain ⟨h₄, hhere, hhere'⟩ := met
      subst h₄
      refine reads_atEnd.bind fun b e₅ met => ?_
      obtain ⟨h₅, hb⟩ := met
      subst h₅
      have same : (decide (here' = start') && !b) = (decide (here = start) && !b) := by
        congr 2
        simp [hstart, hstart', hhere, hhere']
      rw [same]
      by_cases hstuck : (decide (here = start) && !b) = true
      · rw [if_pos hstuck]
        obtain ⟨hsame, hb'⟩ := Bool.and_eq_true_iff.mp hstuck
        have hlt : ¬W.stop ≤ e₅ := fun hle => by simp [hb.mpr hle] at hb'
        refine reads_advance.bind fun _ e₆ h₆ => .pure ⟨rfl, ?_, by omega, fun _ => by omega⟩
        exact both_true hbody rfl
      · rw [if_neg hstuck]
        refine .pure ⟨rfl, by rwa [Stmt.meets_onLine], by omega, fun hlt => Nat.lt_of_le_of_ne (by omega) fun heq => hstuck ?_⟩
        have hend : b = false := Bool.eq_false_iff.mpr fun hb' => by
          have := hb.mp hb'
          omega
        have : here = start := by omega
        simp [this, hend]

end Passage

end StackScript
