/-
Constants, variables and namespaces, read twice.
-/
import StackScript.Parser.Declaration
import StackScript.Proofs.Reading.Block

namespace StackScript

namespace Passage

variable {W : Passage} {first pos : Nat} {r r' : Readers}

/-- What every reader of a statement comes to. -/
abbrev ReadsStmt (W : Passage) (pos : Nat) (p p' : Parse Stmt) : Prop :=
  W.Reads pos (fun s e => s.meets .read = true ∧ pos ≤ e) p p'

theorem reads_recovered (line : Nat) (problem : Problem) :
    W.ReadsStmt pos (Parse.recovered line problem) (Parse.recovered line problem) :=
  reads_recover.bind fun _ _ he => .pure ⟨rfl, rfl, he⟩

theorem reads_dropped (line : Nat) (problem : Problem) :
    W.ReadsStmt pos (Parse.dropped line problem) (Parse.dropped line problem) :=
  reads_skipDeclaration.bind fun _ _ he => .pure ⟨rfl, rfl, he⟩

/-- A statement that is read from further on. -/
theorem ReadsStmt.later {p p' : Parse Stmt} {e : Nat} (h : W.ReadsStmt e p p') (he : pos ≤ e) :
    W.Reads e (fun s e => s.meets .read = true ∧ pos ≤ e) p p' :=
  Reads.mono h fun _ _ ⟨hs, he'⟩ => ⟨hs, Nat.le_trans he he'⟩

/-- A declaration of which the rest is read from further on. -/
theorem ReadsStmt.behind {p p' : Parse Stmt} {e : Nat} (h : W.ReadsStmt e p p') (he : pos ≤ e)
    (hlt : pos < W.stop → pos < e) :
    W.Reads e (fun s e => s.meets .read = true ∧ pos ≤ e ∧ (pos < W.stop → pos < e)) p p' :=
  Reads.mono h fun _ _ ⟨hs, he'⟩ => ⟨hs, by omega⟩

theorem reads_constant (h : W.Agree (first + 1) r r') (hpos : first ≤ pos) (hlt : pos < W.stop) :
    W.ReadsStmt pos (Parse.constant r) (Parse.constant r') := by
  unfold Parse.constant
  refine reads_line.bind fun here e₁ h₁ => reads_advance.bind fun _ e₂ h₂ => ?_
  refine reads_peek.bind fun t e₃ met => ?_
  obtain ⟨h₃, _⟩ := met
  subst h₁ h₃
  cases t.filter (·.isAny [.template, .simpleString, .name, .keyword]) with
  | none => exact (reads_recovered _ _).later h₂.1
  | some name =>
      dsimp only
      split
      · exact (reads_recovered _ _).later h₂.1
      · refine reads_advance.bind fun _ e₄ h₄ => (reads_eat _).bind fun b e₅ h₅ => ?_
        split
        · refine reads_line.bind fun valueLine e₆ h₆ => ?_
          refine (h.expr (.refl W) false (by omega)).bind fun value e₇ met => ?_
          obtain ⟨hvalue, h₇, _⟩ := met
          exact .pure ⟨rfl, hvalue, by omega⟩
        · exact (reads_recovered _ _).later (by omega)

/-! ### Variables -/

theorem reads_localDeclarator (h : W.Agree first r r') (name : String) (hpos : first ≤ pos) :
    W.Reads pos (fun d e => d.meets .read = true ∧ pos ≤ e) (Parse.localDeclarator r name)
      (Parse.localDeclarator r' name) := by
  unfold Parse.localDeclarator
  refine reads_line.bind fun here e₁ h₁ => (reads_peekNth 2).bind fun t e₂ met => ?_
  obtain ⟨h₂, _⟩ := met
  subst h₁ h₂
  split
  · refine (h.expr (.refl W) true hpos).bind fun value e met => ?_
    obtain ⟨hvalue, he, _⟩ := met
    exact .pure ⟨rfl, hvalue, he.1⟩
  · exact reads_advance.bind fun _ e₃ h₃ => reads_advance.bind fun _ e₄ h₄ => .pure ⟨rfl, rfl, by omega⟩

theorem reads_staticDeclarator (h : W.Agree first r r') (name : String) (hpos : first ≤ pos) :
    W.Reads pos (fun d e => d.meets .read = true ∧ pos ≤ e) (Parse.staticDeclarator r name)
      (Parse.staticDeclarator r' name) := by
  unfold Parse.staticDeclarator
  refine reads_line.bind fun here e₁ h₁ => reads_advance.bind fun _ e₂ h₂ => ?_
  refine reads_advance.bind fun _ e₃ h₃ => (reads_eat _).bind fun b e₄ h₄ => ?_
  split
  · refine reads_line.bind fun valueLine e₅ h₅ => ?_
    refine (h.expr (.refl W) true (by omega)).bind fun value e met => ?_
    obtain ⟨hvalue, he, _⟩ := met
    exact .pure ⟨rfl, hvalue, by omega⟩
  · exact .pure ⟨rfl, rfl, by omega⟩

/-- What stands behind a declarator: a comma and more of them, or the end of the declaration. -/
theorem reads_behindDeclarator {item : Declarator} (hitem : item.meets .read = true)
    {more more' : Parse (List Declarator × Option Report)}
    (hmore : ∀ {e}, pos ≤ e →
      W.Reads e (fun items e' => Declarator.allMeet .read items.1 = true ∧ e ≤ e') more more') :
    W.Reads pos (fun items e => Declarator.allMeet .read items.1 = true ∧ pos ≤ e)
      (do
        match ← Parse.peek with
        | none => return ([item], none)
        | some t =>
          if t.is .semicolon then return ([item], none)
          else if t.is .comma then
            Parse.advance
            let (items, fault) ← more
            return (item :: items, fault)
          else
            Parse.recover
            return ([item], some ⟨t.line, .unexpectedToken t.text⟩))
      (do
        match ← Parse.peek with
        | none => return ([item], none)
        | some t =>
          if t.is .semicolon then return ([item], none)
          else if t.is .comma then
            Parse.advance
            let (items, fault) ← more'
            return (item :: items, fault)
          else
            Parse.recover
            return ([item], some ⟨t.line, .unexpectedToken t.text⟩)) := by
  have single : Declarator.allMeet .read [item] = true := Declarator.allMeet_cons hitem rfl
  refine reads_peek.bind fun t e met => ?_
  obtain ⟨rfl, _⟩ := met
  cases t with
  | none => exact .pure ⟨rfl, single, Nat.le_refl _⟩
  | some t =>
      dsimp only
      split
      · exact .pure ⟨rfl, single, Nat.le_refl _⟩
      · split
        · refine reads_advance.bind fun _ e₁ h₁ => (hmore (by omega)).bind fun items e₂ met => ?_
          obtain ⟨hitems, h₂⟩ := met
          refine .pure ⟨rfl, ?_, by omega⟩
          exact Declarator.allMeet_cons hitem hitems
        · exact reads_recover.bind fun _ e₁ h₁ => .pure ⟨rfl, single, by omega⟩

theorem reads_declarators (h : W.Agree first r r') (line : Nat) (isStatic : Bool) (n : Nat) (hpos : first ≤ pos) :
    W.Reads pos (fun items e => Declarator.allMeet .read items.1 = true ∧ pos ≤ e)
      (Parse.declarators r line isStatic n) (Parse.declarators r' line isStatic n) := by
  induction n generalizing pos with
  | zero => exact .pure ⟨rfl, rfl, Nat.le_refl _⟩
  | succ n ih =>
      unfold Parse.declarators
      refine reads_variableName?.bind fun name e met => ?_
      obtain ⟨he, _⟩ := met
      subst he
      cases name with
      | none =>
          refine reads_peek.bind fun t e' met => reads_recover.bind fun _ e'' he'' => ?_
          obtain ⟨he', _⟩ := met
          exact .pure ⟨rfl, rfl, by omega⟩
      | some name =>
          have rest (item : Declarator) {e' : Nat} (hitem : item.meets .read = true) (he' : e ≤ e') :=
            (reads_behindDeclarator hitem fun he'' => ih (Nat.le_trans hpos (Nat.le_trans he' he''))).mono
              fun items e'' met => And.intro met.1 (Nat.le_trans he' met.2)
          dsimp only
          split
          · refine (reads_staticDeclarator h name hpos).bind fun item e' met => ?_
            obtain ⟨hitem, he'⟩ := met
            exact rest item hitem he'
          · refine (reads_localDeclarator h name hpos).bind fun item e' met => ?_
            obtain ⟨hitem, he'⟩ := met
            exact rest item hitem he'

theorem reads_variableDeclaration (h : W.Agree (first + 1) r r') (hpos : first ≤ pos) :
    W.ReadsStmt pos (Parse.variableDeclaration r) (Parse.variableDeclaration r') := by
  unfold Parse.variableDeclaration
  refine reads_line.bind fun here e₁ h₁ => (reads_eatKeyword _).bind fun isStatic e₂ h₂ => ?_
  refine reads_builtinType?.bind fun type e₃ h₃ => ?_
  cases type with
  | none =>
      refine reads_peek.bind fun t e₄ met => ?_
      obtain ⟨h₄, _⟩ := met
      exact (reads_recovered _ _).later (by omega)
  | some type =>
      have behind : e₂ < e₃ := h₃.2 rfl
      refine .get ?_
      rw [remaining_far]
      refine (reads_declarators h here isStatic _ (by omega)).bind fun items e₄ met => ?_
      obtain ⟨hitems, h₄⟩ := met
      exact .pure ⟨rfl, hitems, by omega⟩

/-! ### Namespaces -/

theorem reads_namespaceDeclaration (h : W.Agree (first + 1) r r') (hpos : first ≤ pos) :
    W.ReadsDeclaration pos (Parse.namespaceDeclaration r) (Parse.namespaceDeclaration r') := by
  unfold Parse.namespaceDeclaration
  refine reads_line.bind fun here e₁ h₁ => reads_advance.bind fun _ e₂ h₂ => ?_
  refine reads_peek.bind fun t e₃ met => ?_
  obtain ⟨h₃, _⟩ := met
  subst h₁ h₃
  cases t.filter (fun t => !t.isAny [.namespaceMark, .name, .keyword, .semicolon, .openBrace]) with
  | some t => exact (reads_dropped _ _).behind (by omega) (by omega)
  | none =>
      refine (reads_skipWhile _).bind fun _ e₄ h₄ => (reads_check _).bind fun b e₅ met => ?_
      obtain ⟨h₅, _⟩ := met
      subst h₅
      split
      · refine reads_peek.bind fun t e₆ met => ?_
        obtain ⟨h₆, _⟩ := met
        exact (reads_dropped _ _).behind (by omega) (by omega)
      · refine echo_braceGroup?.bind fun g g' e₆ met => ?_
        obtain ⟨h₆, hg⟩ := met
        subst h₆
        cases hg with
        | none => exact reads_skipToEnd.bind fun _ e h => .pure ⟨rfl, rfl, by omega⟩
        | @some close hwidth hclose =>
            have filled := W.filled
            have inside : e₆ + W.shift + 1 = e₆ + 1 + W.shift := by omega
            have behind : close + W.shift + 1 = close + 1 + W.shift := by omega
            have hle : close ≤ W.stop := by omega
            dsimp only
            rw [inside, behind]
            refine (Reads.within (by omega) hle (by omega)
              (h.scope (W.narrow_inside (by omega) hle) (by omega))).bind fun items e met => ?_
            obtain ⟨he, _, hitems, _⟩ := met
            refine (reads_setPos (by omega)).bind fun _ e' he' => ?_
            exact .pure ⟨rfl, hitems, by omega⟩

theorem reads_usingStatement : W.ReadsDeclaration pos Parse.usingStatement Parse.usingStatement := by
  unfold Parse.usingStatement
  have ending (here : Nat) {e : Nat} (he : pos ≤ e) (hlt : pos < W.stop → pos < e) :
      W.Reads e (fun s e => s.meets .read = true ∧ pos ≤ e ∧ (pos < W.stop → pos < e))
        (do
          if ← Parse.check [.semicolon] then return Stmt.using_ here
          else Parse.recovered here (.usingUnterminated (Parse.textOf (← Parse.peek))))
        (do
          if ← Parse.check [.semicolon] then return Stmt.using_ here
          else Parse.recovered here (.usingUnterminated (Parse.textOf (← Parse.peek)))) := by
    refine (reads_check _).bind fun b e₁ met => ?_
    obtain ⟨h₁, _⟩ := met
    subst h₁
    split
    · exact .pure ⟨rfl, rfl, he, hlt⟩
    · refine reads_peek.bind fun t e₂ met => ?_
      obtain ⟨h₂, _⟩ := met
      exact (reads_recovered _ _).behind (by omega) (by omega)
  refine reads_line.bind fun here e₁ h₁ => reads_advance.bind fun _ e₂ h₂ => ?_
  refine (reads_skipWhile _).bind fun _ e₃ h₃ => (reads_eatKeyword _).bind fun b e₄ h₄ => ?_
  split
  · exact (reads_skipWhile _).bind fun _ e₅ h₅ => ending here (by omega) (by omega)
  · exact ending here (by omega) (by omega)

end Passage

end StackScript
