/-
Classes and interfaces, read twice.
-/
import StackScript.Parser.Class
import StackScript.Proofs.Reading.Declaration

namespace StackScript

namespace Passage

variable {W : Passage} {first pos : Nat} {r r' : Readers}

/-- What every reader of members comes to. -/
abbrev ReadsMembers (W : Passage) (pos : Nat) (p p' : Parse Parse.MembersRead) : Prop :=
  W.Reads pos (fun ms e => Member.allMeet .read ms.1 = true ∧ pos ≤ e) p p'

/-- Members that are read from further on. -/
theorem ReadsMembers.later {p p' : Parse Parse.MembersRead} {e : Nat} (h : W.ReadsMembers e p p') (he : pos ≤ e) :
    W.Reads e (fun ms e => Member.allMeet .read ms.1 = true ∧ pos ≤ e) p p' :=
  Reads.mono h fun _ _ ⟨hms, he'⟩ => ⟨hms, Nat.le_trans he he'⟩

/-- Names change nothing about what the parts of a script meet. -/
theorem reads_nameList? (n : Nat) : W.Reads pos (fun _ e => pos ≤ e) (Parse.nameList? n) (Parse.nameList? n) := by
  induction n generalizing pos with
  | zero => exact .pure ⟨rfl, Nat.le_refl _⟩
  | succ n ih =>
      unfold Parse.nameList?
      refine reads_peek.bind fun t e met => ?_
      obtain ⟨he, _⟩ := met
      subst he
      cases t.filter (·.is .name) with
      | none => exact .pure ⟨rfl, Nat.le_refl _⟩
      | some t =>
          refine reads_advance.bind fun _ e₁ h₁ => (reads_eat _).bind fun b e₂ h₂ => ?_
          split
          · refine ih.bind fun names e₃ h₃ => ?_
            cases names with
            | none => exact .pure ⟨rfl, by omega⟩
            | some names => exact .pure ⟨rfl, by omega⟩
          · exact .pure ⟨rfl, by omega⟩

/-! ### Members -/

theorem reads_memberKeyword : W.Reads pos (fun _ e => e = pos) Parse.memberKeyword Parse.memberKeyword := by
  unfold Parse.memberKeyword
  refine reads_peek.bind fun t e met => ?_
  obtain ⟨he, _⟩ := met
  cases t with
  | none => exact reads_line.bind fun _ _ h => .pure ⟨rfl, h.trans he⟩
  | some t =>
      dsimp only
      cases t.keyword? with
      | none => exact .pure ⟨rfl, he⟩
      | some word => exact .pure ⟨rfl, he⟩

theorem reads_classConstants (h : W.Agree first r r') (className : String) (visibility : Visibility) (n : Nat)
    (hpos : first ≤ pos) :
    W.ReadsMembers pos (Parse.classConstants r className visibility n) (Parse.classConstants r' className visibility n) := by
  induction n generalizing pos with
  | zero => exact .pure ⟨rfl, rfl, Nat.le_refl _⟩
  | succ n ih =>
      unfold Parse.classConstants
      refine reads_line.bind fun here e h₁ => reads_peek.bind fun t e₁ met => ?_
      obtain ⟨h₂, _⟩ := met
      subst h₁ h₂
      cases t.filter (·.is .name) with
      | none =>
          refine reads_peek.bind fun t e₂ met => reads_recover.bind fun _ e₃ h₄ => ?_
          obtain ⟨h₃, _⟩ := met
          exact .pure ⟨rfl, rfl, by omega⟩
      | some name =>
          dsimp only
          split
          · exact reads_recover.bind fun _ _ he => .pure ⟨rfl, rfl, he⟩
          · refine reads_advance.bind fun _ e₂ h₃ => (reads_eat _).bind fun b e₃ h₄ => ?_
            split
            · exact reads_recover.bind fun _ _ he => .pure ⟨rfl, rfl, by omega⟩
            · refine reads_line.bind fun valueLine e₄ h₅ => ?_
              refine (h.expr (.refl W) true (by omega)).bind fun value e₅ met => ?_
              obtain ⟨hvalue, h₆, _⟩ := met
              refine (reads_eat _).bind fun b e₆ h₇ => ?_
              split
              · exact .pure ⟨rfl, both_true hvalue rfl, by omega⟩
              · refine (reads_check _).bind fun b e₇ met => ?_
                obtain ⟨h₈, _⟩ := met
                split
                · refine (ih (by omega)).bind fun items e₈ met => ?_
                  obtain ⟨hitems, h₉⟩ := met
                  refine .pure ⟨rfl, ?_, by omega⟩
                  exact both_true hvalue hitems
                · refine reads_peek.bind fun t e₈ met => reads_recover.bind fun _ e₉ h₁₀ => ?_
                  obtain ⟨h₉, _⟩ := met
                  exact .pure ⟨rfl, both_true hvalue rfl, by omega⟩

/-- What stands behind an attribute: a comma and more of them, or the end of the declaration. -/
theorem reads_behindAttribute (line : Nat) (className : String) {item : Member} (hitem : item.meets .read = true)
    {more more' : Parse Parse.MembersRead} (hmore : ∀ {e}, pos ≤ e → W.ReadsMembers e more more') :
    W.ReadsMembers pos
      (do
        if !(← Parse.eat [.comma]) then return ([item], none)
        if ← Parse.check [.dollar] then
          let (items, fault) ← more
          return (item :: items, fault)
        else
          let text := Parse.textOf (← Parse.peek)
          Parse.recover
          return ([item, .report ⟨line, .expectedAttribute text className⟩], none))
      (do
        if !(← Parse.eat [.comma]) then return ([item], none)
        if ← Parse.check [.dollar] then
          let (items, fault) ← more'
          return (item :: items, fault)
        else
          let text := Parse.textOf (← Parse.peek)
          Parse.recover
          return ([item, .report ⟨line, .expectedAttribute text className⟩], none)) := by
  refine (reads_eat _).bind fun b e₁ h₁ => ?_
  split
  · exact .pure ⟨rfl, both_true hitem rfl, by omega⟩
  · refine (reads_check _).bind fun b e₂ met => ?_
    obtain ⟨h₂, _⟩ := met
    split
    · refine (hmore (by omega)).bind fun items e₃ met => ?_
      obtain ⟨hitems, h₃⟩ := met
      refine .pure ⟨rfl, ?_, by omega⟩
      exact both_true hitem hitems
    · refine reads_peek.bind fun t e₃ met => reads_recover.bind fun _ e₄ h₄ => ?_
      obtain ⟨h₃, _⟩ := met
      exact .pure ⟨rfl, both_true hitem rfl, by omega⟩

theorem reads_classAttributes (h : W.Agree first r r') (className : String) (type : TypeSpec) (visibility : Visibility)
    (flags : MemberFlags) (n : Nat) (hpos : first ≤ pos) :
    W.ReadsMembers pos (Parse.classAttributes r className type visibility flags n)
      (Parse.classAttributes r' className type visibility flags n) := by
  induction n generalizing pos with
  | zero => exact .pure ⟨rfl, rfl, Nat.le_refl _⟩
  | succ n ih =>
      unfold Parse.classAttributes
      refine reads_line.bind fun here e h₁ => reads_advance.bind fun _ e₁ h₂ => reads_peek.bind fun t e₂ met => ?_
      obtain ⟨h₃, _⟩ := met
      subst h₁ h₃
      cases t.filter (·.isAny [.name, .keyword]) with
      | none =>
          refine reads_peek.bind fun t e₃ met => reads_recover.bind fun _ e₄ h₅ => ?_
          obtain ⟨h₄, _⟩ := met
          exact .pure ⟨rfl, rfl, by omega⟩
      | some name =>
          refine reads_advance.bind fun _ e₃ h₄ => reads_atEnd.bind fun b e₄ met => ?_
          obtain ⟨h₅, _⟩ := met
          refine (reads_check _).bind fun b' e₅ met => ?_
          obtain ⟨h₆, _⟩ := met
          split
          · exact reads_recover.bind fun _ _ he => .pure ⟨rfl, rfl, by omega⟩
          · have behind (item : Member) (hitem : item.meets .read = true) {e' : Nat} (he : e ≤ e') :=
              (reads_behindAttribute here className hitem fun he' => ih (Nat.le_trans hpos (Nat.le_trans he he'))).mono
                fun items e'' met => And.intro met.1 (Nat.le_trans he met.2)
            refine (reads_eat _).bind fun b e₆ h₇ => ?_
            split
            · refine reads_line.bind fun valueLine e₇ h₈ => ?_
              refine (h.expr (.refl W) true (by omega)).bind fun value e₈ met => ?_
              obtain ⟨hvalue, h₉, _⟩ := met
              exact behind (.attributeValue _ _ _ value) hvalue (by omega)
            · exact behind _ rfl (by omega)

theorem virtualProblems_meet (C : Checks) (head : ClassHead) (method : MemberHead) :
    Member.allMeet C (Parse.virtualProblems head method) = true := by
  unfold Parse.virtualProblems
  split
  · rw [Member.allMeet_append]
    split <;> split <;> rfl
  · rfl

theorem reads_classMethod (h : W.Agree first r r') (head : ClassHead) (returns : TypeSpec) (visibility : Visibility)
    (flags : MemberFlags) (hpos : first ≤ pos) :
    W.ReadsMembers pos (Parse.classMethod r head returns visibility flags)
      (Parse.classMethod r' head returns visibility flags) := by
  unfold Parse.classMethod
  refine reads_line.bind fun here e h₁ => (reads_eat _).bind fun byRef e₁ h₂ => reads_peek.bind fun t e₂ met => ?_
  obtain ⟨h₃, _⟩ := met
  subst h₁ h₃
  cases t.filter (·.is .name) with
  | none =>
      refine reads_peek.bind fun t e₃ met => reads_recover.bind fun _ e₄ h₅ => ?_
      obtain ⟨h₄, _⟩ := met
      exact .pure ⟨rfl, rfl, by omega⟩
  | some name =>
      have hproblems := virtualProblems_meet .read head ⟨name.text, here, visibility, flags⟩
      dsimp only
      generalize Parse.virtualProblems head ⟨name.text, here, visibility, flags⟩ = problems at hproblems ⊢
      refine reads_advance.bind fun _ e₃ h₄ => (reads_check _).bind fun b e₄ met => ?_
      obtain ⟨h₅, _⟩ := met
      split
      · exact reads_recover.bind fun _ _ he => .pure ⟨rfl, hproblems, by omega⟩
      · refine (reads_signature? h (by omega)).bind fun params e₅ met => ?_
        obtain ⟨h₆, hparams⟩ := met
        cases params with
        | none => exact reads_skipToEnd.bind fun _ _ he => .pure ⟨rfl, hproblems, by omega⟩
        | some params =>
            have hparams := (hparams _ rfl).2
            dsimp only
            split
            · refine reads_atEnd.bind fun b e₆ met => (reads_check _).bind fun b' e₇ met' => ?_
              obtain ⟨h₇, _⟩ := met
              obtain ⟨h₈, _⟩ := met'
              split
              · refine .pure ⟨rfl, ?_, by omega⟩
                rw [Member.allMeet_append]
                exact both_true hproblems (both_true hparams rfl)
              · refine .pure ⟨rfl, ?_, by omega⟩
                simp only [Parse.abandon, Member.allMeet_append]
                exact both_true hproblems (both_true hparams rfl)
            · refine (reads_check _).bind fun b e₆ met => ?_
              obtain ⟨h₇, _⟩ := met
              split
              · refine (reads_block h (by omega)).bind fun body e₇ met => ?_
                obtain ⟨hbody, h₈⟩ := met
                refine .pure ⟨rfl, ?_, by omega⟩
                rw [Member.allMeet_append]
                exact both_true hproblems (both_true (both_true hparams hbody) rfl)
              · refine .pure ⟨rfl, ?_, by omega⟩
                simp only [Parse.abandon, Member.allMeet_append]
                exact both_true hproblems (both_true hparams rfl)

theorem reads_typedMember (h : W.Agree first r r') (head : ClassHead) (visibility : Visibility) (flags : MemberFlags)
    (hpos : first ≤ pos) :
    W.ReadsMembers pos (Parse.typedMember r head visibility flags) (Parse.typedMember r' head visibility flags) := by
  unfold Parse.typedMember
  refine reads_builtinType?.bind fun type e met => ?_
  obtain ⟨h₁, _⟩ := met
  cases type with
  | none =>
      refine reads_peek.bind fun t e₁ met => ?_
      obtain ⟨h₂, _⟩ := met
      exact .pure ⟨rfl, rfl, by omega⟩
  | some type =>
      refine (reads_check _).bind fun b e₁ met => ?_
      obtain ⟨h₂, _⟩ := met
      split
      · refine .get ?_
        rw [remaining_far]
        exact (reads_classAttributes h _ _ _ _ _ (by omega)).later (by omega)
      · exact (reads_classMethod h _ _ _ _ (by omega)).later (by omega)

theorem reads_markedMember (h : W.Agree first r r') (head : ClassHead) (visibility : Visibility) (flags : MemberFlags)
    (word : String) (hpos : first ≤ pos) :
    W.ReadsMembers pos (Parse.markedMember r head visibility flags word)
      (Parse.markedMember r' head visibility flags word) := by
  unfold Parse.markedMember
  have marked (visibility : Visibility) {e : Nat} (he : pos ≤ e) :
      W.Reads e (fun ms e => Member.allMeet .read ms.1 = true ∧ pos ≤ e)
        (do
          let isStatic ← Parse.eatKeyword .static_
          let t ← Parse.peek
          let isMethod := t.any fun t => t.is .keyword
          if isMethod && (t.any Token.isType || (← Parse.peekNth 2).any (·.is .openParen)) then
            Parse.typedMember r head visibility { flags with isStatic := isStatic }
          else return Parse.abandon [] (t.elim head.line Token.line) (.expectedMethod (Parse.textOf t) word head.name))
        (do
          let isStatic ← Parse.eatKeyword .static_
          let t ← Parse.peek
          let isMethod := t.any fun t => t.is .keyword
          if isMethod && (t.any Token.isType || (← Parse.peekNth 2).any (·.is .openParen)) then
            Parse.typedMember r' head visibility { flags with isStatic := isStatic }
          else return Parse.abandon [] (t.elim head.line Token.line) (.expectedMethod (Parse.textOf t) word head.name)) := by
    refine (reads_eatKeyword _).bind fun isStatic e₁ h₁ => reads_peek.bind fun t e₂ met => ?_
    obtain ⟨h₂, _⟩ := met
    refine (reads_peekNth 2).bind fun u e₃ met => ?_
    obtain ⟨h₃, _⟩ := met
    dsimp only
    split
    · exact (reads_typedMember h _ _ _ (by omega)).later (by omega)
    · exact .pure ⟨rfl, rfl, by omega⟩
  refine reads_peek.bind fun t e met => ?_
  obtain ⟨he, _⟩ := met
  subst he
  cases (t.bind Token.keyword?).bind Visibility.ofKeyword? with
  | none => exact marked visibility (Nat.le_refl _)
  | some v => exact reads_advance.bind fun _ e h₁ => marked v h₁.1

theorem reads_visibleMember (h : W.Agree first r r') (head : ClassHead) (visibility : Visibility) (word : Keyword)
    (hpos : first ≤ pos) :
    W.ReadsMembers pos (Parse.visibleMember r head visibility word) (Parse.visibleMember r' head visibility word) := by
  unfold Parse.visibleMember
  split
  · refine reads_advance.bind fun _ e h₁ => .get ?_
    rw [remaining_far]
    exact (reads_classConstants h _ _ _ (by omega)).later h₁.1
  · refine reads_advance.bind fun _ e h₁ => reads_memberKeyword.bind fun word e₁ h₂ => ?_
    cases word with
    | error found => exact .pure ⟨rfl, rfl, by omega⟩
    | ok next =>
        dsimp only
        cases Visibility.ofKeyword? next with
        | none => exact (reads_typedMember h _ _ _ (by omega)).later (by omega)
        | some v => exact reads_advance.bind fun _ e₂ h₃ => (reads_typedMember h _ _ _ (by omega)).later (by omega)
  · exact reads_advance.bind fun _ e h₁ => (reads_markedMember h _ _ _ _ (by omega)).later h₁.1
  · exact reads_advance.bind fun _ e h₁ => (reads_markedMember h _ _ _ _ (by omega)).later h₁.1
  · exact reads_typedMember h _ _ _ hpos

theorem reads_classMember (h : W.Agree first r r') (head : ClassHead) (hpos : first ≤ pos) :
    W.ReadsMembers pos (Parse.classMember r head) (Parse.classMember r' head) := by
  unfold Parse.classMember
  refine reads_memberKeyword.bind fun word e h₁ => ?_
  subst h₁
  cases word with
  | error found => exact .pure ⟨rfl, rfl, Nat.le_refl _⟩
  | ok word =>
      dsimp only
      cases Visibility.ofKeyword? word with
      | none => exact reads_visibleMember h _ _ _ hpos
      | some visibility =>
          refine reads_advance.bind fun _ e₁ h₂ => reads_memberKeyword.bind fun next e₂ h₃ => ?_
          cases next with
          | error found => exact .pure ⟨rfl, rfl, by omega⟩
          | ok next => exact (reads_visibleMember h _ _ _ (by omega)).later (by omega)

theorem reads_visibilityWarning (visibility : Option Visibility) :
    W.Reads pos (fun ms e => Member.allMeet .read ms = true ∧ e = pos) (Parse.visibilityWarning visibility)
      (Parse.visibilityWarning visibility) := by
  unfold Parse.visibilityWarning
  split
  · exact reads_line.bind fun _ _ he => .pure ⟨rfl, rfl, he⟩
  · exact reads_line.bind fun _ _ he => .pure ⟨rfl, rfl, he⟩
  · exact .pure ⟨rfl, rfl, rfl⟩

theorem reads_interfaceSignature (h : W.Agree first r r') (head : ClassHead) (isStatic : Bool) (hpos : first ≤ pos) :
    W.ReadsMembers pos (Parse.interfaceSignature r head isStatic) (Parse.interfaceSignature r' head isStatic) := by
  unfold Parse.interfaceSignature
  refine reads_builtinType?.bind fun type e met => ?_
  obtain ⟨h₁, _⟩ := met
  cases type with
  | none =>
      refine reads_peek.bind fun t e₁ met => ?_
      obtain ⟨h₂, _⟩ := met
      exact .pure ⟨rfl, rfl, by omega⟩
  | some type =>
      refine (reads_check _).bind fun b e₁ met => ?_
      obtain ⟨h₂, _⟩ := met
      split
      · exact reads_line.bind fun here e₂ h₃ => reads_recover.bind fun _ e₃ h₄ => .pure ⟨rfl, rfl, by omega⟩
      · exact (reads_classMethod h _ _ _ _ (by omega)).later (by omega)

/-- Members behind others. -/
theorem reads_behind {ms : List Member} (hms : Member.allMeet .read ms = true) {p p' : Parse Parse.MembersRead}
    {e : Nat} (h : W.ReadsMembers e p p') (he : pos ≤ e) :
    W.Reads e (fun ms e => Member.allMeet .read ms.1 = true ∧ pos ≤ e)
      (do
        let (items, fault) ← p
        return (ms ++ items, fault))
      (do
        let (items, fault) ← p'
        return (ms ++ items, fault)) := by
  refine Reads.bind h fun items e met => ?_
  obtain ⟨hitems, he'⟩ := met
  refine .pure ⟨rfl, ?_, Nat.le_trans he he'⟩
  rw [Member.allMeet_append, hms, hitems]
  rfl

theorem reads_publicMember (h : W.Agree first r r') (head : ClassHead) (word : Keyword) (hpos : first ≤ pos) :
    W.ReadsMembers pos (Parse.publicMember r head word) (Parse.publicMember r' head word) := by
  unfold Parse.publicMember
  split
  · refine reads_advance.bind fun _ e h₁ => .get ?_
    rw [remaining_far]
    exact (reads_classConstants h _ _ _ (by omega)).later h₁.1
  · refine reads_advance.bind fun _ e h₁ => reads_memberKeyword.bind fun word e₁ h₂ => ?_
    cases word with
    | error found => exact .pure ⟨rfl, rfl, by omega⟩
    | ok next =>
        dsimp only
        cases Visibility.ofKeyword? next with
        | none => exact (reads_interfaceSignature h _ _ (by omega)).later (by omega)
        | some visibility =>
            refine (reads_visibilityWarning _).bind fun warning e₂ met => ?_
            obtain ⟨hwarning, h₃⟩ := met
            refine reads_advance.bind fun _ e₃ h₄ => ?_
            exact reads_behind hwarning (reads_interfaceSignature h _ _ (by omega)) (by omega)
  · exact reads_interfaceSignature h _ _ hpos

theorem reads_interfaceMember (h : W.Agree first r r') (head : ClassHead) (hpos : first ≤ pos) :
    W.ReadsMembers pos (Parse.interfaceMember r head) (Parse.interfaceMember r' head) := by
  unfold Parse.interfaceMember
  refine reads_memberKeyword.bind fun word e h₁ => ?_
  subst h₁
  cases word with
  | error found => exact .pure ⟨rfl, rfl, Nat.le_refl _⟩
  | ok word =>
      dsimp only
      cases Visibility.ofKeyword? word with
      | none => exact reads_publicMember h _ _ hpos
      | some visibility =>
          refine (reads_visibilityWarning _).bind fun warning e₁ met => ?_
          obtain ⟨hwarning, h₂⟩ := met
          refine reads_advance.bind fun _ e₂ h₃ => reads_memberKeyword.bind fun next e₃ h₄ => ?_
          cases next with
          | error found => exact .pure ⟨rfl, hwarning, by omega⟩
          | ok next => exact reads_behind hwarning (reads_publicMember h _ _ (by omega)) (by omega)

/-- The members behind the first one, which are read unless it could not be. -/
theorem reads_behindMember {p p' more more' : Parse Parse.MembersRead} (hp : W.ReadsMembers pos p p')
    (hmore : ∀ {e}, pos ≤ e → W.ReadsMembers e more more') :
    W.ReadsMembers pos
      (do
        let (items, fault) ← p
        match fault with
        | some _ => return (items, fault)
        | none =>
          let (rest, fault) ← more
          return (items ++ rest, fault))
      (do
        let (items, fault) ← p'
        match fault with
        | some _ => return (items, fault)
        | none =>
          let (rest, fault) ← more'
          return (items ++ rest, fault)) := by
  refine Reads.bind hp fun items e met => ?_
  obtain ⟨hitems, he⟩ := met
  obtain ⟨items, fault⟩ := items
  cases fault with
  | some fault => exact .pure ⟨rfl, hitems, he⟩
  | none => exact reads_behind hitems (hmore he) he

theorem reads_members (h : W.Agree first r r') (head : ClassHead) (n : Nat) (hpos : first ≤ pos) :
    W.ReadsMembers pos (Parse.members r head n) (Parse.members r' head n) := by
  induction n generalizing pos with
  | zero => exact .pure ⟨rfl, rfl, Nat.le_refl _⟩
  | succ n ih =>
      unfold Parse.members
      refine reads_skipSemicolons.bind fun _ e h₁ => reads_atEnd.bind fun b e₁ met => ?_
      obtain ⟨h₂, _⟩ := met
      subst h₂
      split
      · exact .pure ⟨rfl, rfl, h₁⟩
      · have more {e : Nat} (he : e₁ ≤ e) := ih (Nat.le_trans hpos (Nat.le_trans h₁ he))
        split
        · exact ReadsMembers.later (reads_behindMember (reads_interfaceMember h head (by omega)) more) h₁
        · exact ReadsMembers.later (reads_behindMember (reads_classMember h head (by omega)) more) h₁

/-! ### Declarations -/

theorem reads_namesBehind? (word : Keyword) :
    W.Reads pos (fun _ e => pos ≤ e) (Parse.namesBehind? word) (Parse.namesBehind? word) := by
  unfold Parse.namesBehind?
  refine (reads_eatKeyword _).bind fun b e h₁ => ?_
  split
  · refine .get ?_
    rw [remaining_far]
    exact (reads_nameList? _).mono fun _ _ he => Nat.le_trans h₁.1 he
  · exact .pure ⟨rfl, h₁.1⟩

theorem reads_classBody (h : W.Agree first r r') (head : ClassHead) (withoutBrace unclosed : Problem)
    (hpos : first ≤ pos + 1) :
    W.ReadsStmt pos (Parse.classBody r head withoutBrace unclosed) (Parse.classBody r' head withoutBrace unclosed) := by
  have filled := W.filled
  unfold Parse.classBody
  refine (reads_check _).bind fun b e met => ?_
  obtain ⟨he, _⟩ := met
  subst he
  split
  · exact reads_dropped _ _
  · refine echo_braceGroup?.bind fun g g' e₁ met => ?_
    obtain ⟨h₁, hg⟩ := met
    subst h₁
    cases hg with
    | none => exact reads_skipToEnd.bind fun _ _ he => .pure ⟨rfl, rfl, he⟩
    | @some close hwidth hclose =>
        have inside : e₁ + W.shift + 1 = e₁ + 1 + W.shift := by omega
        have behind : close + W.shift + 1 = close + 1 + W.shift := by omega
        have hle : close ≤ W.stop := by omega
        dsimp only
        rw [inside, behind]
        refine (Reads.within (by omega) hle (by omega) (R := fun ms _ => Member.allMeet .read ms.1 = true)
          (.get ?_)).bind fun items e₂ met => ?_
        · rw [remaining_far]
          exact (reads_members (h.inside (W.narrow_inside (by omega) hle)) _ _ (by omega)).mono fun _ _ hms => hms.1
        · obtain ⟨h₂, _, hitems⟩ := met
          exact (reads_setPos (by omega)).bind fun _ e₃ h₃ => .pure ⟨rfl, hitems, by omega⟩

theorem reads_classDeclaration (h : W.Agree first r r') (flags : ClassFlags) (hpos : first ≤ pos + 1) :
    W.ReadsDeclaration pos (Parse.classDeclaration r flags) (Parse.classDeclaration r' flags) := by
  unfold Parse.classDeclaration
  refine reads_line.bind fun here e h₁ => reads_advance.bind fun _ e₁ h₂ => reads_peek.bind fun t e₂ met => ?_
  obtain ⟨h₃, _⟩ := met
  cases t.filter (·.is .name) with
  | none => exact (reads_dropped _ _).behind (by omega) (by omega)
  | some name =>
      refine reads_advance.bind fun _ e₃ h₄ => (reads_namesBehind? _).bind fun bases e₄ h₅ => ?_
      cases bases with
      | none => exact (reads_dropped _ _).behind (by omega) (by omega)
      | some bases =>
          refine (reads_namesBehind? _).bind fun interfaces e₅ h₆ => ?_
          cases interfaces with
          | none => exact (reads_dropped _ _).behind (by omega) (by omega)
          | some interfaces => exact (reads_classBody h _ _ _ (by omega)).behind (by omega) (by omega)

theorem reads_interfaceDeclaration (h : W.Agree first r r') (hpos : first ≤ pos + 1) :
    W.ReadsDeclaration pos (Parse.interfaceDeclaration r) (Parse.interfaceDeclaration r') := by
  unfold Parse.interfaceDeclaration
  refine reads_line.bind fun here e h₁ => reads_advance.bind fun _ e₁ h₂ => reads_peek.bind fun t e₂ met => ?_
  obtain ⟨h₃, _⟩ := met
  cases t.filter (·.is .name) with
  | none => exact (reads_dropped _ _).behind (by omega) (by omega)
  | some name =>
      refine reads_advance.bind fun _ e₃ h₄ => (reads_namesBehind? _).bind fun bases e₄ h₅ => ?_
      cases bases with
      | none => exact (reads_dropped _ _).behind (by omega) (by omega)
      | some bases => exact (reads_classBody h _ _ _ (by omega)).behind (by omega) (by omega)

end Passage

end StackScript
