/-
What takes at least one token.

A declaration, a token that starts none, a statement and a member that can be read all leave the cursor further on
than they found it.  That is what keeps the loops over them going: a round that took nothing would be repeated.
-/
import StackScript.Proofs.Reading.Unbounded

namespace StackScript

open Parse

namespace Passage

variable {W : Passage} {first pos : Nat} {r r' : Readers}

/-! ### Declarations -/

theorem reads_undeclared_progress (hlt : pos < W.stop) (t : Token) :
    W.Reads pos (fun _ e => pos < e) (Parse.undeclared t) (Parse.undeclared t) := by
  unfold Parse.undeclared
  refine reads_skipDeclaration_met.bind fun _ e met => ?_
  obtain ⟨hle, hmet⟩ := met
  by_cases hsame : e = pos
  · subst hsame
    exact (reads_eat_met (hmet rfl hlt)).bind fun _ e₁ h₁ => .pure ⟨rfl, by omega⟩
  · exact (reads_eat _).bind fun _ e₁ h₁ => .pure ⟨rfl, by omega⟩

/-! ### Members -/

/-- A member that can be read takes at least one token. -/
abbrev ReadsMember (W : Passage) (pos : Nat) (p p' : Parse MembersRead) : Prop :=
  W.Reads pos (fun ms e => ms.2 = none → pos < e) p p'

/-- A member whose first token has been taken. -/
theorem ReadsMembers.behind {p p' : Parse MembersRead} {e : Nat} (h : W.ReadsMembers e p p') (hlt : pos < e) :
    W.Reads e (fun ms e => ms.2 = none → pos < e) p p' :=
  Reads.mono h fun _ _ met _ => Nat.lt_of_lt_of_le hlt met.2

theorem reads_typedMember_progress (h : W.Agree first r r') (head : ClassHead) (visibility : Visibility)
    (flags : MemberFlags) (hpos : first ≤ pos) :
    W.ReadsMember pos (typedMember r head visibility flags) (typedMember r' head visibility flags) := by
  unfold Parse.typedMember
  refine reads_builtinType?.bind fun type e met => ?_
  obtain ⟨h₁, htype⟩ := met
  cases type with
  | none => exact reads_peek.bind fun t e₁ met => .pure ⟨rfl, nofun⟩
  | some type =>
      have hlt := htype rfl
      refine (reads_check _).bind fun b e₁ met => ?_
      obtain ⟨rfl, _⟩ := met
      split
      · refine .get ?_
        rw [remaining_far]
        exact (reads_classAttributes h _ _ _ _ _ (by omega)).behind hlt
      · exact (reads_classMethod h _ _ _ _ (by omega)).behind hlt

theorem reads_visibleMember_progress (h : W.Agree first r r') (head : ClassHead) (visibility : Visibility) (word : Keyword)
    (hpos : first ≤ pos) (hlt : pos < W.stop) :
    W.ReadsMember pos (visibleMember r head visibility word) (visibleMember r' head visibility word) := by
  unfold Parse.visibleMember
  split
  · refine reads_advance.bind fun _ e h₁ => .get ?_
    rw [remaining_far]
    exact (reads_classConstants h _ _ _ (by omega)).behind (by omega)
  · refine reads_advance.bind fun _ e h₁ => reads_memberKeyword.bind fun word e₁ h₂ => ?_
    cases word with
    | error found => exact .pure ⟨rfl, nofun⟩
    | ok next =>
        dsimp only
        cases Visibility.ofKeyword? next with
        | none => exact (reads_typedMember h _ _ _ (by omega)).behind (by omega)
        | some v => exact reads_advance.bind fun _ e₂ h₃ => (reads_typedMember h _ _ _ (by omega)).behind (by omega)
  · exact reads_advance.bind fun _ e h₁ => (reads_markedMember h _ _ _ _ (by omega)).behind (by omega)
  · exact reads_advance.bind fun _ e h₁ => (reads_markedMember h _ _ _ _ (by omega)).behind (by omega)
  · exact reads_typedMember_progress h _ _ _ hpos

theorem reads_classMember_progress (h : W.Agree first r r') (head : ClassHead) (hpos : first ≤ pos) (hlt : pos < W.stop) :
    W.ReadsMember pos (classMember r head) (classMember r' head) := by
  unfold Parse.classMember
  refine reads_memberKeyword.bind fun word e h₁ => ?_
  subst h₁
  cases word with
  | error found => exact .pure ⟨rfl, nofun⟩
  | ok word =>
      dsimp only
      cases Visibility.ofKeyword? word with
      | none => exact reads_visibleMember_progress h _ _ _ hpos hlt
      | some visibility =>
          refine reads_advance.bind fun _ e₁ h₂ => reads_memberKeyword.bind fun next e₂ h₃ => ?_
          cases next with
          | error found => exact .pure ⟨rfl, nofun⟩
          | ok next => exact (reads_visibleMember h _ _ _ (by omega)).behind (by omega)

theorem reads_interfaceSignature_progress (h : W.Agree first r r') (head : ClassHead) (isStatic : Bool)
    (hpos : first ≤ pos) :
    W.ReadsMember pos (interfaceSignature r head isStatic) (interfaceSignature r' head isStatic) := by
  unfold Parse.interfaceSignature
  refine reads_builtinType?.bind fun type e met => ?_
  obtain ⟨h₁, htype⟩ := met
  cases type with
  | none => exact reads_peek.bind fun t e₁ met => .pure ⟨rfl, nofun⟩
  | some type =>
      have hlt := htype rfl
      refine (reads_check _).bind fun b e₁ met => ?_
      obtain ⟨rfl, _⟩ := met
      split
      · exact reads_line.bind fun here e₂ h₃ => reads_recover.bind fun _ e₃ h₄ => .pure ⟨rfl, fun _ => by omega⟩
      · exact (reads_classMethod h _ _ _ _ (by omega)).behind hlt

theorem reads_publicMember_progress (h : W.Agree first r r') (head : ClassHead) (word : Keyword) (hpos : first ≤ pos)
    (hlt : pos < W.stop) : W.ReadsMember pos (publicMember r head word) (publicMember r' head word) := by
  unfold Parse.publicMember
  split
  · refine reads_advance.bind fun _ e h₁ => .get ?_
    rw [remaining_far]
    exact (reads_classConstants h _ _ _ (by omega)).behind (by omega)
  · refine reads_advance.bind fun _ e h₁ => reads_memberKeyword.bind fun word e₁ h₂ => ?_
    cases word with
    | error found => exact .pure ⟨rfl, nofun⟩
    | ok next =>
        dsimp only
        cases Visibility.ofKeyword? next with
        | none => exact (reads_interfaceSignature h _ _ (by omega)).behind (by omega)
        | some visibility =>
            refine (reads_visibilityWarning _).bind fun warning e₂ met => reads_advance.bind fun _ e₃ h₄ => ?_
            obtain ⟨hwarning, h₃⟩ := met
            exact (reads_behind hwarning (reads_interfaceSignature h _ _ (by omega)) (Nat.le_refl _)).mono
              fun _ _ met _ => by omega
  · exact reads_interfaceSignature_progress h _ _ hpos

theorem reads_interfaceMember_progress (h : W.Agree first r r') (head : ClassHead) (hpos : first ≤ pos)
    (hlt : pos < W.stop) : W.ReadsMember pos (interfaceMember r head) (interfaceMember r' head) := by
  unfold Parse.interfaceMember
  refine reads_memberKeyword.bind fun word e h₁ => ?_
  subst h₁
  cases word with
  | error found => exact .pure ⟨rfl, nofun⟩
  | ok word =>
      dsimp only
      cases Visibility.ofKeyword? word with
      | none => exact reads_publicMember_progress h _ _ hpos hlt
      | some visibility =>
          refine (reads_visibilityWarning _).bind fun warning e₁ met => ?_
          obtain ⟨hwarning, h₂⟩ := met
          refine reads_advance.bind fun _ e₂ h₃ => reads_memberKeyword.bind fun next e₃ h₄ => ?_
          cases next with
          | error found => exact .pure ⟨rfl, nofun⟩
          | ok next =>
              exact (reads_behind hwarning (reads_publicMember h _ _ (by omega)) (Nat.le_refl _)).mono
                fun _ _ met _ => by omega

/-! ### Blocks -/

/-- A body takes at least one token when a statement does. -/
theorem reads_block_progress (h : W.Agree first r r') (hpos : first ≤ pos) (hlt : pos < W.stop)
    (hstmt : W.Reads pos (fun _ e => pos < e) r.stmt r'.stmt) :
    W.Reads pos (fun _ e => pos < e) (Parse.block r) (Parse.block r') := by
  unfold Parse.block
  refine (reads_check _).bind fun b e met => ?_
  obtain ⟨rfl, hopened⟩ := met
  have skip (body : Stmt) {e' : Nat} (he' : e < e') :
      W.Reads e' (fun _ e'' => e < e'') (do Parse.skipSemicolons; return body) (do Parse.skipSemicolons; return body) :=
    reads_skipSemicolons.bind fun _ _ he'' => .pure ⟨rfl, by omega⟩
  split
  · rename_i hb
    exact (reads_braces h (hopened hb) (by omega)).bind fun body _ met => skip body met.2
  · exact hstmt.bind fun body _ he' => skip body he'

end Passage

end StackScript
