/-
Conditionals, loops, jumps and exceptions, read twice.
-/
import StackScript.Parser.Control
import StackScript.Proofs.Reading.Declaration

namespace StackScript

namespace Passage

variable {W : Passage} {first pos e : Nat} {r r' : Readers}

/-! ### Conditionals -/

theorem reads_chain (h : W.Agree first r r') (n : Nat) (hpos : first ≤ pos) :
    W.Reads pos (fun c e => c.meets .read = true ∧ pos ≤ e) (Parse.chain r n) (Parse.chain r' n) := by
  induction n generalizing pos with
  | zero => exact .pure ⟨rfl, rfl, Nat.le_refl _⟩
  | succ n ih =>
      unfold Parse.chain
      refine reads_line.bind fun here e h₁ => ?_
      subst h₁
      refine (reads_check _).bind fun b e' met => ?_
      obtain ⟨h₂, _⟩ := met
      subst h₂
      split
      · exact reads_synchronize.bind fun _ _ he => .pure ⟨rfl, rfl, he⟩
      · refine echo_parenGroup?.bind fun g g' e met => ?_
        obtain ⟨h₃, hg⟩ := met
        subst h₃
        cases hg with
        | none => exact reads_synchronize.bind fun _ _ he => .pure ⟨rfl, rfl, he⟩
        | @some close hwidth hclose =>
            have filled := W.filled
            have inside : e + W.shift + 1 = e + 1 + W.shift := by omega
            have behind : close + W.shift + 1 = close + 1 + W.shift := by omega
            dsimp only
            rw [inside, behind]
            refine (reads_condition h (by omega) (by omega) (by omega) (by omega)).bind fun c e₁ met => ?_
            obtain ⟨_, htest, _⟩ := met
            refine (reads_setPos (by omega)).bind fun _ e₂ h₂ => ?_
            refine (reads_block h (by omega)).bind fun body e₃ met => ?_
            obtain ⟨hbody, h₃⟩ := met
            have branch (rest : Chain) (hrest : rest.meets .read = true) :
                (Chain.branch c.1 c.2 body rest).meets .read = true := by
              exact both_true (both_true (both_true rfl htest) hbody) hrest
            refine (reads_checkKeyword _).bind fun b e₄ met => ?_
            obtain ⟨h₄, _⟩ := met
            split
            · refine reads_advance.bind fun _ e₅ h₅ => (ih (by omega)).bind fun rest e₆ met => ?_
              obtain ⟨hrest, h₆⟩ := met
              exact .pure ⟨rfl, branch rest hrest, by omega⟩
            · refine (reads_checkKeyword _).bind fun b e₅ met => ?_
              obtain ⟨h₅, _⟩ := met
              split
              · refine reads_advance.bind fun _ e₆ h₆ => (reads_eatKeyword _).bind fun b e₇ h₇ => ?_
                split
                · refine (ih (by omega)).bind fun rest e₈ met => ?_
                  obtain ⟨hrest, h₈⟩ := met
                  exact .pure ⟨rfl, branch rest hrest, by omega⟩
                · refine (reads_block h (by omega)).bind fun last e₈ met => ?_
                  obtain ⟨hlast, h₈⟩ := met
                  exact .pure ⟨rfl, branch _ hlast, by omega⟩
              · exact .pure ⟨rfl, branch _ rfl, by omega⟩

theorem reads_ifStatement (h : W.Agree (first + 1) r r') (hpos : first ≤ pos) (hlt : pos < W.stop) :
    W.ReadsStmt pos (Parse.ifStatement r) (Parse.ifStatement r') := by
  unfold Parse.ifStatement
  refine reads_advance.bind fun _ e h₁ => .get ?_
  rw [remaining_far]
  refine (reads_chain h _ (by omega)).bind fun c e' met => ?_
  obtain ⟨hc, he'⟩ := met
  refine .pure ⟨rfl, ?_, by omega⟩
  exact hc

/-! ### Switches -/

theorem reads_labelRest : W.Reads pos (fun _ e => pos ≤ e) Parse.labelRest Parse.labelRest := by
  unfold Parse.labelRest
  refine .get ((reads_skipWhile_within _).bind fun _ e h₁ => ?_)
  refine echo_pos.bind fun p p' e' met => ?_
  obtain ⟨h₂, hp, hp'⟩ := met
  rw [hp, hp']
  refine reads_advance.bind fun _ _ h₃ => .pure ⟨?_, by omega⟩
  simp only [far_tokens, far_pos, near_tokens, near_pos, W.extract_far h₁.2]

theorem reads_sectionItems (h : W.Agree first r r') (n : Nat) (hpos : first ≤ pos) :
    W.Reads pos (fun items e => Stmt.allMeet .read items.1 = true ∧ pos ≤ e) (Parse.sectionItems r n)
      (Parse.sectionItems r' n) := by
  induction n generalizing pos with
  | zero => exact .pure ⟨rfl, rfl, Nat.le_refl _⟩
  | succ n ih =>
      unfold Parse.sectionItems
      refine reads_peek.bind fun t e met => ?_
      obtain ⟨he, _⟩ := met
      subst he
      cases t with
      | none => exact .pure ⟨rfl, rfl, Nat.le_refl _⟩
      | some t =>
          dsimp only
          split
          · exact reads_advance.bind fun _ _ he => .pure ⟨rfl, rfl, he.1⟩
          · split
            · exact .pure ⟨rfl, rfl, Nat.le_refl _⟩
            · refine (reads_block h hpos).bind fun item e₁ met => ?_
              obtain ⟨hitem, h₁⟩ := met
              refine (ih (by omega)).bind fun items e₂ met => ?_
              obtain ⟨hitems, h₂⟩ := met
              refine .pure ⟨rfl, ?_, by omega⟩
              exact Stmt.allMeet_cons hitem hitems

theorem reads_caseGuard? (h : W.Agree first r r') (hpos : first ≤ pos) :
    W.Reads pos (fun guard e => pos ≤ e ∧ ∀ g, guard = some g → g.2.meets .read = true) (Parse.caseGuard? r)
      (Parse.caseGuard? r') := by
  unfold Parse.caseGuard?
  refine .get ?_
  have filled := W.filled
  have found := W.found_findAtDepth (Scan.depthChange [.openParen] [.closeParen])
    (fun t depth => t.isAny [.semicolon, .colon] && depth < 1) pos (Nat.le_refl W.stop) 0
  have near : (W.near pos).remaining = W.stop - pos := rfl
  have far : (W.far pos).remaining = W.stop + W.shift - (pos + W.shift) := rfl
  dsimp only
  rw [near, far, near_tokens, near_pos, near_stop, far_tokens, far_pos, far_stop]
  have reading {stop : Nat} (hlt : pos < stop) (hle : stop ≤ W.stop) :
      W.Reads pos (fun guard e => pos ≤ e ∧ ∀ g, guard = some g → g.2.meets .read = true)
        (do
          let here ← Parse.line
          let value ← Parse.within pos stop (r.expr false)
          Parse.setPos stop
          return some (here, value))
        (do
          let here ← Parse.line
          let value ← Parse.within (pos + W.shift) (stop + W.shift) (r'.expr false)
          Parse.setPos (stop + W.shift)
          return some (here, value)) := by
    refine reads_line.bind fun here e h₁ => ?_
    refine (Reads.within (by omega) hle (by omega) (h.expr (W.narrow_inside (by omega) hle) false hpos)).bind
      fun value e' met => ?_
    obtain ⟨_, _, hvalue, _⟩ := met
    refine (reads_setPos (by omega)).bind fun _ e'' h₂ => .pure ⟨rfl, by omega, fun g hg => ?_⟩
    cases hg
    exact hvalue
  generalize Scan.findAtDepth W.tokens _ _ _ _ _ = i at found ⊢
  generalize Scan.findAtDepth W.there _ _ _ _ _ = i' at found ⊢
  cases found with
  | none =>
      simp only [Option.getD_none]
      by_cases hempty : W.stop ≤ pos
      · rw [if_pos hempty, if_pos (by omega)]
        exact .pure ⟨rfl, Nat.le_refl _, nofun⟩
      · rw [if_neg hempty, if_neg (by omega)]
        exact reading (by omega) (Nat.le_refl _)
  | @some i hstart hstop =>
      simp only [Option.getD_some]
      by_cases hempty : i ≤ pos
      · rw [if_pos hempty, if_pos (by omega)]
        exact .pure ⟨rfl, Nat.le_refl _, nofun⟩
      · rw [if_neg hempty, if_neg (by omega)]
        exact reading (by omega) (by omega)

/-- What stands behind a label: its statements, and the labels behind those. -/
theorem reads_behindLabel (h : W.Agree first r r') {label : List Stmt → Section}
    (hlabel : ∀ body, Stmt.allMeet .read body = true → (label body).meets .read = true) (hpos : first ≤ pos)
    {more more' : Parse (List Section × Option Report)}
    (hmore : ∀ {e}, first ≤ e →
      W.Reads e (fun items e' => Section.allMeet .read items.1 = true ∧ first ≤ e') more more') :
    W.Reads pos (fun items e => Section.allMeet .read items.1 = true ∧ first ≤ e)
      (do
        let (body, closed) ← Parse.sectionItems r ((← get).remaining + 1)
        let (rest, fault) ← if closed then pure ([], none) else more
        return (label body :: rest, fault))
      (do
        let (body, closed) ← Parse.sectionItems r' ((← get).remaining + 1)
        let (rest, fault) ← if closed then pure ([], none) else more'
        return (label body :: rest, fault)) := by
  refine .get ?_
  rw [remaining_far]
  refine (reads_sectionItems h _ hpos).bind fun items e₁ met => ?_
  obtain ⟨hitems, h₁⟩ := met
  dsimp only
  split
  · refine .pure ⟨rfl, ?_, by omega⟩
    exact Section.allMeet_cons (hlabel _ hitems) rfl
  · refine (hmore (by omega)).bind fun rest e₂ met => ?_
    obtain ⟨hrest, h₂⟩ := met
    refine .pure ⟨rfl, ?_, h₂⟩
    exact Section.allMeet_cons (hlabel _ hitems) hrest

theorem reads_sections (h : W.Agree first r r') (brace : Nat) {out : Nat} (hout : first ≤ out) (hle : out ≤ W.stop)
    (n : Nat) (hpos : first ≤ pos) :
    W.Reads pos (fun items e => Section.allMeet .read items.1 = true ∧ first ≤ e) (Parse.sections r brace out n)
      (Parse.sections r' brace (out + W.shift) n) := by
  have filled := W.filled
  induction n generalizing pos with
  | zero => exact .pure ⟨rfl, rfl, hpos⟩
  | succ n ih =>
      have behind (label : List Stmt → Section) (hlabel : ∀ body, Stmt.allMeet .read body = true →
          (label body).meets .read = true) {e : Nat} (he : first ≤ e) :=
        reads_behindLabel h hlabel he fun he' => ih he'
      unfold Parse.sections
      refine reads_peek.bind fun t e met => ?_
      obtain ⟨he, _⟩ := met
      subst he
      cases t with
      | none => exact .pure ⟨rfl, rfl, hpos⟩
      | some t =>
          dsimp only
          split
          · exact reads_advance.bind fun _ _ h₁ => .pure ⟨rfl, rfl, by omega⟩
          · split
            · refine reads_advance.bind fun _ e₁ h₁ => reads_labelRest.bind fun strays e₂ h₂ => ?_
              exact behind (.default_ t.line strays) (fun _ hbody => hbody) (by omega)
            · split
              · refine reads_advance.bind fun _ e₁ h₁ => reads_line.bind fun here e₂ h₂ => ?_
                refine (reads_caseGuard? h (by omega)).bind fun guard e₃ met => ?_
                obtain ⟨h₃, hguard⟩ := met
                cases guard with
                | none => exact (reads_setPos (by omega)).bind fun _ _ h₄ => .pure ⟨rfl, rfl, by omega⟩
                | some guard =>
                    refine reads_labelRest.bind fun strays e₄ h₄ => ?_
                    refine behind (.case_ guard.1 guard.2 strays) (fun body hbody => ?_) (by omega)
                    exact both_true (hguard _ rfl) hbody
              · exact (reads_setPos (by omega)).bind fun _ _ h₁ => .pure ⟨rfl, rfl, by omega⟩

theorem reads_switchStatement (h : W.Agree (first + 1) r r') (hpos : first ≤ pos) (hlt : pos < W.stop) :
    W.Reads pos (fun s e => s.meets .read = true ∧ first ≤ e) (Parse.switchStatement r) (Parse.switchStatement r') := by
  have filled := W.filled
  unfold Parse.switchStatement
  refine reads_line.bind fun here e h₁ => reads_advance.bind fun _ e₁ h₂ => ?_
  refine (reads_check _).bind fun b e₂ met => ?_
  obtain ⟨h₃, _⟩ := met
  subst h₁ h₃
  split
  · exact reads_synchronize.bind fun _ _ he => .pure ⟨rfl, rfl, by omega⟩
  · refine echo_filledParenGroup?.bind fun g g' e₃ met => ?_
    obtain ⟨h₄, hg⟩ := met
    subst h₄
    cases hg with
    | none => exact reads_synchronize.bind fun _ _ he => .pure ⟨rfl, rfl, by omega⟩
    | @some close hwidth hclose =>
        have inside : e₃ + W.shift + 1 = e₃ + 1 + W.shift := by omega
        have behind : close + W.shift + 1 = close + 1 + W.shift := by omega
        dsimp only
        rw [inside, behind]
        refine (reads_condition h (by omega) (by omega) (by omega) (by omega)).bind fun c e₄ met => ?_
        obtain ⟨_, hsubject, hfilled⟩ := met
        refine (reads_setPos (by omega)).bind fun _ e₅ h₅ => reads_peek.bind fun t e₆ met => ?_
        obtain ⟨h₆, ht⟩ := met
        subst h₆
        cases hbrace : t.filter (·.is .openBrace) with
        | none =>
            refine reads_peek.bind fun u e₇ met => reads_synchronize.bind fun _ e₈ h₈ => ?_
            obtain ⟨h₇, _⟩ := met
            refine .pure ⟨rfl, ?_, by omega⟩
            exact both_true rfl hsubject
        | some brace =>
            have hlt' : e₆ < W.stop := by
              obtain ⟨u, hu⟩ : ∃ u, t = some u := by
                cases t with
                | none => cases hbrace
                | some u => exact ⟨u, rfl⟩
              exact (ht u hu).1
            refine .get ?_
            have stop : (W.far e₆).delimit ((W.far e₆).pos + 1) [.openBrace] [.closeBrace] =
                (W.near e₆).delimit (e₆ + 1) [.openBrace] [.closeBrace] + W.shift := by
              rw [← delimit_far W e₆, far_pos, Nat.add_right_comm]
            have bounds := delimit_bounds e₆ [.openBrace] [.closeBrace] (show e₆ + 1 ≤ W.stop from hlt')
            have last : min ((W.near e₆).delimit (e₆ + 1) [.openBrace] [.closeBrace] + W.shift + 1) (W.stop + W.shift) =
                min ((W.near e₆).delimit (e₆ + 1) [.openBrace] [.closeBrace] + 1) W.stop + W.shift := by omega
            rw [stop, near_pos, near_stop, far_stop, last]
            refine reads_advance.bind fun _ e₇ h₇ => .get ?_
            rw [remaining_far]
            refine (reads_sections h brace.line (by omega) (by omega) _ (by omega)).bind fun items e₈ met => ?_
            obtain ⟨hitems, h₈⟩ := met
            refine .pure ⟨rfl, ?_, by omega⟩
            exact both_true (both_true (hfilled (by omega)) hsubject) hitems

/-! ### Loops -/

theorem reads_whileStatement (h : W.Agree (first + 1) r r') (hpos : first ≤ pos) (hlt : pos < W.stop) :
    W.ReadsStmt pos (Parse.whileStatement r) (Parse.whileStatement r') := by
  have filled := W.filled
  unfold Parse.whileStatement
  refine reads_line.bind fun here e h₁ => reads_advance.bind fun _ e₁ h₂ => ?_
  refine (reads_check _).bind fun b e₂ met => ?_
  obtain ⟨h₃, _⟩ := met
  subst h₁ h₃
  split
  · exact reads_synchronize.bind fun _ _ he => .pure ⟨rfl, rfl, by omega⟩
  · refine echo_filledParenGroup?.bind fun g g' e₃ met => ?_
    obtain ⟨h₄, hg⟩ := met
    subst h₄
    cases hg with
    | none => exact reads_synchronize.bind fun _ _ he => .pure ⟨rfl, rfl, by omega⟩
    | @some close hwidth hclose =>
        have inside : e₃ + W.shift + 1 = e₃ + 1 + W.shift := by omega
        have behind : close + W.shift + 1 = close + 1 + W.shift := by omega
        dsimp only
        rw [inside, behind]
        refine (reads_condition h (by omega) (by omega) (by omega) (by omega)).bind fun c e₄ met => ?_
        obtain ⟨_, htest, hfilled⟩ := met
        refine (reads_setPos (by omega)).bind fun _ e₅ h₅ => ?_
        refine (reads_block h (by omega)).bind fun body e₆ met => ?_
        obtain ⟨hbody, h₆⟩ := met
        refine .pure ⟨rfl, ?_, by omega⟩
        exact both_true (both_true (hfilled (by omega)) htest) hbody

theorem reads_doStatement (h : W.Agree (first + 1) r r') (hpos : first ≤ pos) (hlt : pos < W.stop) :
    W.ReadsStmt pos (Parse.doStatement r) (Parse.doStatement r') := by
  have filled := W.filled
  unfold Parse.doStatement
  refine reads_line.bind fun here e h₁ => reads_advance.bind fun _ e₁ h₂ => ?_
  refine (reads_block h (by omega)).bind fun body e₂ met => ?_
  obtain ⟨hbody, h₃⟩ := met
  have untested (problem : Problem) {e : Nat} (he : pos ≤ e) :
      W.Reads e (fun s e => s.meets .read = true ∧ pos ≤ e)
        (do
          Parse.synchronize
          return Stmt.doWithoutTest body ⟨here, problem⟩)
        (do
          Parse.synchronize
          return Stmt.doWithoutTest body ⟨here, problem⟩) :=
    reads_synchronize.bind fun _ _ h => .pure ⟨rfl, hbody, by omega⟩
  refine (reads_eatKeyword _).bind fun b e₃ h₄ => ?_
  split
  · exact untested .doWithoutWhile (by omega)
  · refine (reads_check _).bind fun b e₄ met => ?_
    obtain ⟨h₅, _⟩ := met
    subst h₅
    split
    · exact untested .whileWithoutParen (by omega)
    · refine echo_filledParenGroup?.bind fun g g' e₅ met => ?_
      obtain ⟨h₆, hg⟩ := met
      subst h₆
      cases hg with
      | none => exact untested .whileWithoutTest (by omega)
      | @some close hwidth hclose =>
          have inside : e₅ + W.shift + 1 = e₅ + 1 + W.shift := by omega
          have behind : close + W.shift + 1 = close + 1 + W.shift := by omega
          dsimp only
          rw [inside, behind]
          refine (reads_condition h (by omega) (by omega) (by omega) (by omega)).bind fun c e₆ met => ?_
          obtain ⟨_, htest, hfilled⟩ := met
          refine (reads_setPos (by omega)).bind fun _ e₇ h₇ => .pure ⟨rfl, ?_, by omega⟩
          exact both_true (both_true (hfilled (by omega)) hbody) htest

theorem echo_forInit (h : W.Agree first r r') (hpos : first ≤ pos) :
    W.Echo pos (fun c c' _ => c'.1 = c.1 ∧ c.1.meets .read = true ∧ W.Found pos (W.stop + 1) c.2 c'.2)
      (Parse.forInit r) (Parse.forInit r') := by
  unfold Parse.forInit
  have behind (init : Stmt) {e : Nat} (hinit : init.meets .read = true) (he : pos ≤ e) :
      W.Echo e (fun c c' _ => c'.1 = c.1 ∧ c.1.meets .read = true ∧ W.Found pos (W.stop + 1) c.2 c'.2)
        (do if ← Parse.eat [.semicolon] then return (init, some (← Parse.pos)) else return (init, none))
        (do if ← Parse.eat [.semicolon] then return (init, some (← Parse.pos)) else return (init, none)) := by
    refine (reads_eat _).bind fun b e₁ h₁ => ?_
    split
    · rename_i hb
      have := h₁.2.1 hb
      refine echo_pos.bind fun p p' e₂ met => ?_
      obtain ⟨_, hp, hp'⟩ := met
      refine .pure ⟨rfl, hinit, ?_⟩
      rw [hp, hp']
      exact .some (by omega) (by omega)
    · exact .pure ⟨rfl, hinit, .none⟩
  refine reads_peek.bind fun t e met => ?_
  obtain ⟨he, _⟩ := met
  subst he
  split
  · refine (reads_variableDeclaration (h.mono (Nat.le_succ_of_le hpos)) (Nat.le_refl _)).bind
      fun init e' met => ?_
    obtain ⟨hinit, he'⟩ := met
    exact behind init hinit he'
  · refine (Reads.map (h.expr (.refl W) false hpos) (S := fun s e' => s.meets .read = true ∧ e ≤ e')
      fun x e' met => ⟨met.1, met.2.1.1⟩).bind fun init e' met => ?_
    obtain ⟨hinit, he'⟩ := met
    exact behind init hinit he'

theorem echo_forTest (h : W.Agree first r r') (hpos : first ≤ pos) (hle : pos ≤ W.stop) :
    W.Echo pos (fun c c' _ => c'.1 = c.1 ∧ c'.2.1 = c.2.1 ∧ c.1.meets .read = true ∧
        c'.2.2 = c.2.2 + W.shift ∧ pos ≤ c.2.2 ∧ c.2.2 ≤ W.stop)
      (Parse.forTest r) (Parse.forTest r') := by
  unfold Parse.forTest
  refine (h.expr (.refl W) false hpos).bind fun test e met => ?_
  obtain ⟨htest, he, _⟩ := met
  refine (reads_eat _).bind fun b e₁ h₁ => echo_pos.bind fun p p' e₂ met => ?_
  obtain ⟨_, hp, hp'⟩ := met
  subst hp hp'
  refine .pure ⟨rfl, rfl, htest, rfl, Nat.le_trans he.1 h₁.1, ?_⟩
  have := he.2 hle
  cases b with
  | true => exact (h₁.2.1 rfl).2 ▸ (h₁.2.1 rfl).1
  | false => exact h₁.2.2 rfl ▸ this

theorem reads_forPost (h : W.Agree first r r') (hpos : first ≤ pos) :
    W.Reads pos (fun c _ => c.1.meets .read = true) (Parse.forPost r) (Parse.forPost r') := by
  unfold Parse.forPost
  refine reads_skipSemicolons.bind fun _ e h₁ => (h.expr (.refl W) false (by omega)).bind fun post e' met => ?_
  obtain ⟨hpost, _⟩ := met
  exact reads_atEnd.bind fun b _ _ => .pure ⟨rfl, hpost⟩

theorem reads_forStatement (h : W.Agree (first + 1) r r') (hpos : first ≤ pos) (hlt : pos < W.stop) :
    W.ReadsStmt pos (Parse.forStatement r) (Parse.forStatement r') := by
  have filled := W.filled
  unfold Parse.forStatement
  refine reads_line.bind fun here e h₁ => reads_advance.bind fun _ e₁ h₂ => ?_
  refine (reads_check _).bind fun b e₂ met => ?_
  obtain ⟨h₃, _⟩ := met
  subst h₁ h₃
  split
  · exact reads_synchronize.bind fun _ _ he => .pure ⟨rfl, rfl, by omega⟩
  · refine echo_filledParenGroup?.bind fun g g' e₃ met => ?_
    obtain ⟨h₄, hg⟩ := met
    subst h₄
    cases hg with
    | none =>
        have skipped {e' : Nat} (he : e ≤ e') : W.Reads e' (fun s e' => s.meets .read = true ∧ e ≤ e')
            (do
              Parse.skipDeclaration
              return Stmt.report ⟨here, .forInvalid⟩)
            (do
              Parse.skipDeclaration
              return Stmt.report ⟨here, .forInvalid⟩) :=
          reads_skipDeclaration.bind fun _ _ h => .pure ⟨rfl, rfl, by omega⟩
        refine echo_parenGroup?.bind fun g g' e₄ met => ?_
        obtain ⟨h₅, hg⟩ := met
        subst h₅
        refine .get ?_
        cases hg with
        | none => exact (reads_setPos filled).bind fun _ e₅ h₅ => skipped (by omega)
        | @some close hwidth hclose =>
            have behind : close + W.shift + 1 = close + 1 + W.shift := by omega
            dsimp only [Option.elim]
            rw [behind]
            exact (reads_setPos (by omega)).bind fun _ e₅ h₅ => skipped (by omega)
    | @some close hwidth hclose =>
        have inside : e₃ + W.shift + 1 = e₃ + 1 + W.shift := by omega
        have behind : close + W.shift + 1 = close + 1 + W.shift := by omega
        have hle : close ≤ W.stop := by omega
        dsimp only
        rw [inside, behind]
        refine (Echo.within (by omega) hle (by omega)
          (echo_forInit (h.inside (W.narrow_inside (by omega) hle)) (by omega))).bind
            fun c c' e₄ met => ?_
        obtain ⟨h₅, _, hinit, hmeets, hstart⟩ := met
        obtain ⟨init, testStart⟩ := c
        obtain ⟨init', testStart'⟩ := c'
        dsimp only at hinit hmeets hstart
        subst hinit
        cases hstart with
        | none =>
            refine (reads_setPos (by omega)).bind fun _ e₅ h₅ => reads_skipDeclaration.bind fun _ e₆ h₆ => ?_
            refine .pure ⟨rfl, ?_, by omega⟩
            exact both_true hmeets rfl
        | @some start hge hlt' =>
            change start < close + 1 at hlt'
            refine (Echo.within (by omega) hle (by omega)
              (echo_forTest (h.inside (W.narrow_inside (by omega) hle)) (by omega) (by show start ≤ close; omega))).bind
                fun c c' e₅ met => ?_
            obtain ⟨h₅, _, htest, hafter, hmeets', hpost, hge', hle'⟩ := met
            obtain ⟨test, afterTest, postStart⟩ := c
            obtain ⟨test', afterTest', postStart'⟩ := c'
            dsimp only at htest hafter hmeets' hpost hge' hle'
            subst htest hafter hpost
            change postStart ≤ close at hle'
            refine (Reads.within (by omega) hle hle'
              (reads_forPost (h.inside (W.narrow_inside (by omega) hle)) (by omega))).bind
                fun c e₆ met => ?_
            obtain ⟨h₆, _, hmeets''⟩ := met
            refine (reads_setPos (by omega)).bind fun _ e₇ h₇ => ?_
            refine (reads_block h (by omega)).bind fun body e₈ met => ?_
            obtain ⟨hbody, h₈⟩ := met
            refine .pure ⟨rfl, ?_, by omega⟩
            exact both_true (both_true (both_true hmeets hmeets') hbody) hmeets''

/-- The line of a token that is found. -/
theorem reads_lineAt {i : Nat} (hi : i < W.stop) :
    W.Reads pos (fun _ e => e = pos) (Parse.lineAt i) (Parse.lineAt (i + W.shift)) := by
  unfold Parse.lineAt
  refine .get (.pure ⟨?_, rfl⟩)
  rw [get?_far W pos pos hi, line_far]

theorem reads_abandonForeach (head : ForeachHead) (hhead : head.meets .read = true) {close : Nat} (hle : close < W.stop)
    (hclose : pos ≤ close) :
    W.Reads e (fun x e => x.meets .read = true ∧ pos ≤ e) (Parse.abandonForeach close head)
      (Parse.abandonForeach (close + W.shift) head) := by
  have filled := W.filled
  have behind : close + W.shift + 1 = close + 1 + W.shift := by omega
  unfold Parse.abandonForeach
  rw [behind]
  exact (reads_setPos (by omega)).bind fun _ _ h₁ => reads_skipDeclaration.bind fun _ _ h₂ => .pure ⟨rfl, hhead, by omega⟩

theorem reads_foreachValue (h : W.Agree first r r') {start close : Nat} (hstart : first ≤ start) (hend : start ≤ close)
    (hle : close < W.stop) (hclose : pos ≤ close) (hfirst : first ≤ close + 1) :
    W.Reads e (fun x e => x.meets .read = true ∧ pos ≤ e) (Parse.foreachValue r start close)
      (Parse.foreachValue r' (start + W.shift) (close + W.shift)) := by
  have filled := W.filled
  have behind : close + W.shift + 1 = close + 1 + W.shift := by omega
  unfold Parse.foreachValue
  refine .get ?_
  rw [get?_far W e e (by omega), behind]
  have next : (if ((W.near e).get? start).any (·.is .ampersand) = true then start + W.shift + 1 else start + W.shift) =
      (if ((W.near e).get? start).any (·.is .ampersand) = true then start + 1 else start) + W.shift := by
    split <;> omega
  have hnext : start ≤ (if ((W.near e).get? start).any (·.is .ampersand) = true then start + 1 else start) := by
    split <;> omega
  dsimp only
  rw [next]
  generalize (if ((W.near e).get? start).any (·.is .ampersand) = true then start + 1 else start) = from_ at hnext ⊢
  by_cases hempty : close ≤ from_
  · rw [if_pos hempty, if_pos (by omega)]
    exact reads_abandonForeach _ rfl hle hclose
  · rw [if_neg hempty, if_neg (by omega)]
    refine (Reads.within (by omega) (Nat.le_of_lt hle) (by omega)
      (h.expr (W.narrow_inside (by omega) (Nat.le_of_lt hle)) false (by omega))).bind fun value e' met => ?_
    obtain ⟨he', _, hvalue, _⟩ := met
    cases value.soleVariableName? with
    | none =>
        refine (reads_lineAt (i := from_) (by omega)).bind fun line e'' he'' => reads_abandonForeach _ ?_ hle hclose
        exact hvalue
    | some name =>
        refine (reads_setPos (by omega)).bind fun _ e₁ h₁ => (reads_block h (by omega)).bind fun body e₂ met => ?_
        obtain ⟨hbody, h₂⟩ := met
        refine .pure ⟨rfl, ?_, by omega⟩
        exact both_true hvalue hbody

theorem reads_foreachHead (h : W.Agree first r r') {start close : Nat} (hstart : first ≤ start) (hle : close < W.stop)
    (hclose : pos ≤ close) (hfirst : first ≤ close + 1) :
    W.Reads e (fun x e => x.meets .read = true ∧ pos ≤ e) (Parse.foreachHead r start close)
      (Parse.foreachHead r' (start + W.shift) (close + W.shift)) := by
  unfold Parse.foreachHead
  by_cases hempty : close ≤ start
  · rw [if_pos hempty, if_pos (by omega)]
    exact reads_abandonForeach _ rfl hle hclose
  · rw [if_neg hempty, if_neg (by omega)]
    refine (echo_findIndex start (Nat.le_of_lt hle) _).bind fun i i' e' met => ?_
    obtain ⟨he', hi⟩ := met
    cases hi with
    | none => exact reads_foreachValue h hstart (by omega) hle hclose hfirst
    | @some arrow hge hlt =>
        have behind : arrow + W.shift + 1 = arrow + 1 + W.shift := by omega
        dsimp only
        rw [behind]
        by_cases hkey : arrow = start
        · rw [if_pos hkey, if_pos (by omega)]
          exact reads_abandonForeach _ rfl hle hclose
        · rw [if_neg hkey, if_neg (by omega)]
          have hle' : arrow ≤ W.stop := by omega
          refine (Reads.within (by omega) hle' (by omega)
            (h.expr (W.narrow_inside (by omega) hle') false (by omega))).bind fun key e₁ met => ?_
          obtain ⟨h₁, _, hvalue, _⟩ := met
          cases key.soleVariableName? with
          | none =>
              refine (reads_lineAt (i := start) (by omega)).bind fun line e₂ h₂ => reads_abandonForeach _ ?_ hle hclose
              exact hvalue
          | some name =>
              refine (reads_foreachValue h (by omega) (by omega) hle hclose hfirst).bind fun rest e₂ met => ?_
              obtain ⟨hrest, h₂⟩ := met
              refine .pure ⟨rfl, ?_, h₂⟩
              exact both_true hvalue hrest

theorem reads_foreachStatement (h : W.Agree (first + 1) r r') (hpos : first ≤ pos) (hlt : pos < W.stop) :
    W.ReadsStmt pos (Parse.foreachStatement r) (Parse.foreachStatement r') := by
  have filled := W.filled
  unfold Parse.foreachStatement
  refine reads_line.bind fun here e h₁ => reads_advance.bind fun _ e₁ h₂ => ?_
  refine (reads_check _).bind fun b e₂ met => ?_
  obtain ⟨h₃, _⟩ := met
  subst h₁ h₃
  split
  · exact reads_synchronize.bind fun _ _ he => .pure ⟨rfl, rfl, by omega⟩
  · refine echo_filledParenGroup?.bind fun g g' e₃ met => ?_
    obtain ⟨h₄, hg⟩ := met
    subst h₄
    cases hg with
    | none => exact reads_synchronize.bind fun _ _ he => .pure ⟨rfl, rfl, by omega⟩
    | @some close hwidth hclose =>
        have inside : e₃ + W.shift + 1 = e₃ + 1 + W.shift := by omega
        have behind : close + W.shift + 1 = close + 1 + W.shift := by omega
        dsimp only
        rw [inside, behind]
        refine (echo_findIndex (e₃ + 1) (Nat.le_of_lt hclose) _).bind fun i i' e₄ met => ?_
        obtain ⟨h₅, hi⟩ := met
        subst h₅
        cases hi with
        | none =>
            refine (reads_setPos (by omega)).bind fun _ _ h₆ => reads_skipDeclaration.bind fun _ _ h₇ => ?_
            exact .pure ⟨rfl, rfl, by omega⟩
        | @some as hstart hstop =>
            by_cases hsource : e₄ + 1 < as
            · have near : (some as).filter (fun i => decide (e₄ + 1 < i)) = some as := by simp [Option.filter, hsource]
              have far : (some (as + W.shift)).filter (fun i => decide (e₄ + 1 + W.shift < i)) = some (as + W.shift) := by
                simp [Option.filter, hsource]
              have next : as + W.shift + 1 = as + 1 + W.shift := by omega
              rw [near, far]
              dsimp only
              rw [next]
              refine (reads_condition h (by omega) (by omega) (by omega) (by omega)).bind fun c e₅ met => ?_
              obtain ⟨h₆, hvalue, hfilled⟩ := met
              refine (reads_foreachHead h (by omega) hclose (show e ≤ close by omega) (by omega)).bind
                fun head e₆ met => ?_
              obtain ⟨hhead, h₇⟩ := met
              refine .pure ⟨rfl, ?_, h₇⟩
              exact both_true (both_true (hfilled hsource) hvalue) hhead
            · have near : (some as).filter (fun i => decide (e₄ + 1 < i)) = none := by simp [Option.filter, hsource]
              have far : (some (as + W.shift)).filter (fun i => decide (e₄ + 1 + W.shift < i)) = none := by
                simp [Option.filter, hsource]
              rw [near, far]
              refine (reads_setPos (by omega)).bind fun _ _ h₆ => reads_skipDeclaration.bind fun _ _ h₇ => ?_
              exact .pure ⟨rfl, rfl, by omega⟩

/-! ### Jumps -/

theorem reads_loopJump (jump : LoopJump) : W.ReadsStmt pos (Parse.loopJump jump) (Parse.loopJump jump) := by
  unfold Parse.loopJump
  refine reads_line.bind fun here e h₁ => reads_advance.bind fun _ e₁ h₂ => ?_
  subst h₁
  have jumped (level : Nat) {e' : Nat} (he : e ≤ e') : W.Reads e' (fun s e' => s.meets .read = true ∧ e ≤ e')
      (do
        let unterminated := !(← Parse.check [.semicolon]) && !(← Parse.atEnd)
        Parse.recover
        return Stmt.loopJump jump here level unterminated)
      (do
        let unterminated := !(← Parse.check [.semicolon]) && !(← Parse.atEnd)
        Parse.recover
        return Stmt.loopJump jump here level unterminated) := by
    refine (reads_check _).bind fun b e₂ met => reads_atEnd.bind fun b' e₃ met' => ?_
    obtain ⟨h₃, _⟩ := met
    obtain ⟨h₄, _⟩ := met'
    exact reads_recover.bind fun _ e₄ h₅ => .pure ⟨rfl, rfl, by omega⟩
  refine reads_peek.bind fun t e₂ met => ?_
  obtain ⟨h₃, _⟩ := met
  subst h₃
  cases t.filter (·.isAny [.integer, .real]) with
  | none => exact jumped 0 h₂.1
  | some t => exact reads_advance.bind fun _ e₃ h₄ => jumped (Parse.jumpLevel t) (Nat.le_trans h₂.1 h₄.1)

theorem reads_returnStatement (h : W.Agree (first + 1) r r') (hpos : first ≤ pos) (hlt : pos < W.stop) :
    W.ReadsStmt pos (Parse.returnStatement r) (Parse.returnStatement r') := by
  unfold Parse.returnStatement
  refine reads_advance.bind fun _ e₁ h₁ => (h.expr (.refl W) false (by omega)).bind fun value e₂ met => ?_
  obtain ⟨hvalue, h₂, _⟩ := met
  exact .pure ⟨rfl, hvalue, by omega⟩

theorem reads_exitStatement (h : W.Agree (first + 1) r r') (hpos : first ≤ pos) (hlt : pos < W.stop) :
    W.ReadsStmt pos (Parse.exitStatement r) (Parse.exitStatement r') := by
  unfold Parse.exitStatement
  refine reads_advance.bind fun _ e₁ h₁ => (h.expr (.refl W) false (by omega)).bind fun value e₂ met => ?_
  obtain ⟨hvalue, h₂, _⟩ := met
  exact .pure ⟨rfl, hvalue, by omega⟩

/-! ### Exceptions -/

theorem reads_malformedCatch (line : Nat) (problem : Problem) :
    W.Reads pos (fun c e => c.meets .read = true ∧ pos ≤ e) (Parse.malformedCatch line problem)
      (Parse.malformedCatch line problem) :=
  reads_skipDeclaration.bind fun _ _ he => .pure ⟨rfl, rfl, he⟩

theorem reads_catchClause (h : W.Agree first r r') (hpos : first ≤ pos) :
    W.Reads pos (fun c e => c.meets .read = true ∧ pos ≤ e) (Parse.catchClause r) (Parse.catchClause r') := by
  unfold Parse.catchClause
  have malformed (line : Nat) (problem : Problem) {e : Nat} (he : pos ≤ e) :
      W.Reads e (fun c e => c.meets .read = true ∧ pos ≤ e) (Parse.malformedCatch line problem)
        (Parse.malformedCatch line problem) :=
    (reads_malformedCatch line problem).mono fun _ _ ⟨hc, he'⟩ => ⟨hc, Nat.le_trans he he'⟩
  refine reads_line.bind fun here e₁ h₁ => reads_peek.bind fun paren e₂ met => ?_
  obtain ⟨h₂, _⟩ := met
  split
  · exact malformed _ _ (by omega)
  · refine (reads_peekNth 1).bind fun className e₃ met => ?_
    obtain ⟨h₃, _⟩ := met
    split
    · exact malformed _ _ (by omega)
    · refine reads_advance.bind fun _ e₄ h₄ => reads_advance.bind fun _ e₅ h₅ => ?_
      refine reads_variableName?.bind fun binding e₆ met => ?_
      obtain ⟨h₆, _⟩ := met
      cases binding with
      | none =>
          refine reads_peek.bind fun t e₇ met => ?_
          obtain ⟨h₇, _⟩ := met
          exact malformed _ _ (by omega)
      | some binding =>
          refine reads_advance.bind fun _ e₇ h₇ => reads_advance.bind fun _ e₈ h₈ => (reads_eat _).bind fun b e₉ h₉ => ?_
          split
          · refine (reads_block h (by omega)).bind fun body e met => ?_
            obtain ⟨hbody, he⟩ := met
            refine .pure ⟨rfl, ?_, by omega⟩
            exact hbody
          · refine reads_peek.bind fun t e met => ?_
            obtain ⟨he, _⟩ := met
            exact malformed _ _ (by omega)

theorem reads_catchClauses (h : W.Agree first r r') (n : Nat) (hpos : first ≤ pos) :
    W.Reads pos (fun cs e => CatchClause.allMeet .read cs = true ∧ pos ≤ e) (Parse.catchClauses r n)
      (Parse.catchClauses r' n) := by
  induction n generalizing pos with
  | zero => exact .pure ⟨rfl, rfl, Nat.le_refl _⟩
  | succ n ih =>
      unfold Parse.catchClauses
      refine (reads_eatKeyword _).bind fun b e₁ h₁ => ?_
      split
      · refine (reads_catchClause h (by omega)).bind fun clause e₂ met => ?_
        obtain ⟨hclause, h₂⟩ := met
        refine (ih (by omega)).bind fun clauses e₃ met => ?_
        obtain ⟨hclauses, h₃⟩ := met
        refine .pure ⟨rfl, ?_, by omega⟩
        exact CatchClause.allMeet_cons hclause hclauses
      · exact .pure ⟨rfl, rfl, h₁.1⟩

theorem reads_tryStatement (h : W.Agree (first + 1) r r') (hpos : first ≤ pos) (hlt : pos < W.stop) :
    W.ReadsStmt pos (Parse.tryStatement r) (Parse.tryStatement r') := by
  unfold Parse.tryStatement
  refine reads_line.bind fun here e h₁ => reads_advance.bind fun _ e₁ h₂ => ?_
  subst h₁
  refine (reads_block h (by omega)).bind fun body e₂ met => (reads_checkKeyword _).bind fun b e₃ met' => ?_
  obtain ⟨hbody, h₃⟩ := met
  obtain ⟨h₄, _⟩ := met'
  subst h₄
  split
  · refine .get ?_
    rw [remaining_far]
    refine (reads_catchClauses h _ (by omega)).bind fun clauses e₄ met => ?_
    obtain ⟨hclauses, h₅⟩ := met
    refine .pure ⟨rfl, ?_, by omega⟩
    exact both_true hbody hclauses
  · refine reads_peek.bind fun t e₄ met => ?_
    obtain ⟨h₅, _⟩ := met
    refine .pure ⟨rfl, ?_, by omega⟩
    exact both_true hbody rfl

theorem reads_throwStatement (h : W.Agree (first + 1) r r') (hpos : first ≤ pos) (hlt : pos < W.stop) :
    W.ReadsStmt pos (Parse.throwStatement r) (Parse.throwStatement r') := by
  unfold Parse.throwStatement
  refine reads_line.bind fun here e h₁ => reads_advance.bind fun _ e₁ h₂ => ?_
  refine (h.expr (.refl W) false (by omega)).bind fun value e₂ met => ?_
  obtain ⟨hvalue, h₃, _⟩ := met
  exact .pure ⟨rfl, hvalue, by omega⟩

end Passage

end StackScript
