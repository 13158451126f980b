/-
Blocks, argument lists and functions, read twice.

`Agree` says that the readers of what is nested inside a construct do the same, for everything between a first
position and the end of the window; every reader of a construct then does the same as well.  What is read on the
way meets what reading ensures: where an expression is missing the cursor has not moved, so there are tokens
left over to report.
-/
import StackScript.Proofs.Reading.Basic

namespace StackScript

namespace Passage

/-- Two families of readers do the same in every window inside a passage, from `first` on. -/
structure Agree (W : Passage) (first : Nat) (r r' : Readers) : Prop where
  stmt {V : Passage} (hV : V.Inside W) {pos : Nat} (hpos : first ≤ pos) :
    V.Reads pos (fun s e => s.meets .read = true ∧ pos ≤ e) r.stmt r'.stmt
  expr {V : Passage} (hV : V.Inside W) (atComma : Bool) {pos : Nat} (hpos : first ≤ pos) :
    V.Reads pos (fun x e => x.meets .read = true ∧ (pos ≤ e ∧ (pos ≤ V.stop → e ≤ V.stop)) ∧
      (x.isMissing = true → e = pos)) (r.expr atComma) (r'.expr atComma)
  scope {V : Passage} (hV : V.Inside W) {pos : Nat} (hpos : first ≤ pos) :
    V.Reads pos (fun ss e => Stmt.allMeet .read ss = true ∧ pos ≤ e) r.scope r'.scope

variable {W V : Passage} {first pos : Nat} {r r' : Readers}

theorem Agree.mono (h : W.Agree first r r') {first' : Nat} (hle : first ≤ first') : W.Agree first' r r' where
  stmt hV _ hpos := h.stmt hV (Nat.le_trans hle hpos)
  expr hV atComma _ hpos := h.expr hV atComma (Nat.le_trans hle hpos)
  scope hV _ hpos := h.scope hV (Nat.le_trans hle hpos)

theorem Agree.inside (h : W.Agree first r r') (hV : V.Inside W) : V.Agree first r r' where
  stmt hU _ hpos := h.stmt (hU.trans hV) hpos
  expr hU atComma _ hpos := h.expr (hU.trans hV) atComma hpos
  scope hU _ hpos := h.scope (hU.trans hV) hpos

/-! ### Expressions that fill a window -/

/-- A condition.  A missing one leaves tokens over, unless there are none. -/
theorem reads_condition (h : W.Agree first r r') {start stop : Nat} (hfirst : first ≤ start) (hstart : start ≤ stop)
    (hpos : 0 < stop) (hle : stop ≤ W.stop) :
    W.Reads pos (fun c e => e = pos ∧ c.1.meets .read = true ∧
        (start < stop → (!c.1.isMissing || !c.2.isEmpty) = true))
      (Parse.condition r start stop) (Parse.condition r' (start + W.shift) (stop + W.shift)) := by
  refine (Reads.within hpos hle hstart (R := fun c _ => c.1.meets .read = true ∧
    (start < stop → (!c.1.isMissing || !c.2.isEmpty) = true)) ?_).mono fun _ _ met => ⟨met.1, met.2.elim fun _ hc => hc⟩
  refine (h.expr (W.narrow_inside hpos hle) false hfirst).bind fun x e met => ?_
  obtain ⟨hx, _, hmissing⟩ := met
  refine reads_rest.bind fun ts e' met => ?_
  obtain ⟨_, hts⟩ := met
  refine .pure ⟨rfl, hx, fun hlt => ?_⟩
  by_cases hm : x.isMissing = true
  · have := hts ((hmissing hm).symm ▸ hlt)
    simp [this]
  · simp [hm]

/-- An expression that should fill the window.  Where it is missing, something is left over. -/
theorem reads_filling (h : W.Agree first r r') (hpos : first ≤ pos) :
    W.Reads pos (fun c _ => c.1.meets .read = true ∧ (pos < W.stop → c.1.isMissing = true → c.2.isSome = true))
      (Parse.filling r) (Parse.filling r') := by
  unfold Parse.filling
  refine (h.expr (.refl W) false hpos).bind fun x e met => ?_
  obtain ⟨hx, _, hmissing⟩ := met
  refine reads_atEnd.bind fun b e' met => ?_
  obtain ⟨he', hb⟩ := met
  split
  · rename_i hend
    refine .pure ⟨rfl, hx, fun hlt hm => ?_⟩
    have := hb.mp hend
    have := hmissing hm
    omega
  · exact reads_line.bind fun _ _ _ => .pure ⟨rfl, hx, fun _ _ => rfl⟩

/-! ### Blocks -/

theorem reads_blockItems (h : W.Agree first r r') (n : Nat) (hpos : first ≤ pos) :
    W.Reads pos (fun items e => Stmt.allMeet .read items.1 = true ∧ pos ≤ e) (Parse.blockItems r n)
      (Parse.blockItems r' n) := by
  induction n generalizing pos with
  | zero => exact .pure ⟨rfl, rfl, Nat.le_refl _⟩
  | succ n ih =>
      unfold Parse.blockItems
      refine reads_peek.bind fun t e met => ?_
      obtain ⟨he, _⟩ := met
      subst he
      cases t with
      | none => exact .pure ⟨rfl, rfl, Nat.le_refl _⟩
      | some t =>
          dsimp only
          split
          · exact reads_advance.bind fun _ _ he => .pure ⟨rfl, rfl, he.1⟩
          · refine (h.stmt (.refl W) hpos).bind fun item e met => ?_
            obtain ⟨hitem, he⟩ := met
            refine (ih (Nat.le_trans hpos he)).bind fun items e' met => ?_
            obtain ⟨hitems, he'⟩ := met
            refine .pure ⟨rfl, ?_, Nat.le_trans he he'⟩
            exact Stmt.allMeet_cons hitem hitems

theorem reads_braces (h : W.Agree first r r') (hlt : pos < W.stop) (hpos : first ≤ pos + 1) :
    W.Reads pos (fun s e => s.meets .read = true ∧ pos < e) (Parse.braces r) (Parse.braces r') := by
  unfold Parse.braces
  refine reads_line.bind fun start e he => ?_
  subst he
  refine reads_advance.bind fun _ e' he' => ?_
  refine .get ?_
  rw [remaining_far]
  refine (reads_blockItems h _ (by omega)).bind fun items e'' met => ?_
  obtain ⟨hitems, he''⟩ := met
  exact .pure ⟨rfl, hitems, by omega⟩

theorem reads_block (h : W.Agree first r r') (hpos : first ≤ pos) :
    W.Reads pos (fun s e => s.meets .read = true ∧ pos ≤ e) (Parse.block r) (Parse.block r') := by
  unfold Parse.block
  refine (reads_check _).bind fun b e met => ?_
  obtain ⟨he, hopened⟩ := met
  subst he
  have skip (body : Stmt) {e' : Nat} (hbody : body.meets .read = true) (he' : e ≤ e') :
      W.Reads e' (fun s e'' => s.meets .read = true ∧ e ≤ e'')
        (do Parse.skipSemicolons; return body) (do Parse.skipSemicolons; return body) :=
    reads_skipSemicolons.bind fun _ _ he'' => .pure ⟨rfl, hbody, Nat.le_trans he' he''⟩
  split
  · rename_i hb
    refine (reads_braces h (hopened hb) (by omega)).bind fun body _ met => ?_
    obtain ⟨hbody, he'⟩ := met
    exact skip body hbody (Nat.le_of_lt he')
  · refine (h.stmt (.refl W) hpos).bind fun body _ met => ?_
    obtain ⟨hbody, he'⟩ := met
    exact skip body hbody he'

/-- What is nested in a block that is known to stand in braces is read from behind the first token on. -/
theorem reads_bracedBlock (h : W.Agree (pos + 1) r r') (hopened : (W.near pos).check [.openBrace] = true) :
    W.Reads pos (fun s e => s.meets .read = true ∧ pos ≤ e) (Parse.block r) (Parse.block r') := by
  unfold Parse.block
  refine (reads_look (check_far W pos [.openBrace])).bind fun b e met => ?_
  obtain ⟨he, hb⟩ := met
  subst he
  rw [hb, if_pos hopened, if_pos hopened]
  refine (reads_braces h (lt_of_check hopened) (Nat.le_refl _)).bind fun body e₁ met => ?_
  obtain ⟨hbody, h₁⟩ := met
  exact reads_skipSemicolons.bind fun _ _ h₂ => .pure ⟨rfl, hbody, by omega⟩

/-! ### Argument lists -/

theorem reads_argumentType (t : Token) : W.Reads pos (fun _ e => pos ≤ e) (Parse.argumentType t) (Parse.argumentType t) := by
  unfold Parse.argumentType
  split
  · refine reads_builtinType?.bind fun type e he => ?_
    cases type with
    | none => exact .pure ⟨rfl, he.1⟩
    | some type => exact .pure ⟨rfl, he.1⟩
  · split
    · exact reads_advance.bind fun _ _ he => reads_arraySuffix.bind fun _ _ he' => .pure ⟨rfl, Nat.le_trans he.1 he'⟩
    · exact .pure ⟨rfl, Nat.le_refl _⟩

theorem reads_argumentDefault (h : W.Agree first r r') (line : Nat) (hpos : first ≤ pos) :
    W.Reads pos (fun value e => pos ≤ e ∧ ∀ v, value = .ok v → v.2.meets .read = true) (Parse.argumentDefault r line)
      (Parse.argumentDefault r' line) := by
  unfold Parse.argumentDefault
  refine .get ?_
  have filled := W.filled
  have stop := exprEnd_far W pos pos pos true
  have bounds := exprEnd_bounds W pos pos true
  dsimp only
  rw [far_pos, stop, near_pos]
  generalize (W.near pos).exprEnd pos true = stop at bounds ⊢
  by_cases hempty : stop ≤ pos
  · rw [if_pos hempty, if_pos (by omega)]
    exact .pure ⟨rfl, Nat.le_refl _, nofun⟩
  · rw [if_neg hempty, if_neg (by omega)]
    have hle : stop ≤ W.stop := by omega
    refine reads_line.bind fun line e he => ?_
    subst he
    refine (Reads.within (by omega) hle (by omega) (h.expr (W.narrow_inside (by omega) hle) false hpos)).bind
      fun value e' met => ?_
    obtain ⟨he', _, hvalue, _⟩ := met
    refine (reads_setPos (by omega)).bind fun _ e'' he'' => .pure ⟨rfl, by omega, fun v hv => ?_⟩
    cases hv
    exact hvalue

theorem reads_argument (h : W.Agree first r r') (t : Token) (hpos : first ≤ pos) :
    W.Reads pos (fun param e => pos ≤ e ∧ ∀ p, param = .ok p → p.meets .read = true) (Parse.argument r t)
      (Parse.argument r' t) := by
  unfold Parse.argument
  refine (reads_argumentType t).bind fun type e he => ?_
  cases type with
  | error report => exact .pure ⟨rfl, he, nofun⟩
  | ok type =>
      refine (reads_eat _).bind fun byRef e' he' => ?_
      refine reads_atEnd.bind fun b e'' met => ?_
      obtain ⟨he'', _⟩ := met
      subst he''
      split
      · exact .pure ⟨rfl, Nat.le_trans he he'.1, nofun⟩
      · refine reads_variableName?.bind fun name e met => ?_
        obtain ⟨hname, _⟩ := met
        subst hname
        cases name with
        | none => exact .pure ⟨rfl, Nat.le_trans he he'.1, nofun⟩
        | some name =>
            refine reads_advance.bind fun _ e₁ h₁ => reads_advance.bind fun _ e₂ h₂ => ?_
            refine (reads_eat _).bind fun b e₃ h₃ => ?_
            have hle : pos ≤ e₃ := by omega
            split
            · refine (reads_argumentDefault h t.line (Nat.le_trans hpos hle)).bind fun value e₄ met => ?_
              obtain ⟨h₄, hvalue⟩ := met
              cases value with
              | error report => exact .pure ⟨rfl, Nat.le_trans hle h₄, nofun⟩
              | ok v =>
                  refine .pure ⟨rfl, Nat.le_trans hle h₄, fun p hp => ?_⟩
                  cases hp
                  exact hvalue v rfl
            · exact .pure ⟨rfl, hle, fun p hp => by cases hp; rfl⟩

theorem reads_arguments (h : W.Agree first r r') (n : Nat) (hpos : first ≤ pos) :
    W.Reads pos (fun params e => pos ≤ e ∧ Parameter.allMeet .read params.1 = true) (Parse.arguments r n)
      (Parse.arguments r' n) := by
  induction n generalizing pos with
  | zero => exact .pure ⟨rfl, Nat.le_refl _, rfl⟩
  | succ n ih =>
      unfold Parse.arguments
      refine reads_peek.bind fun t e met => ?_
      obtain ⟨he, _⟩ := met
      subst he
      cases t with
      | none => exact .pure ⟨rfl, Nat.le_refl _, rfl⟩
      | some t =>
          refine (reads_argument h t hpos).bind fun param e met => ?_
          obtain ⟨he, hparam⟩ := met
          cases param with
          | error report => exact .pure ⟨rfl, he, rfl⟩
          | ok param =>
              have single : Parameter.allMeet .read [param] = true := Parameter.allMeet_cons (hparam _ rfl) rfl
              refine reads_peek.bind fun next e' met => ?_
              obtain ⟨he', _⟩ := met
              subst he'
              cases next with
              | none => exact .pure ⟨rfl, he, single⟩
              | some next =>
                  dsimp only
                  split
                  · refine reads_advance.bind fun _ e₁ h₁ => ?_
                    refine (ih (by omega)).bind fun params e₂ met => ?_
                    obtain ⟨h₂, hparams⟩ := met
                    refine .pure ⟨rfl, by omega, ?_⟩
                    exact Parameter.allMeet_cons (hparam _ rfl) hparams
                  · exact .pure ⟨rfl, he, single⟩

theorem reads_argumentsBetween (h : W.Agree first r r') {start stop : Nat} (hfirst : first ≤ start + 1)
    (hlt : start < stop) (hle : stop ≤ W.stop) :
    W.Reads pos (fun params e => e = pos ∧ Parameter.allMeet .read params.1 = true)
      (Parse.argumentsBetween r start stop) (Parse.argumentsBetween r' (start + W.shift) (stop + W.shift)) := by
  unfold Parse.argumentsBetween
  have next : start + W.shift + 1 = start + 1 + W.shift := by omega
  rw [next]
  refine (Reads.within (by omega) hle hlt (R := fun params _ => Parameter.allMeet .read params.1 = true)
    (.get ?_)).mono fun _ _ met => ⟨met.1, met.2.elim fun _ hparams => hparams⟩
  rw [remaining_far]
  exact (reads_arguments (h.inside (W.narrow_inside (by omega) hle)) _ hfirst).mono fun _ _ h => h.2

theorem reads_signature? (h : W.Agree first r r') (hpos : first ≤ pos + 1) :
    W.Reads pos (fun params e => pos ≤ e ∧ ∀ p, params = some p → pos < e ∧ Parameter.allMeet .read p.1 = true)
      (Parse.signature? r) (Parse.signature? r') := by
  unfold Parse.signature?
  refine echo_parenGroup?.bind fun g g' e met => ?_
  obtain ⟨he, hg⟩ := met
  subst he
  cases hg with
  | none => exact .pure ⟨rfl, Nat.le_refl _, fun _ hp => by cases hp⟩
  | @some close hwidth hclose =>
      have filled := W.filled
      have behind : close + W.shift + 1 = close + 1 + W.shift := by omega
      dsimp only
      rw [behind]
      refine (reads_argumentsBetween h hpos (by omega) (by omega)).bind fun params e' met => ?_
      obtain ⟨he', hparams⟩ := met
      refine (reads_setPos (by omega)).bind fun _ e'' he'' => .pure ⟨rfl, by omega, fun p hp => ?_⟩
      cases hp
      exact ⟨by omega, hparams⟩

/-! ### Functions -/

theorem reads_captureItems (n : Nat) :
    W.Reads pos (fun _ e => pos ≤ e) (Parse.captureItems n) (Parse.captureItems n) := by
  induction n generalizing pos with
  | zero => exact .pure ⟨rfl, Nat.le_refl _⟩
  | succ n ih =>
      unfold Parse.captureItems
      refine reads_peek.bind fun t e met => ?_
      obtain ⟨he, _⟩ := met
      subst he
      cases t with
      | none => exact .pure ⟨rfl, Nat.le_refl _⟩
      | some t =>
          dsimp only
          split
          · exact reads_advance.bind fun _ _ he => .pure ⟨rfl, he.1⟩
          · refine (reads_eat _).bind fun byRef e₁ h₁ => ?_
            refine reads_variableName?.bind fun name e₂ met => ?_
            obtain ⟨h₂, _⟩ := met
            subst h₂
            cases name with
            | none =>
                refine reads_line.bind fun here e₃ h₃ => (reads_skipUntil _).bind fun _ e₄ h₄ => ?_
                exact reads_advance.bind fun _ e₅ h₅ => .pure ⟨rfl, by omega⟩
            | some name =>
                refine reads_advance.bind fun _ e₃ h₃ => reads_advance.bind fun _ e₄ h₄ => ?_
                exact (reads_skipWhile _).bind fun _ e₅ h₅ => ih.bind fun _ e₆ h₆ => .pure ⟨rfl, by omega⟩

theorem reads_captureList : W.Reads pos (fun _ e => pos ≤ e) Parse.captureList Parse.captureList := by
  unfold Parse.captureList
  refine reads_line.bind fun here e₁ h₁ => reads_advance.bind fun _ e₂ h₂ => ?_
  refine (reads_check _).bind fun opened e₃ met => reads_advance.bind fun _ e₄ h₄ => ?_
  obtain ⟨h₃, _⟩ := met
  refine .get ?_
  rw [remaining_far]
  exact (reads_captureItems _).bind fun _ e₅ h₅ => .pure ⟨rfl, by omega⟩

theorem reads_returnType : W.Reads pos (fun _ e => pos ≤ e) Parse.returnType Parse.returnType :=
  reads_builtinType?.bind fun _ _ he => .pure ⟨rfl, he.1⟩

theorem reads_closure (h : W.Agree first r r') (hpos : first ≤ pos + 1) :
    W.Reads pos (fun x _ => x.meets .read = true) (Parse.closure r) (Parse.closure r') := by
  unfold Parse.closure
  refine reads_line.bind fun here e₁ h₁ => reads_returnType.bind fun returns e₂ h₂ => ?_
  refine (reads_eatKeyword _).bind fun _ e₃ h₃ => (reads_eat _).bind fun _ e₄ h₄ => ?_
  refine (reads_signature? h (by omega)).bind fun params e₅ met => ?_
  obtain ⟨h₅, hparams⟩ := met
  cases params with
  | none => exact .pure ⟨rfl, rfl⟩
  | some params =>
      obtain ⟨hafter, hparams⟩ := hparams _ rfl
      have body (captures : Option CaptureList) {e : Nat} (he : first ≤ e) :
          W.Reads e (fun x _ => x.meets .read = true)
            (do return Leaf.closure here returns params.1 params.2 captures (← Parse.block r))
            (do return Leaf.closure here returns params.1 params.2 captures (← Parse.block r')) := by
        refine (reads_block h he).bind fun body _ met => ?_
        obtain ⟨hbody, _⟩ := met
        refine .pure ⟨rfl, ?_⟩
        exact both_true hparams hbody
      refine (reads_checkKeyword _).bind fun b e₆ met => ?_
      obtain ⟨h₆, _⟩ := met
      subst h₆
      split
      · rw [bind_map_left, bind_map_left]
        exact reads_captureList.bind fun captures e₇ h₇ => body captures (by omega)
      · exact body none (by omega)

/-- What every reader of a declaration comes to: it takes at least one token. -/
abbrev ReadsDeclaration (W : Passage) (pos : Nat) (p p' : Parse Stmt) : Prop :=
  W.Reads pos (fun s e => s.meets .read = true ∧ pos ≤ e ∧ (pos < W.stop → pos < e)) p p'

theorem reads_functionDeclaration (h : W.Agree (first + 1) r r') (hpos : first ≤ pos) (hlt : pos < W.stop) :
    W.ReadsDeclaration pos (Parse.functionDeclaration r) (Parse.functionDeclaration r') := by
  unfold Parse.functionDeclaration
  refine reads_line.bind fun here e₁ h₁ => reads_returnType.bind fun returns e₂ h₂ => ?_
  refine reads_advance.bind fun _ e₃ h₃ => (reads_eat _).bind fun byRef e₄ h₄ => ?_
  refine reads_peek.bind fun t e₅ met => ?_
  obtain ⟨h₅, _⟩ := met
  subst h₅
  have behind : first + 1 ≤ e₅ := by omega
  cases t.filter (·.is .name) with
  | none =>
      refine reads_peek.bind fun t e₆ met => reads_skipDeclaration.bind fun _ e₇ h₇ => ?_
      obtain ⟨h₆, _⟩ := met
      exact .pure ⟨rfl, rfl, by omega⟩
  | some name =>
      refine reads_advance.bind fun _ e₆ h₆ => (reads_check _).bind fun b e₇ met => ?_
      obtain ⟨h₇, _⟩ := met
      subst h₇
      split
      · refine reads_line.bind fun parenLine e₈ h₈ => ?_
        refine (reads_signature? h (by omega)).bind fun params e₉ met => ?_
        obtain ⟨h₉, hparams⟩ := met
        cases params with
        | none => exact reads_skipToEnd.bind fun _ e h => .pure ⟨rfl, rfl, by omega⟩
        | some params =>
            refine (reads_block h (by omega)).bind fun body e met => ?_
            obtain ⟨hbody, he⟩ := met
            refine .pure ⟨rfl, ?_, by omega⟩
            exact both_true (hparams _ rfl).2 hbody
      · exact reads_skipDeclaration.bind fun _ e h => .pure ⟨rfl, rfl, by omega⟩

end Passage

end StackScript
