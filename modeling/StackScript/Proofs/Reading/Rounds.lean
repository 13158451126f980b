/-
The rounds of a loop.

A loop over the tokens of a window is granted a number of rounds.  Every round either leaves the loop or goes on
with it from further on, behind at least one token, so the rounds granted are never used up.
-/
import StackScript.Proofs.Reading.Progress

namespace StackScript

open Parse

namespace Passage

variable {α β γ : Type} {W : Passage} {low pos : Nat} {loop : Nat → Parse α} {body : Nat → Parse β} {P : Nat → Prop}

/-- What is left of a round at `pos` that began at `low`: it either ends without the rest of the loop, or goes on
with it once, behind a token that stands at `low` or later, where `P` holds. -/
def Round (W : Passage) (loop : Nat → Parse α) (P : Nat → Prop) (low pos : Nat) (body : Nat → Parse β) : Prop :=
  (∃ out, ∀ n, (body n).run (W.near pos) = out) ∨
    ∃ e, ∃ next : α × TokenStream → β × TokenStream,
      low < e ∧ low < W.stop ∧ P e ∧ ∀ n, (body n).run (W.near pos) = next ((loop n).run (W.near e))

/-- Every round of a loop takes a token or is the last one. -/
abbrev Takes (W : Passage) (loop : Nat → Parse α) (P : Nat → Prop) (pos : Nat) : Prop :=
  W.Round loop P pos pos fun n => loop (n + 1)

/-! ### The parts of a round -/

theorem Round.leave (p : Parse β) : W.Round loop P low pos fun _ => p := .inl ⟨_, fun _ => rfl⟩

theorem Round.again (k : α → Parse β) (hlow : low < pos) (hlt : low < W.stop) (hP : P pos) :
    W.Round loop P low pos fun n => loop n >>= k :=
  .inr ⟨pos, fun out => (k out.1).run out.2, hlow, hlt, hP, fun _ => rfl⟩

theorem Round.echo {R : γ → γ → Nat → Prop} {p p' : Parse γ} {f : Nat → γ → Parse β} (h : W.Echo pos R p p')
    (hf : ∀ a a' e, R a a' e → W.Round loop P low e fun n => f n a) : W.Round loop P low pos fun n => p >>= f n := by
  obtain ⟨a, a', e, hR, hnear, -⟩ := h
  have run (n : Nat) : (p >>= f n).run (W.near pos) = (f n a).run (W.near e) := by
    show (f n (p.run (W.near pos)).1).run (p.run (W.near pos)).2 = _
    rw [hnear]
  rcases hf a a' e hR with ⟨out, hout⟩ | ⟨e', next, hlow, hlt, hP, hnext⟩
  · exact .inl ⟨out, fun n => (run n).trans (hout n)⟩
  · exact .inr ⟨e', next, hlow, hlt, hP, fun n => (run n).trans (hnext n)⟩

theorem Round.bind {R : γ → Nat → Prop} {p p' : Parse γ} {f : Nat → γ → Parse β} (h : W.Reads pos R p p')
    (hf : ∀ a e, R a e → W.Round loop P low e fun n => f n a) : W.Round loop P low pos fun n => p >>= f n :=
  Round.echo h fun a _ e ⟨_, hR⟩ => hf a e hR

/-- A look at the next token finds one, or the window has ended. -/
theorem Round.peek {f : Nat → Option Token → Parse β} (hnone : W.Round loop P low pos fun n => f n none)
    (hsome : ∀ t, pos < W.stop → W.Round loop P low pos fun n => f n (some t)) :
    W.Round loop P low pos fun n => Parse.peek >>= f n := by
  refine .bind reads_peek fun t e met => ?_
  obtain ⟨rfl, ht⟩ := met
  cases t with
  | none => exact hnone
  | some t => exact hsome t (ht t rfl).1

theorem Round.ite {c : Prop} [Decidable c] {body body' : Nat → Parse β} (h : c → W.Round loop P low pos body)
    (h' : ¬c → W.Round loop P low pos body') : W.Round loop P low pos fun n => if c then body n else body' n := by
  by_cases hc : c
  · simpa only [if_pos hc] using h hc
  · simpa only [if_neg hc] using h' hc

/-! ### Enough rounds -/

/-- One round for each token of the window is enough, and one more where the end of the window takes a round of its
own. -/
theorem Takes.enough {k : Nat} (h : ∀ pos, P pos → W.Takes loop P pos)
    (hend : k = 0 → ∀ pos, P pos → W.stop ≤ pos → ∀ n, (loop (n + 1)).run (W.near pos) = (loop 0).run (W.near pos))
    (hpos : P pos) {n : Nat} (hn : W.stop - pos + k ≤ n) :
    (loop n).run (W.near pos) = (loop (W.stop - pos + k)).run (W.near pos) := by
  have same (size : Nat) : ∀ pos, P pos → W.stop - pos = size → ∀ n m, size + k ≤ n → size + k ≤ m →
      (loop n).run (W.near pos) = (loop m).run (W.near pos) := by
    induction size using Nat.strongRecOn with
    | ind size ih =>
        intro pos hpos hsize n m hn hm
        by_cases hnone : size + k = 0
        · have ended (m : Nat) : (loop m).run (W.near pos) = (loop 0).run (W.near pos) := by
            cases m with
            | zero => rfl
            | succ m => exact hend (by omega) pos hpos (by omega) m
          rw [ended n, ended m]
        · obtain ⟨n, rfl⟩ : ∃ l, n = l + 1 := ⟨n - 1, by omega⟩
          obtain ⟨m, rfl⟩ : ∃ l, m = l + 1 := ⟨m - 1, by omega⟩
          rcases h pos hpos with ⟨out, hout⟩ | ⟨e, next, hlow, hlt, hP, hnext⟩
          · rw [hout n, hout m]
          · rw [hnext n, hnext m, ih (W.stop - e) (by omega) e hP rfl n m (by omega) (by omega)]
  exact same _ pos hpos rfl n _ hn (Nat.le_refl _)

/-- The readers of what is nested in a construct do the same every time, and a statement takes at least one
token. -/
structure Orderly (W : Passage) (r : Readers) : Prop where
  agree : W.Agree 0 r r
  stmt {pos : Nat} (hlt : pos < W.stop) : W.Reads pos (fun _ e => pos < e) r.stmt r.stmt

theorem orderly_unbounded (hW : W.Unmoved) : W.Orderly unbounded where
  agree := agree_unbounded_self hW 0
  stmt hlt := reads_stmt_unbounded hW hlt

variable {r : Readers}

/-! ### Statements and blocks -/

theorem takes_statements (h : W.Orderly r) (pos : Nat) : W.Takes (statements r) (fun _ => True) pos := by
  simp only [Takes, statements]
  refine .bind reads_atEnd fun b e met => ?_
  obtain ⟨rfl, hend⟩ := met
  refine .ite (fun _ => .leave _) fun hb => ?_
  have hlt : e < W.stop := Nat.lt_of_not_le fun hle => hb (hend.mpr hle)
  exact .bind (h.stmt hlt) fun item e₁ h₁ => .again _ h₁ hlt trivial

theorem takes_scopeItems (h : W.Orderly r) (pos : Nat) : W.Takes (scopeItems r) (fun _ => True) pos := by
  simp only [Takes, scopeItems]
  refine .peek (.leave _) fun t hlt => ?_
  refine .bind reads_declarationKind? fun kind e₁ met => ?_
  obtain ⟨rfl, _⟩ := met
  cases kind with
  | none =>
      refine .bind (reads_undeclared_progress hlt t) fun item e₂ h₂ => .bind reads_skipSemicolons fun _ e₃ h₃ => ?_
      exact .again _ (by omega) hlt trivial
  | some kind =>
      refine .bind (reads_declaration (h.agree.mono (Nat.zero_le _)) hlt kind) fun item e₂ met => ?_
      refine .bind reads_skipSemicolons fun _ e₃ h₃ => .again _ (by omega) hlt trivial

theorem takes_blockItems (h : W.Orderly r) (pos : Nat) : W.Takes (blockItems r) (fun _ => True) pos := by
  simp only [Takes, blockItems]
  refine .peek (.leave _) fun t hlt => ?_
  refine .ite (fun _ => .leave _) fun _ => ?_
  exact .bind (h.stmt hlt) fun item e₁ h₁ => .again _ h₁ hlt trivial

/-! ### Control -/

theorem takes_chain (h : W.Orderly r) (pos : Nat) : W.Takes (chain r) (fun _ => True) pos := by
  have filled := W.filled
  simp only [Takes, chain]
  refine .bind reads_line fun here e h₁ => .bind (reads_check _) fun b e₁ met => ?_
  obtain ⟨h₂, _⟩ := met
  subst h₁ h₂
  refine .ite (fun _ => .leave _) fun _ => .echo echo_parenGroup? fun g g' e met => ?_
  obtain ⟨rfl, hg⟩ := met
  cases hg with
  | none => exact .leave _
  | @some close hwidth hclose =>
      refine .bind (reads_condition h.agree (Nat.zero_le _) (by omega) (by omega) (by omega)) fun c e₁ _ => ?_
      refine .bind (reads_setPos (by omega)) fun _ e₂ h₂ => .bind (reads_block h.agree (Nat.zero_le _)) fun body e₃ met => ?_
      obtain ⟨_, h₃⟩ := met
      refine .bind (reads_checkKeyword _) fun b e₄ met => ?_
      obtain ⟨h₄, _⟩ := met
      refine .ite (fun _ => .bind reads_advance fun _ e₅ h₅ => .again _ (by omega) (by omega) trivial) fun _ => ?_
      refine .bind (reads_checkKeyword _) fun b e₅ met => ?_
      obtain ⟨h₅, _⟩ := met
      refine .ite (fun _ => ?_) fun _ => .leave _
      refine .bind reads_advance fun _ e₆ h₆ => .bind (reads_eatKeyword _) fun b e₇ h₇ => ?_
      exact .ite (fun _ => .again _ (by omega) (by omega) trivial) fun _ => .leave _

theorem takes_sectionItems (h : W.Orderly r) (pos : Nat) : W.Takes (sectionItems r) (fun _ => True) pos := by
  simp only [Takes, sectionItems]
  refine .peek (.leave _) fun t hlt => ?_
  refine .ite (fun _ => .leave _) fun _ => .ite (fun _ => .leave _) fun _ => ?_
  refine .bind (reads_block_progress h.agree (Nat.zero_le _) hlt (h.stmt hlt)) fun item e₁ h₁ => ?_
  exact .again _ h₁ hlt trivial

theorem takes_sections (h : W.Orderly r) (brace out pos : Nat) :
    W.Takes (sections r brace out) (fun _ => True) pos := by
  simp only [Takes, sections]
  refine .peek (.leave _) fun t hlt => ?_
  -- What stands behind a label goes on with the loop, unless a brace has closed the switch.
  have behind {label : List Stmt × Bool → List Section × Option Report → List Section × Option Report}
      {e₁ : Nat} (h₁ : pos < e₁) :
      W.Round (sections r brace out) (fun _ => True) pos e₁ fun n => do
        let items ← sectionItems r ((← get).remaining + 1)
        let rest ← if items.2 then pure ([], none) else sections r brace out n
        return label items rest := by
    refine .echo (R := fun a _ e => e = e₁ ∧ a = W.near e₁) ⟨_, W.far e₁, e₁, ⟨rfl, rfl⟩, rfl, rfl⟩ fun s _ e₂ met => ?_
    obtain ⟨rfl, rfl⟩ := met
    refine .bind (reads_sectionItems h.agree _ (Nat.zero_le _)) fun items e₃ met => ?_
    exact .ite (fun _ => .leave _) fun _ => .again _ (by omega) hlt trivial
  refine .ite (fun _ => .leave _) fun _ => .ite (fun _ => ?_) fun _ => .ite (fun _ => ?_) fun _ => .leave _
  · refine .bind reads_advance fun _ e₁ h₁ => .bind reads_labelRest fun strays e₂ h₂ => ?_
    exact behind (by omega)
  · refine .bind reads_advance fun _ e₁ h₁ => .bind reads_line fun here e₂ h₂ => ?_
    refine .bind (reads_caseGuard? h.agree (Nat.zero_le _)) fun guard e₃ met => ?_
    obtain ⟨h₃, _⟩ := met
    cases guard with
    | none => exact .leave _
    | some guard =>
        refine .bind reads_labelRest fun strays e₄ h₄ => ?_
        exact behind (by omega)

theorem takes_catchClauses (h : W.Orderly r) (pos : Nat) : W.Takes (catchClauses r) (fun _ => True) pos := by
  simp only [Takes, catchClauses]
  refine .bind (reads_eatKeyword _) fun b e met => .ite (fun hb => ?_) fun _ => .leave _
  obtain ⟨hlt, h₁⟩ := met.2 hb
  refine .bind (reads_catchClause h.agree (Nat.zero_le _)) fun clause e₁ met => ?_
  exact .again _ (by omega) hlt trivial

/-! ### Functions and variables -/

theorem takes_arguments (h : W.Orderly r) (pos : Nat) : W.Takes (arguments r) (fun _ => True) pos := by
  simp only [Takes, arguments]
  refine .peek (.leave _) fun t hlt => ?_
  refine .bind (reads_argument h.agree t (Nat.zero_le _)) fun param e₁ met => ?_
  obtain ⟨h₁, _⟩ := met
  cases param with
  | error report => exact .leave _
  | ok param =>
      refine .peek (.leave _) fun next hlt' => .ite (fun _ => .bind reads_advance fun _ e₂ h₂ => ?_) fun _ => .leave _
      exact .again _ (by omega) hlt trivial

theorem takes_captureItems (W : Passage) (pos : Nat) : W.Takes captureItems (fun _ => True) pos := by
  simp only [Takes, captureItems]
  refine .peek (.leave _) fun t hlt => ?_
  refine .ite (fun _ => .leave _) fun _ => .bind (reads_eat _) fun byRef e₁ h₁ => ?_
  refine .bind reads_variableName? fun name e₂ met => ?_
  obtain ⟨rfl, hname⟩ := met
  cases name with
  | none => exact .leave _
  | some name =>
      have := hname rfl
      refine .bind reads_advance fun _ e₃ h₃ => .bind reads_advance fun _ e₄ h₄ => ?_
      exact .bind (reads_skipWhile _) fun _ e₅ h₅ => .again _ (by omega) hlt trivial

theorem takes_declarators (h : W.Orderly r) (line : Nat) (isStatic : Bool) (pos : Nat) :
    W.Takes (declarators r line isStatic) (fun _ => True) pos := by
  simp only [Takes, declarators]
  refine .bind reads_variableName? fun name e met => ?_
  obtain ⟨rfl, hname⟩ := met
  cases name with
  | none => exact .leave _
  | some name =>
      have hlt := hname rfl
      refine .ite (fun _ => .bind (reads_staticDeclarator h.agree name (Nat.zero_le _)) fun item e₁ met => ?_)
        fun _ => .bind (reads_localDeclarator h.agree name (Nat.zero_le _)) fun item e₁ met => ?_
      -- Behind either kind of declarator a comma goes on with the loop.
      all_goals
        obtain ⟨-, h₁⟩ := met
        refine .peek (.leave _) fun t hlt' => .ite (fun _ => .leave _) fun _ => .ite (fun _ => ?_) fun _ => .leave _
        exact .bind reads_advance fun _ e₂ h₂ => .again _ (by omega) (by omega) trivial

/-! ### Classes -/

theorem takes_nameList? (W : Passage) (pos : Nat) : W.Takes nameList? (fun _ => True) pos := by
  simp only [Takes, nameList?]
  refine .bind reads_peek fun t e met => ?_
  obtain ⟨rfl, ht⟩ := met
  cases hname : t.filter (·.is .name) with
  | none => exact .leave _
  | some name =>
      have hlt := (ht name (Option.eq_some_of_filter_eq_some hname)).1
      refine .bind reads_advance fun _ e₁ h₁ => .bind (reads_eat _) fun b e₂ h₂ => ?_
      exact .ite (fun _ => .again _ (by omega) hlt trivial) fun _ => .leave _

theorem takes_classConstants (h : W.Orderly r) (className : String) (visibility : Visibility) (pos : Nat) :
    W.Takes (classConstants r className visibility) (fun _ => True) pos := by
  simp only [Takes, classConstants]
  refine .bind reads_line fun here e h₁ => .bind reads_peek fun t e₁ met => ?_
  obtain ⟨h₂, ht⟩ := met
  subst h₁ h₂
  cases hname : t.filter (·.is .name) with
  | none => exact .leave _
  | some name =>
      have hlt := (ht name (Option.eq_some_of_filter_eq_some hname)).1
      refine .ite (fun _ => .leave _) fun _ => .bind reads_advance fun _ e₂ h₃ => .bind (reads_eat _) fun b e₃ h₄ => ?_
      refine .ite (fun _ => .leave _) fun _ => .bind reads_line fun valueLine e₄ h₅ => ?_
      refine .bind (h.agree.expr (.refl W) true (Nat.zero_le _)) fun value e₅ met => ?_
      obtain ⟨_, h₆, _⟩ := met
      refine .bind (reads_eat _) fun b e₆ h₇ => .ite (fun _ => .leave _) fun _ => ?_
      refine .bind (reads_check _) fun b e₇ met => ?_
      obtain ⟨h₈, _⟩ := met
      exact .ite (fun _ => .again _ (by omega) hlt trivial) fun _ => .leave _

/-- The attributes of a declaration are read on where a dollar sign stands. -/
theorem takes_classAttributes (h : W.Orderly r) (className : String) (type : TypeSpec) (visibility : Visibility)
    (flags : MemberFlags) (pos : Nat) :
    W.Takes (classAttributes r className type visibility flags) (fun e => (W.near e).check [.dollar] = true) pos := by
  simp only [Takes, classAttributes]
  refine .bind reads_line fun here e h₁ => .bind reads_advance fun _ e₁ h₂ => .bind reads_peek fun t e₂ met => ?_
  obtain ⟨h₃, ht⟩ := met
  subst h₁ h₃
  cases hname : t.filter (·.isAny [.name, .keyword]) with
  | none => exact .leave _
  | some name =>
      have hlt := (ht name (Option.eq_some_of_filter_eq_some hname)).1
      have behind {single last : Parse MembersRead} {next : MembersRead → MembersRead} {e' : Nat} (he : e < e') :
          W.Round (classAttributes r className type visibility flags) (fun e => (W.near e).check [.dollar] = true) e e'
            (fun n => do
              if !(← Parse.eat [.comma]) then single
              else if ← Parse.check [.dollar] then return next (← classAttributes r className type visibility flags n)
              else last) := by
        refine .bind (reads_eat _) fun b e₁ h₁ => .ite (fun _ => .leave _) fun _ => ?_
        refine .bind (reads_look (check_far W e₁ [.dollar])) fun b e₂ met => ?_
        obtain ⟨rfl, hb⟩ := met
        exact .ite (fun hdollar => .again _ (by omega) (by omega) (hb ▸ hdollar)) fun _ => .leave _
      refine .bind reads_advance fun _ e₃ h₄ => .bind reads_atEnd fun b e₄ met => ?_
      obtain ⟨h₅, _⟩ := met
      refine .bind (reads_check _) fun b' e₅ met => ?_
      obtain ⟨h₆, _⟩ := met
      refine .ite (fun _ => .leave _) fun _ => .bind (reads_eat _) fun b e₆ h₇ => .ite (fun _ => ?_) fun _ => ?_
      · refine .bind reads_line fun valueLine e₇ h₈ => ?_
        refine .bind (h.agree.expr (.refl W) true (Nat.zero_le _)) fun value e₈ met => ?_
        obtain ⟨_, h₉, _⟩ := met
        exact behind (by omega)
      · exact behind (by omega)

theorem takes_members (h : W.Orderly r) (head : ClassHead) (pos : Nat) :
    W.Takes (members r head) (fun _ => True) pos := by
  simp only [Takes, members]
  refine .bind reads_skipSemicolons fun _ e h₁ => .bind reads_atEnd fun b e₁ met => ?_
  obtain ⟨rfl, hend⟩ := met
  refine .ite (fun _ => .leave _) fun hb => ?_
  have hlt : e₁ < W.stop := Nat.lt_of_not_le fun hle => hb (hend.mpr hle)
  refine .ite
    (fun _ => .bind (reads_interfaceMember_progress h.agree head (Nat.zero_le _) hlt) fun items e₂ h₂ => ?_)
    fun _ => .bind (reads_classMember_progress h.agree head (Nat.zero_le _) hlt) fun items e₂ h₂ => ?_
  all_goals
    obtain ⟨items, fault⟩ := items
    cases fault with
    | some fault => exact .leave _
    | none =>
        have := h₂ rfl
        exact .again _ (by omega) (by omega) trivial

/-! ### The end of a window -/

theorem run_peek_atEnd {s : TokenStream} (h : s.stop ≤ s.pos) (f : Option Token → Parse β) :
    (Parse.peek >>= f).run s = (f none).run s := by
  have hpeek : Parse.peek.run s = (none, s) := congrArg (·, s) (peek_atEnd h)
  rw [StateT.run_bind, hpeek]
  rfl

theorem run_statements_atEnd (h : W.stop ≤ pos) (n : Nat) : (statements r n).run (W.near pos) = ([], W.near pos) := by
  cases n with
  | zero => rfl
  | succ n =>
      have hend : (W.near pos).atEnd = true := decide_eq_true h
      show (if (W.near pos).atEnd = true then pure [] else _ : Parse _).run (W.near pos) = _
      rw [if_pos hend]
      rfl

theorem run_catchClauses_atEnd (h : W.stop ≤ pos) (n : Nat) :
    (catchClauses r n).run (W.near pos) = ([], W.near pos) := by
  cases n with
  | zero => rfl
  | succ n =>
      have hword : (W.near pos).checkKeyword .catch_ = false := by
        rw [TokenStream.checkKeyword, peek_atEnd (show (W.near pos).stop ≤ (W.near pos).pos from h)]
        rfl
      have heat : (W.near pos).eatKeyword .catch_ = (false, W.near pos) := by simp [TokenStream.eatKeyword, hword]
      show ((eatKeyword .catch_ >>= _ : Parse _).run (W.near pos)) = _
      rw [StateT.run_bind, show (eatKeyword .catch_).run (W.near pos) = (false, W.near pos) from heat]
      rfl

end Passage

/-! ### All loops -/

/-- The loops over the tokens of a window, and the rounds they are granted where they start. -/
inductive Parse.Loop (r : Readers) (s : TokenStream) : {α : Type} → (Nat → Parse α) → Nat → Prop
  | statements : Loop r s (Parse.statements r) s.remaining
  | declarations : Loop r s (Parse.scopeItems r) s.remaining
  | block : Loop r s (Parse.blockItems r) (s.remaining + 1)
  | chain : Loop r s (Parse.chain r) (s.remaining + 1)
  | section_ : Loop r s (Parse.sectionItems r) (s.remaining + 1)
  | switch (brace out : Nat) : Loop r s (Parse.sections r brace out) (s.remaining + 1)
  | catches : Loop r s (Parse.catchClauses r) s.remaining
  | arguments : Loop r s (Parse.arguments r) s.remaining
  | captures : Loop r s Parse.captureItems s.remaining
  | declarators (line : Nat) (isStatic : Bool) : Loop r s (Parse.declarators r line isStatic) (s.remaining + 1)
  | names : Loop r s Parse.nameList? s.remaining
  | constants (className : String) (visibility : Visibility) :
      Loop r s (Parse.classConstants r className visibility) (s.remaining + 1)
  /-- Attributes are read where a dollar sign stands. -/
  | attributes (className : String) (type : TypeSpec) (visibility : Visibility) (flags : MemberFlags)
      (hdollar : s.check [.dollar] = true) :
      Loop r s (Parse.classAttributes r className type visibility flags) s.remaining
  | members (head : ClassHead) : Loop r s (Parse.members r head) (s.remaining + 1)

/-- A round of a loop leaves it, whatever the rest of the loop does, or takes at least one token of the window and
goes on with the rest from there. -/
def Parse.TakesOrLeaves {α : Type} (loop : Nat → Parse α) (s : TokenStream) : Prop :=
  (∃ out, ∀ n, (loop (n + 1)).run s = out) ∨
    ∃ pos, ∃ next : α × TokenStream → α × TokenStream,
      s.pos < pos ∧ s.pos < s.stop ∧ ∀ n, (loop (n + 1)).run s = next ((loop n).run { s with pos := pos })

theorem Passage.Takes.takesOrLeaves {α : Type} {W : Passage} {pos : Nat} {loop : Nat → Parse α} {P : Nat → Prop}
    (h : W.Takes loop P pos) : TakesOrLeaves loop (W.near pos) := by
  rcases h with hout | ⟨e, next, hlow, hlt, -, hnext⟩
  · exact .inl hout
  · exact .inr ⟨e, next, hlow, hlt, hnext⟩

namespace Parse.Loop

variable {α : Type} {r : Readers} {s : TokenStream} {loop : Nat → Parse α} {rounds : Nat}

/-- Every round of every loop takes a token or is the last one. -/
theorem takesOrLeaves (hs : s.Bounded) (h : Loop r s loop rounds) (hr : (s.passage hs).Orderly r) :
    TakesOrLeaves loop s := by
  cases h with
  | statements => exact (Passage.takes_statements hr s.pos).takesOrLeaves
  | declarations => exact (Passage.takes_scopeItems hr s.pos).takesOrLeaves
  | block => exact (Passage.takes_blockItems hr s.pos).takesOrLeaves
  | chain => exact (Passage.takes_chain hr s.pos).takesOrLeaves
  | section_ => exact (Passage.takes_sectionItems hr s.pos).takesOrLeaves
  | switch brace out => exact (Passage.takes_sections hr brace out s.pos).takesOrLeaves
  | catches => exact (Passage.takes_catchClauses hr s.pos).takesOrLeaves
  | arguments => exact (Passage.takes_arguments hr s.pos).takesOrLeaves
  | captures => exact (Passage.takes_captureItems (s.passage hs) s.pos).takesOrLeaves
  | declarators line isStatic => exact (Passage.takes_declarators hr line isStatic s.pos).takesOrLeaves
  | names => exact (Passage.takes_nameList? (s.passage hs) s.pos).takesOrLeaves
  | constants className visibility => exact (Passage.takes_classConstants hr className visibility s.pos).takesOrLeaves
  | attributes className type visibility flags =>
      exact (Passage.takes_classAttributes hr className type visibility flags s.pos).takesOrLeaves
  | members head => exact (Passage.takes_members hr head s.pos).takesOrLeaves

/-- The rounds a loop is granted are enough: with more of them it does the same. -/
theorem enough (hs : s.Bounded) (h : Loop r s loop rounds) (hr : (s.passage hs).Orderly r) {n : Nat} (hn : rounds ≤ n) :
    (loop n).run s = (loop rounds).run s := by
  -- Where a loop is granted a round for the end of the window, nothing is asked of the loop without rounds.
  have spare {P : Nat → Prop} (hall : ∀ pos, P pos → (s.passage hs).Takes loop P pos) (hP : P s.pos)
      (hrounds : rounds = s.remaining + 1) : (loop n).run s = (loop rounds).run s := by
    subst hrounds
    exact Passage.Takes.enough (k := 1) hall nofun hP hn
  have tight {P : Nat → Prop} (hall : ∀ pos, P pos → (s.passage hs).Takes loop P pos) (hP : P s.pos)
      (hend : ∀ pos, P pos → s.stop ≤ pos → ∀ n, (loop (n + 1)).run ((s.passage hs).near pos) =
        (loop 0).run ((s.passage hs).near pos))
      (hrounds : rounds = s.remaining) : (loop n).run s = (loop rounds).run s := by
    subst hrounds
    exact Passage.Takes.enough (k := 0) hall (fun _ => hend) hP hn
  cases h with
  | statements =>
      refine tight (fun pos _ => Passage.takes_statements hr pos) trivial (fun pos _ hend n => ?_) rfl
      rw [Passage.run_statements_atEnd hend, Passage.run_statements_atEnd hend]
  | declarations =>
      exact tight (fun pos _ => Passage.takes_scopeItems hr pos) trivial
        (fun pos _ hend n => Passage.run_peek_atEnd hend _) rfl
  | block => exact spare (fun pos _ => Passage.takes_blockItems hr pos) trivial rfl
  | chain => exact spare (fun pos _ => Passage.takes_chain hr pos) trivial rfl
  | section_ => exact spare (fun pos _ => Passage.takes_sectionItems hr pos) trivial rfl
  | switch brace out => exact spare (fun pos _ => Passage.takes_sections hr brace out pos) trivial rfl
  | catches =>
      refine tight (fun pos _ => Passage.takes_catchClauses hr pos) trivial (fun pos _ hend n => ?_) rfl
      rw [Passage.run_catchClauses_atEnd hend, Passage.run_catchClauses_atEnd hend]
  | arguments =>
      exact tight (fun pos _ => Passage.takes_arguments hr pos) trivial
        (fun pos _ hend n => Passage.run_peek_atEnd hend _) rfl
  | captures =>
      exact tight (fun pos _ => Passage.takes_captureItems _ pos) trivial
        (fun pos _ hend n => Passage.run_peek_atEnd hend _) rfl
  | declarators line isStatic => exact spare (fun pos _ => Passage.takes_declarators hr line isStatic pos) trivial rfl
  | names =>
      exact tight (fun pos _ => Passage.takes_nameList? _ pos) trivial
        (fun pos _ hend n => Passage.run_peek_atEnd hend _) rfl
  | constants className visibility =>
      exact spare (fun pos _ => Passage.takes_classConstants hr className visibility pos) trivial rfl
  | attributes className type visibility flags hdollar =>
      refine tight (fun pos _ => Passage.takes_classAttributes hr className type visibility flags pos) hdollar
        (fun pos hdollar hend => ?_) rfl
      exact absurd (Passage.lt_of_check hdollar) (Nat.not_lt_of_le hend)
  | members head => exact spare (fun pos _ => Passage.takes_members hr head pos) trivial rfl

end Parse.Loop

end StackScript
