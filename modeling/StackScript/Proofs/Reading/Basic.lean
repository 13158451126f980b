/-
Pieces of a script, read twice.

Every basic reader does the same among other tokens: what it looks at is told from the token at the cursor, and
the positions it finds are as much further on as the cursor is.  `Agree` says the same of the readers of what is
nested inside a construct, for everything between a first position and the end of the window.
-/
import StackScript.Parser.Leaf
import StackScript.Proofs.Checks
import StackScript.Proofs.Reading.Passage

namespace StackScript

namespace Passage

variable {W : Passage} {pos : Nat}

/-! ### What a stream shows -/

theorem get?_far (W : Passage) (pos pos' : Nat) {i : Nat} (hi : i < W.stop) :
    (W.far pos).get? (i + W.shift) = (W.near pos').get? i := W.moved i hi

@[simp] theorem peekNth_far (W : Passage) (pos n : Nat) : (W.far pos).peekNth n = (W.near pos).peekNth n := by
  show (if pos + W.shift + n < W.stop + W.shift then W.there[pos + W.shift + n]? else none) =
    if pos + n < W.stop then W.tokens[pos + n]? else none
  have index : pos + W.shift + n = pos + n + W.shift := by omega
  by_cases h : pos + n < W.stop
  · rw [if_pos h, if_pos (by omega), index, W.moved _ h]
  · rw [if_neg h, if_neg (by omega)]

@[simp] theorem peek_far (W : Passage) (pos : Nat) : (W.far pos).peek = (W.near pos).peek := peekNth_far W pos 0

@[simp] theorem check_far (W : Passage) (pos : Nat) (cs : List TokenClass) :
    (W.far pos).check cs = (W.near pos).check cs := by simp [TokenStream.check]

@[simp] theorem checkKeyword_far (W : Passage) (pos : Nat) (word : Keyword) :
    (W.far pos).checkKeyword word = (W.near pos).checkKeyword word := by simp [TokenStream.checkKeyword]

@[simp] theorem atEnd_far (W : Passage) (pos : Nat) : (W.far pos).atEnd = (W.near pos).atEnd := by
  show decide (W.stop + W.shift ≤ pos + W.shift) = decide (W.stop ≤ pos)
  simp

@[simp] theorem remaining_far (W : Passage) (pos : Nat) : (W.far pos).remaining = (W.near pos).remaining := by
  simp only [TokenStream.remaining, far_pos, far_stop, near_pos, near_stop]
  omega

theorem lt_of_peekNth {n : Nat} {t : Token} (h : (W.near pos).peekNth n = some t) :
    pos + n < W.stop ∧ W.tokens[pos + n]? = some t := by
  unfold TokenStream.peekNth at h
  split at h
  · exact ⟨by assumption, h⟩
  · cases h

theorem lt_of_peek {t : Token} (h : (W.near pos).peek = some t) : pos < W.stop ∧ W.tokens[pos]? = some t :=
  lt_of_peekNth h

/-- Inside the window there is a token. -/
theorem peek_of_lt (hlt : pos < W.stop) : ∃ t, (W.near pos).peek = some t := by
  have inside : pos < W.tokens.size := Nat.lt_of_lt_of_le hlt W.filled
  refine ⟨W.tokens[pos], ?_⟩
  unfold TokenStream.peek TokenStream.peekNth
  rw [if_pos (show (W.near pos).pos + 0 < (W.near pos).stop from hlt)]
  exact Array.getElem?_eq_getElem inside

theorem lt_of_check {cs : List TokenClass} (h : (W.near pos).check cs = true) : pos < W.stop := by
  unfold TokenStream.check at h
  cases hp : (W.near pos).peek with
  | none => simp [hp] at h
  | some t => exact (lt_of_peek hp).1

theorem lt_of_checkKeyword {word : Keyword} (h : (W.near pos).checkKeyword word = true) : pos < W.stop := by
  unfold TokenStream.checkKeyword at h
  cases hp : (W.near pos).peek with
  | none => simp [hp] at h
  | some t => exact (lt_of_peek hp).1

@[simp] theorem line_far (W : Passage) (pos : Nat) : (W.far pos).line = (W.near pos).line := by
  rcases W.anchored with ⟨hshift, hthere⟩ | hstop
  · rw [far, near, hshift, hthere]
    rfl
  · have filled := W.filled
    show (((W.far pos).peek.or (if pos + W.shift = 0 then none else W.there[pos + W.shift - 1]?)).or
        W.there.back?).elim 1 Token.line =
      (((W.near pos).peek.or (if pos = 0 then none else W.tokens[pos - 1]?)).or W.tokens.back?).elim 1 Token.line
    rw [peek_far]
    by_cases hzero : pos = 0
    · subst hzero
      have filled' : 0 < W.tokens.size := by omega
      have first : (W.near 0).peek = some W.tokens[0] := by
        unfold TokenStream.peek TokenStream.peekNth
        rw [if_pos (show (W.near 0).pos + 0 < (W.near 0).stop from hstop)]
        exact Array.getElem?_eq_getElem _
      simp [first]
    · have index : pos + W.shift - 1 = pos - 1 + W.shift := by omega
      rw [if_neg hzero, if_neg (by omega), index]
      cases (W.near pos).peek with
      | some t => rfl
      | none =>
          have lines := congrArg (Option.elim · 1 id) (W.lines pos (Nat.pos_of_ne_zero hzero))
          simpa only [Option.elim_map, Option.none_or, Function.id_comp] using lines

theorem runLength_far (W : Passage) (pos : Nat) (p : Token → Bool) (n i : Nat) :
    (W.far pos).runLength p n i = (W.near pos).runLength p n i := by
  induction n generalizing i with
  | zero => rfl
  | succ n ih => rw [TokenStream.runLength, TokenStream.runLength, peekNth_far, ih]

theorem delimit_far (W : Passage) (pos pos' start : Nat) (opening closing : List TokenClass) :
    (W.far pos).delimit (start + W.shift) opening closing = (W.near pos').delimit start opening closing + W.shift := by
  unfold TokenStream.delimit
  rw [far_tokens, far_stop, Scan.matching?_moved _ _ _ W.moved]
  cases h : Scan.matching? W.tokens opening closing start W.stop <;> simp [h]

theorem delimit_bounds (pos : Nat) {start : Nat} (opening closing : List TokenClass) (h : start ≤ W.stop) :
    start ≤ (W.near pos).delimit start opening closing ∧ (W.near pos).delimit start opening closing ≤ W.stop := by
  unfold TokenStream.delimit
  cases hm : Scan.matching? W.tokens opening closing start W.stop with
  | none => simpa [hm] using h
  | some i =>
      have := Scan.matching?_bounds hm
      simp [hm]
      omega

theorem exprEnd_far (W : Passage) (pos pos' start : Nat) (atComma : Bool) :
    (W.far pos).exprEnd (start + W.shift) atComma = (W.near pos').exprEnd start atComma + W.shift := by
  have semicolon : (Scan.semicolon? W.there (start + W.shift) (W.stop + W.shift)).getD
      (max (start + W.shift) (W.stop + W.shift)) =
      (Scan.semicolon? W.tokens start W.stop).getD (max start W.stop) + W.shift := by
    rw [Scan.semicolon?_moved _ W.moved]
    cases Scan.semicolon? W.tokens start W.stop with
    | none => simp only [Option.map_none, Option.getD_none]; omega
    | some i => rfl
  have bounds : (Scan.semicolon? W.tokens start W.stop).getD (max start W.stop) ≤ max start W.stop := by
    cases h : Scan.semicolon? W.tokens start W.stop with
    | none => exact Nat.le_refl _
    | some i =>
        have := Scan.semicolon?_bounds h
        rw [Option.getD_some]
        omega
  unfold TokenStream.exprEnd
  simp only [far_tokens, far_stop, near_tokens, near_stop, semicolon]
  generalize (Scan.semicolon? W.tokens start W.stop).getD (max start W.stop) = stop at bounds ⊢
  split
  · rw [show Scan.comma? W.there (start + W.shift) (stop + W.shift) = (Scan.comma? W.tokens start stop).map (· + W.shift) from
      Scan.findAtDepth_range_moved' _ _ _ _ fun hlt => W.moved.mono (by omega)]
    cases Scan.comma? W.tokens start stop <;> rfl
  · rfl

theorem exprEnd_bounds (W : Passage) (pos start : Nat) (atComma : Bool) :
    start ≤ (W.near pos).exprEnd start atComma ∧
      (start ≤ W.stop → (W.near pos).exprEnd start atComma ≤ W.stop) ∧
      (W.stop ≤ start → (W.near pos).exprEnd start atComma = start) := by
  have semicolon : start ≤ (Scan.semicolon? W.tokens start W.stop).getD (max start W.stop) ∧
      (start ≤ W.stop → (Scan.semicolon? W.tokens start W.stop).getD (max start W.stop) ≤ W.stop) ∧
      (W.stop ≤ start → (Scan.semicolon? W.tokens start W.stop).getD (max start W.stop) = start) := by
    cases h : Scan.semicolon? W.tokens start W.stop with
    | none => simp only [Option.getD_none]; omega
    | some i =>
        have := Scan.semicolon?_bounds h
        simp only [Option.getD_some]
        omega
  unfold TokenStream.exprEnd
  simp only [near_tokens, near_stop]
  generalize (Scan.semicolon? W.tokens start W.stop).getD (max start W.stop) = stop at semicolon ⊢
  split
  · cases h : Scan.comma? W.tokens start stop with
    | none => exact semicolon
    | some i =>
        have := Scan.comma?_bounds h
        simp only [Option.getD_some]
        omega
  · exact semicolon

/-! ### Looking -/

theorem reads_peek : W.Reads pos (fun t e => e = pos ∧ ∀ u, t = some u → pos < W.stop ∧ W.tokens[pos]? = some u)
    Parse.peek Parse.peek :=
  (reads_look (peek_far W pos)).mono fun _ _ ⟨he, ht⟩ => ⟨he, fun _ hu => lt_of_peek (ht ▸ hu)⟩

theorem reads_peekNth (n : Nat) : W.Reads pos (fun t e => e = pos ∧ (t.isSome = true → pos + n < W.stop))
    (Parse.peekNth n) (Parse.peekNth n) :=
  (reads_look (peekNth_far W pos n)).mono fun _ _ ⟨he, ht⟩ => ⟨he, fun hu => by
    obtain ⟨u, hu⟩ := Option.isSome_iff_exists.mp hu
    exact (lt_of_peekNth (ht ▸ hu)).1⟩

theorem reads_line : W.Reads pos (fun _ e => e = pos) Parse.line Parse.line :=
  (reads_look (line_far W pos)).mono fun _ _ ⟨he, _⟩ => he

theorem reads_atEnd : W.Reads pos (fun b e => e = pos ∧ (b = true ↔ W.stop ≤ pos)) Parse.atEnd Parse.atEnd :=
  (reads_look (atEnd_far W pos)).mono fun _ _ ⟨he, hb⟩ => ⟨he, hb ▸ decide_eq_true_iff⟩

theorem reads_check (cs : List TokenClass) :
    W.Reads pos (fun b e => e = pos ∧ (b = true → pos < W.stop)) (Parse.check cs) (Parse.check cs) :=
  (reads_look (check_far W pos cs)).mono fun _ _ ⟨he, hb⟩ => ⟨he, fun h => lt_of_check (hb ▸ h)⟩

theorem reads_checkKeyword (word : Keyword) :
    W.Reads pos (fun b e => e = pos ∧ (b = true → pos < W.stop)) (Parse.checkKeyword word) (Parse.checkKeyword word) :=
  (reads_look (checkKeyword_far W pos word)).mono fun _ _ ⟨he, hb⟩ => ⟨he, fun h => lt_of_checkKeyword (hb ▸ h)⟩

theorem echo_pos : W.Echo pos (fun a a' e => e = pos ∧ a = pos ∧ a' = pos + W.shift) Parse.pos Parse.pos :=
  ⟨_, _, pos, ⟨rfl, rfl, rfl⟩, rfl, rfl⟩

/-! ### Moving -/

theorem step_far (W : Passage) (pos : Nat) : { W.far pos with pos := (W.far pos).pos + 1 } = W.far (pos + 1) := by
  simp [far]
  omega

theorem reads_advance :
    W.Reads pos (fun _ e => pos ≤ e ∧ (pos < W.stop → e = pos + 1)) Parse.advance Parse.advance := by
  by_cases h : pos < W.stop
  · refine reads_modify (e := pos + 1) ?_ ?_ ⟨Nat.le_succ _, fun _ => rfl⟩
    · simp [TokenStream.advance, near, h]
    · simp [TokenStream.advance, far, h]
      omega
  · refine reads_modify (e := pos) ?_ ?_ ⟨Nat.le_refl _, fun h' => absurd h' h⟩
    · simp [TokenStream.advance, near, h]
    · simp [TokenStream.advance, far, h]

theorem reads_setPos {p : Nat} (hp : p ≤ W.tokens.size) :
    W.Reads pos (fun _ e => e = p) (Parse.setPos p) (Parse.setPos (p + W.shift)) := by
  refine ⟨(), (), p, ⟨rfl, rfl⟩, ?_, ?_⟩
  · show ((), (W.near pos).setPos p) = _
    simp [TokenStream.setPos, near, Nat.min_eq_left hp]
  · have size := W.size_le
    show ((), (W.far pos).setPos (p + W.shift)) = _
    simp only [TokenStream.setPos, far]
    rw [Nat.min_eq_left (by omega)]

theorem reads_bump :
    W.Reads pos (fun t e => pos ≤ e ∧ (t.isSome = true → pos < W.stop ∧ e = pos + 1)) Parse.bump Parse.bump := by
  cases h : (W.near pos).peek with
  | none =>
      refine ⟨none, none, pos, ⟨rfl, Nat.le_refl _, nofun⟩, ?_, ?_⟩
      · show (W.near pos).bump = _
        simp [TokenStream.bump, h]
      · show (W.far pos).bump = _
        simp [TokenStream.bump, h]
  | some t =>
      refine ⟨some t, some t, pos + 1, ⟨rfl, Nat.le_succ _, fun _ => ⟨(lt_of_peek h).1, rfl⟩⟩, ?_, ?_⟩
      · show (W.near pos).bump = _
        simp [TokenStream.bump, h]
        rfl
      · show (W.far pos).bump = _
        rw [TokenStream.bump, peek_far, h, ← step_far]

theorem reads_eat (cs : List TokenClass) :
    W.Reads pos (fun b e => pos ≤ e ∧ (b = true → pos < W.stop ∧ e = pos + 1) ∧ (b = false → e = pos))
      (Parse.eat cs) (Parse.eat cs) := by
  cases h : (W.near pos).check cs with
  | false =>
      refine ⟨false, false, pos, ⟨rfl, Nat.le_refl _, nofun, fun _ => rfl⟩, ?_, ?_⟩
      · show (W.near pos).eat cs = _
        simp [TokenStream.eat, h]
      · show (W.far pos).eat cs = _
        simp [TokenStream.eat, h]
  | true =>
      refine ⟨true, true, pos + 1, ⟨rfl, Nat.le_succ _, fun _ => ⟨lt_of_check h, rfl⟩, nofun⟩, ?_, ?_⟩
      · show (W.near pos).eat cs = _
        rw [TokenStream.eat, if_pos h]
        rfl
      · show (W.far pos).eat cs = _
        rw [TokenStream.eat, check_far, if_pos h, ← step_far]

theorem reads_eat_met {cs : List TokenClass} (h : (W.near pos).check cs = true) :
    W.Reads pos (fun _ e => e = pos + 1) (Parse.eat cs) (Parse.eat cs) := by
  refine ⟨true, true, pos + 1, ⟨rfl, rfl⟩, ?_, ?_⟩
  · show (W.near pos).eat cs = _
    rw [TokenStream.eat, if_pos h]
    rfl
  · show (W.far pos).eat cs = _
    rw [TokenStream.eat, check_far, if_pos h, ← step_far]

theorem reads_eatKeyword (word : Keyword) :
    W.Reads pos (fun b e => pos ≤ e ∧ (b = true → pos < W.stop ∧ e = pos + 1)) (Parse.eatKeyword word)
      (Parse.eatKeyword word) := by
  cases h : (W.near pos).checkKeyword word with
  | false =>
      refine ⟨false, false, pos, ⟨rfl, Nat.le_refl _, nofun⟩, ?_, ?_⟩
      · show (W.near pos).eatKeyword word = _
        simp [TokenStream.eatKeyword, h]
      · show (W.far pos).eatKeyword word = _
        simp [TokenStream.eatKeyword, h]
  | true =>
      refine ⟨true, true, pos + 1, ⟨rfl, Nat.le_succ _, fun _ => ⟨lt_of_checkKeyword h, rfl⟩⟩, ?_, ?_⟩
      · show (W.near pos).eatKeyword word = _
        rw [TokenStream.eatKeyword, if_pos h]
        rfl
      · show (W.far pos).eatKeyword word = _
        rw [TokenStream.eatKeyword, checkKeyword_far, if_pos h, ← step_far]

theorem runLength_le (s : TokenStream) (p : Token → Bool) (n i : Nat) : s.runLength p n i ≤ n := by
  induction n generalizing i with
  | zero => exact Nat.le_refl 0
  | succ n ih =>
      rw [TokenStream.runLength]
      split
      · split
        · exact Nat.succ_le_succ (ih (i + 1))
        · exact Nat.zero_le _
      · exact Nat.zero_le _

/-- Skipping stays in the window. -/
theorem reads_skipWhile_within (p : Token → Bool) :
    W.Reads pos (fun _ e => pos ≤ e ∧ e ≤ max pos W.stop) (modify (·.skipWhile p)) (modify (·.skipWhile p)) := by
  have short : (W.near pos).runLength p (W.near pos).remaining 0 ≤ W.stop - pos := runLength_le _ _ _ _
  refine reads_modify (e := pos + (W.near pos).runLength p (W.near pos).remaining 0) rfl ?_
    ⟨Nat.le_add_right _ _, by omega⟩
  simp only [TokenStream.skipWhile, remaining_far, runLength_far]
  simp only [far]
  congr 1
  omega

theorem reads_skipWhile (p : Token → Bool) :
    W.Reads pos (fun _ e => pos ≤ e) (modify (·.skipWhile p)) (modify (·.skipWhile p)) :=
  (reads_skipWhile_within p).mono fun _ _ met => met.1

theorem reads_skipUntil (cs : List TokenClass) :
    W.Reads pos (fun _ e => pos ≤ e) (Parse.skipUntil cs) (Parse.skipUntil cs) := reads_skipWhile _

theorem reads_skipToEnd : W.Reads pos (fun _ e => pos ≤ e) Parse.skipToEnd Parse.skipToEnd := by
  refine reads_modify (e := max W.stop pos) rfl ?_ (Nat.le_max_right _ _)
  simp only [TokenStream.skipToEnd, far]
  congr 1
  omega

theorem reads_skipSemicolons : W.Reads pos (fun _ e => pos ≤ e) Parse.skipSemicolons Parse.skipSemicolons :=
  reads_skipWhile _

theorem reads_recover : W.Reads pos (fun _ e => pos ≤ e) Parse.recover Parse.recover := reads_skipUntil _

theorem reads_synchronize : W.Reads pos (fun _ e => pos ≤ e) Parse.synchronize Parse.synchronize := reads_skipUntil _

/-- Skipping that moves nothing has met one of the classes it looks for. -/
theorem reads_skipUntil_met (cs : List TokenClass) :
    W.Reads pos (fun _ e => pos ≤ e ∧ (e = pos → pos < W.stop → (W.near pos).check cs = true))
      (Parse.skipUntil cs) (Parse.skipUntil cs) := by
  have skipped : W.Reads pos (fun _ e => pos ≤ e) (Parse.skipUntil cs) (Parse.skipUntil cs) := reads_skipUntil cs
  obtain ⟨_, _, e, ⟨-, hle⟩, hnear, hfar⟩ := skipped
  refine ⟨(), (), e, ⟨rfl, hle, fun hsame hlt => ?_⟩, hnear, hfar⟩
  obtain ⟨t, ht⟩ := peek_of_lt hlt
  have moved : pos + (W.near pos).runLength (fun t => !t.isAny cs) (W.near pos).remaining 0 = e :=
    congrArg TokenStream.pos (congrArg Prod.snd hnear)
  obtain ⟨n, hn⟩ : ∃ n, (W.near pos).remaining = n + 1 := ⟨W.stop - pos - 1, by
    show W.stop - pos = _
    omega⟩
  rw [hn, TokenStream.runLength, show (W.near pos).peekNth 0 = some t from ht] at moved
  rw [TokenStream.check, ht]
  by_cases hany : t.isAny cs = true
  · exact hany
  · simp [hany] at moved
    omega

/-- Skipping a declaration that moves nothing has met a semicolon. -/
theorem reads_skipDeclaration_met :
    W.Reads pos (fun _ e => pos ≤ e ∧ (e = pos → pos < W.stop → (W.near pos).check [.semicolon] = true))
      Parse.skipDeclaration Parse.skipDeclaration := by
  unfold Parse.skipDeclaration
  refine (reads_skipUntil_met _).bind fun _ e met => ?_
  obtain ⟨hle, hmet⟩ := met
  refine (reads_look (check_far W e [.openBrace])).bind fun opened e₁ met => ?_
  obtain ⟨h₁, hopened⟩ := met
  subst h₁
  split
  · rename_i h
    rw [hopened] at h
    have hlt := lt_of_check h
    have filled := W.filled
    obtain ⟨hge, hle'⟩ := delimit_bounds e₁ [.openBrace] [.closeBrace] (show e₁ + 1 ≤ W.stop from hlt)
    refine .get ?_
    have close : (W.far e₁).delimit ((W.far e₁).pos + 1) [.openBrace] [.closeBrace] =
        (W.near e₁).delimit (e₁ + 1) [.openBrace] [.closeBrace] + W.shift := by
      rw [← delimit_far W e₁, far_pos, Nat.add_right_comm]
    rw [close, near_pos]
    generalize (W.near e₁).delimit (e₁ + 1) [.openBrace] [.closeBrace] = close at hge hle' ⊢
    refine ⟨(), (), min (close + 1) W.tokens.size, ⟨rfl, by omega, fun _ _ => by omega⟩, rfl, ?_⟩
    have room := W.room
    show ((), (W.far e₁).setPos (close + W.shift + 1)) = _
    simp only [TokenStream.setPos, far]
    congr 2
    omega
  · rename_i h
    rw [hopened] at h
    refine .pure ⟨rfl, hle, fun hsame hlt => ?_⟩
    subst hsame
    have := hmet rfl hlt
    obtain ⟨t, ht⟩ := peek_of_lt hlt
    simp only [TokenStream.check, ht, Option.any_some, Token.isAny, List.any_cons, List.any_nil, Bool.or_false] at this h ⊢
    simpa [h] using this

theorem reads_skipDeclaration : W.Reads pos (fun _ e => pos ≤ e) Parse.skipDeclaration Parse.skipDeclaration :=
  reads_skipDeclaration_met.mono fun _ _ met => met.1

/-! ### Groups -/

/-- The group at the cursor, in both buffers. -/
inductive Grouped (W : Passage) (pos width : Nat) : Option (Nat × Nat) → Option (Nat × Nat) → Prop
  | none : Grouped W pos width none none
  | some {close : Nat} (hwidth : pos + width < close) (hclose : close < W.stop) :
      Grouped W pos width (some (pos, close)) (some (pos + W.shift, close + W.shift))

theorem echo_group? (opening closing : TokenClass) :
    W.Echo pos (fun g g' e => e = pos ∧ W.Grouped pos 0 g g') (Parse.group? opening closing)
      (Parse.group? opening closing) := by
  unfold Parse.group?
  refine .get (.pure ⟨rfl, ?_⟩)
  have close : (W.far pos).delimit ((W.far pos).pos + 1) [opening] [closing] =
      (W.near pos).delimit (pos + 1) [opening] [closing] + W.shift := by
    rw [← delimit_far W pos, far_pos, Nat.add_right_comm]
  rw [close, near_pos]
  by_cases h : (W.near pos).delimit (pos + 1) [opening] [closing] < (W.near pos).stop
  · have hpos : pos + 1 ≤ W.stop := by
      refine Nat.le_of_not_lt fun hbehind => ?_
      unfold TokenStream.delimit Scan.matching? at h
      rw [near_tokens, near_stop, Nat.sub_eq_zero_of_le (by omega)] at h
      exact absurd h (Nat.lt_irrefl _)
    have := (delimit_bounds pos [opening] [closing] hpos).1
    have h' : (W.near pos).delimit (pos + 1) [opening] [closing] + W.shift < (W.far pos).stop := by simpa using h
    rw [if_pos h, if_pos h']
    exact .some (by omega) h
  · have h' : ¬(W.near pos).delimit (pos + 1) [opening] [closing] + W.shift < (W.far pos).stop := by simpa using h
    rw [if_neg h, if_neg h']
    exact .none

theorem echo_parenGroup? :
    W.Echo pos (fun g g' e => e = pos ∧ W.Grouped pos 0 g g') Parse.parenGroup? Parse.parenGroup? := echo_group? _ _

theorem echo_braceGroup? :
    W.Echo pos (fun g g' e => e = pos ∧ W.Grouped pos 0 g g') Parse.braceGroup? Parse.braceGroup? := echo_group? _ _

theorem echo_filledParenGroup? :
    W.Echo pos (fun g g' e => e = pos ∧ W.Grouped pos 1 g g') Parse.filledParenGroup? Parse.filledParenGroup? := by
  unfold Parse.filledParenGroup?
  refine echo_parenGroup?.bind fun g g' e met => ?_
  obtain ⟨he, hg⟩ := met
  refine .pure ⟨he, ?_⟩
  cases hg with
  | none => exact .none
  | @some close hwidth hclose =>
      have far : (pos + W.shift + 1 < close + W.shift) = (pos + 1 < close) := by
        rw [Nat.add_right_comm, Nat.add_lt_add_iff_right]
      simp only [Option.filter, far]
      by_cases h : pos + 1 < close
      · simpa only [decide_eq_true h] using .some h hclose
      · simpa only [decide_eq_false h] using .none

/-- A position that is found in `[start, stop)`, in both buffers. -/
inductive Found (W : Passage) (start stop : Nat) : Option Nat → Option Nat → Prop
  | none : Found W start stop none none
  | some {i : Nat} (hstart : start ≤ i) (hstop : i < stop) : Found W start stop (some i) (some (i + W.shift))

theorem found_findAtDepth (change : Token → Int) (p : Token → Int → Bool) (start : Nat) {stop : Nat} (hle : stop ≤ W.stop)
    (depth : Int) :
    W.Found start stop (Scan.findAtDepth W.tokens change p (stop - start) start depth)
      (Scan.findAtDepth W.there change p (stop + W.shift - (start + W.shift)) (start + W.shift) depth) := by
  rw [Scan.findAtDepth_range_moved _ _ _ _ (W.moved.mono hle)]
  cases h : Scan.findAtDepth W.tokens change p (stop - start) start depth with
  | none => exact .none
  | some i =>
      have := Scan.findAtDepth_range_bounds h
      exact .some this.1 this.2

theorem echo_findIndex (start : Nat) {stop : Nat} (hle : stop ≤ W.stop) (p : Token → Bool) :
    W.Echo pos (fun i i' e => e = pos ∧ W.Found start stop i i') (Parse.findIndex start stop p)
      (Parse.findIndex (start + W.shift) (stop + W.shift) p) :=
  .get (.pure ⟨rfl, found_findAtDepth _ _ _ hle _⟩)

theorem extract_far (W : Passage) {i j : Nat} (hj : j ≤ max i W.stop) :
    W.there.extract (i + W.shift) (j + W.shift) = W.tokens.extract i j := by
  have filled := W.filled
  have size := W.size_le
  refine Array.ext_getElem? fun k => ?_
  rw [Array.getElem?_extract, Array.getElem?_extract, Nat.add_right_comm]
  by_cases hk : k < min j W.tokens.size - i
  · rw [if_pos hk, if_pos (by omega), W.moved _ (by omega)]
  · rw [if_neg hk, if_neg (by omega)]

theorem reads_rest :
    W.Reads pos (fun ts e => e = pos ∧ (pos < W.stop → ts.isEmpty = false)) Parse.rest Parse.rest := by
  have filled := W.filled
  unfold Parse.rest
  refine .get (.pure ⟨?_, rfl, fun h => ?_⟩)
  · simp only [far_tokens, far_pos, far_stop, near_tokens, near_pos, near_stop, W.extract_far (Nat.le_max_right ..)]
  · simp only [near_tokens, near_pos, near_stop, List.isEmpty_eq_false_iff, ne_eq, Array.toList_eq_nil_iff]
    intro hempty
    have := congrArg Array.size hempty
    simp only [Array.size_extract, List.size_toArray, List.length_nil] at this
    omega

/-! ### Names and types -/

theorem reads_variableName? :
    W.Reads pos (fun n e => e = pos ∧ (n.isSome = true → pos + 1 < W.stop)) Parse.variableName? Parse.variableName? := by
  unfold Parse.variableName?
  refine reads_peek.bind fun t e met => ?_
  obtain ⟨he, _⟩ := met
  subst he
  refine (reads_peekNth 1).bind fun u e met => ?_
  obtain ⟨he, hu⟩ := met
  subst he
  cases t with
  | none => exact .pure ⟨rfl, rfl, nofun⟩
  | some t =>
      cases u with
      | none => exact .pure ⟨rfl, rfl, nofun⟩
      | some u => exact .pure ⟨rfl, rfl, fun _ => hu rfl⟩

theorem reads_arraySuffix : W.Reads pos (fun _ e => pos ≤ e) Parse.arraySuffix Parse.arraySuffix := by
  unfold Parse.arraySuffix
  refine (reads_check _).bind fun b e met => ?_
  obtain ⟨he, _⟩ := met
  subst he
  refine (reads_peekNth 1).bind fun t e met => ?_
  obtain ⟨he, _⟩ := met
  subst he
  split
  · refine reads_advance.bind fun _ e he => reads_advance.bind fun _ e' he' => .pure ⟨rfl, ?_⟩
    exact Nat.le_trans he.1 he'.1
  · exact .pure ⟨rfl, Nat.le_refl _⟩

theorem reads_builtinType? :
    W.Reads pos (fun t e => pos ≤ e ∧ (t.isSome = true → pos < e)) Parse.builtinType? Parse.builtinType? := by
  unfold Parse.builtinType?
  refine reads_peek.bind fun t e met => ?_
  obtain ⟨he, ht⟩ := met
  subst he
  split
  · rename_i type h
    have hlt : e < W.stop := by
      cases t with
      | none => cases h
      | some u => exact (ht u rfl).1
    refine reads_advance.bind fun _ e' he' => reads_arraySuffix.bind fun _ e'' he'' => .pure ⟨rfl, ?_⟩
    have := he'.2 hlt
    omega
  · exact .pure ⟨rfl, Nat.le_refl _, nofun⟩

end Passage

end StackScript
