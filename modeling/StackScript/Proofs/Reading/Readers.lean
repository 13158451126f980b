/-
How deep the readers have to look.

The readers of nested constructs are tied together with a bound on the depth.  Whatever the bound, what is read
meets what reading ensures.  Once the bound is large for the text that the tokens cover, nothing depends on it
any more, and nothing depends on what stands in front of the tokens either.
-/
import StackScript.Proofs.Reading.Extent
import StackScript.Proofs.Reading.Statement

namespace StackScript

open Parse

namespace Passage

variable {W V : Passage} {first pos : Nat} {r r' : Readers}

/-- A token list on its own. -/
def alone (ts : List Token) : Passage := (TokenStream.ofList ts).passage (TokenStream.bounded_ofList ts)

@[simp] theorem near_alone (ts : List Token) : (alone ts).near 0 = TokenStream.ofList ts := rfl

/-- A passage that is not moved is read in the same stream both times. -/
theorem Unmoved.far (hW : W.Unmoved) (pos : Nat) : W.far pos = W.near pos := by
  rw [Passage.far, near, hW.1, hW.2]
  rfl

/-! ### Expressions in strings -/

/-- The readers agree on a piece of a string when they agree on the expression in it. -/
theorem piece_same (line : Nat) (part : StringLiteral.Part)
    (h : ∀ cs, part = .splice cs →
      (alone (Tokens.ofSource (String.ofList cs) line).tokens).ReadsExpr 0 (r.expr false) (r'.expr false)) :
    piece r' line part = piece r line part ∧ (piece r line part).meets .read = true := by
  cases part with
  | text cs => exact ⟨rfl, rfl⟩
  | splice cs =>
      obtain ⟨x, x', e, ⟨same, hx, -⟩, hnear, hfar⟩ := h cs rfl
      rw [Unmoved.far ⟨rfl, rfl⟩] at hfar
      rw [near_alone] at hnear hfar
      subst same
      unfold piece
      dsimp only
      rw [hnear, hfar]
      refine ⟨rfl, ?_⟩
      cases x' with
      | tree root => exact hx
      | rejected error => rfl
      | missing => rfl

/-! ### At the end of a window -/

theorem exprEnd_atEnd {s : TokenStream} (h : s.stop ≤ s.pos) (atComma : Bool) : s.exprEnd s.pos atComma = s.pos := by
  have semicolon : Scan.semicolon? s.tokens s.pos s.stop = none := by
    rw [Scan.semicolon?, Nat.sub_eq_zero_of_le h]
    rfl
  have comma : Scan.comma? s.tokens s.pos s.pos = none := by
    rw [Scan.comma?, Nat.sub_self]
    rfl
  simp [TokenStream.exprEnd, semicolon, comma, Nat.max_eq_left h]

theorem peek_atEnd {s : TokenStream} (h : s.stop ≤ s.pos) : s.peek = none := if_neg (by omega)

/-- Where no token is left, nothing is read, whatever the readers of nested constructs are. -/
theorem run_statement_atEnd (r : Readers) {s : TokenStream} (h : s.stop ≤ s.pos) :
    (statement r).run s = (.empty, s) := by
  have hpeek : Parse.peek.run s = (none, s) := congrArg (·, s) (peek_atEnd h)
  show (Parse.peek >>= _ : Parse Stmt).run s = _
  rw [StateT.run_bind, hpeek]
  rfl

theorem run_expr_atEnd (r : Readers) {s : TokenStream} (h : s.stop ≤ s.pos) (atComma : Bool) :
    (Parse.expr r atComma).run s = (.missing, s) := by
  show (if s.exprEnd s.pos atComma ≤ s.pos then _ else _ : Parse Expr).run s = _
  rw [exprEnd_atEnd h, if_pos (Nat.le_refl _)]
  rfl

theorem run_scope_atEnd (r : Readers) {s : TokenStream} (h : s.stop ≤ s.pos) : (Parse.scope r).run s = ([], s) := by
  show (scopeItems r (s.stop - s.pos)).run s = _
  rw [Nat.sub_eq_zero_of_le h]
  rfl

theorem stmt_atEnd (n : Nat) {s : TokenStream} (h : s.stop ≤ s.pos) : (readers n).stmt.run s = (.empty, s) := by
  cases n with
  | zero => rfl
  | succ n => exact run_statement_atEnd (readers n) h

theorem expr_atEnd (n : Nat) {s : TokenStream} (h : s.stop ≤ s.pos) (atComma : Bool) :
    ((readers n).expr atComma).run s = (.missing, s) := by
  cases n with
  | zero => rfl
  | succ n => exact run_expr_atEnd (readers n) h atComma

theorem scope_atEnd (n : Nat) {s : TokenStream} (h : s.stop ≤ s.pos) : (readers n).scope.run s = ([], s) := by
  cases n with
  | zero => rfl
  | succ n => exact run_scope_atEnd (readers n) h

/-- Any two levels agree behind the tokens. -/
theorem agree_atEnd (n n' : Nat) (h : W.stop ≤ first) : W.Agree first (readers n) (readers n') where
  stmt {V} hV pos hpos := by
    have hV := hV.stop
    refine ⟨_, _, pos, ⟨rfl, ?_, Nat.le_refl _⟩, stmt_atEnd n ?_, stmt_atEnd n' ?_⟩
    · rfl
    · show V.stop ≤ pos
      omega
    · show V.stop + V.shift ≤ pos + V.shift
      omega
  expr {V} hV atComma pos hpos := by
    have hV := hV.stop
    refine ⟨_, _, pos, ⟨rfl, ?_, ⟨Nat.le_refl _, id⟩, fun _ => rfl⟩, expr_atEnd n ?_ atComma, expr_atEnd n' ?_ atComma⟩
    · rfl
    · show V.stop ≤ pos
      omega
    · show V.stop + V.shift ≤ pos + V.shift
      omega
  scope {V} hV pos hpos := by
    have hV := hV.stop
    refine ⟨_, _, pos, ⟨rfl, ?_, Nat.le_refl _⟩, scope_atEnd n ?_, scope_atEnd n' ?_⟩
    · rfl
    · show V.stop ≤ pos
      omega
    · show V.stop + V.shift ≤ pos + V.shift
      omega

/-! ### Any bound -/

/-- With nothing in front a level agrees with itself: whatever it reads meets what reading ensures. -/
theorem agree_self (n : Nat) (hW : W.Unmoved) : W.Agree 0 (readers n) (readers n) := by
  induction n generalizing W with
  | zero =>
      refine ⟨fun {V} hV pos hpos => ?_, fun {V} hV atComma pos hpos => ?_, fun {V} hV pos hpos => ?_⟩
      · exact .pure ⟨rfl, rfl, Nat.le_refl _⟩
      · exact .pure ⟨rfl, rfl, ⟨Nat.le_refl _, id⟩, fun _ => rfl⟩
      · exact .pure ⟨rfl, rfl, Nat.le_refl _⟩
  | succ n ih =>
      have splices {V : Passage} (pos : Nat) : V.Splices pos (readers n) (readers n) := by
        intro i t _ _ _ _ part _
        exact piece_same t.line part fun cs _ => (ih ⟨rfl, rfl⟩).expr (.refl _) false (Nat.zero_le _)
      refine ⟨fun {V} hV pos _ => ?_, fun {V} hV atComma pos _ => ?_, fun {V} hV pos _ => ?_⟩
      · have h : V.Agree 0 (readers n) (readers n) := ih (hV.unmoved hW)
        refine Reads.mono (reads_statement (h.mono (Nat.zero_le _)) (h.expr (.refl V) false (Nat.zero_le _)))
          fun _ _ met => ?_
        obtain ⟨hs, he, _⟩ := met
        exact ⟨hs, he⟩
      · exact reads_expr ((ih (hV.unmoved hW)).mono (Nat.zero_le _)) (splices pos) atComma
      · exact reads_scope ((ih (hV.unmoved hW)).mono (Nat.zero_le _))

/-! ### A large bound -/

/-- The tokens from a position to the end of the window. -/
def ahead (W : Passage) (pos : Nat) : List Token := (W.tokens.toList.take W.stop).drop pos

/-- The number of characters that the tokens from a position on cover at least. -/
def extent (W : Passage) (pos : Nat) : Nat := Token.extents (W.ahead pos)

theorem extent_alone (ts : List Token) : (alone ts).extent 0 = Token.extents ts := by
  simp [extent, ahead, alone, TokenStream.passage, TokenStream.ofList]

theorem extent_inside (hV : V.Inside W) (hpos : first ≤ pos) : V.extent pos ≤ W.extent first := by
  refine Token.extents_sublist ?_
  unfold ahead
  rw [hV.tokens]
  exact ((List.take_sublist_take_left hV.stop).drop pos).trans (List.drop_sublist_drop_left _ hpos)

theorem mem_ahead {i : Nat} {t : Token} (hpos : pos ≤ i) (hlt : i < W.stop) (ht : W.tokens[i]? = some t) :
    t ∈ W.ahead pos := by
  refine List.mem_of_getElem? (i := i - pos) ?_
  unfold ahead
  rw [List.getElem?_drop, List.getElem?_take_of_lt (by omega), Array.getElem?_toList]
  rwa [show pos + (i - pos) = i by omega]

theorem extent_succ (hlt : pos < W.stop) : W.extent (pos + 1) < W.extent pos := by
  have filled := W.filled
  have split : W.ahead pos = W.tokens[pos] :: W.ahead (pos + 1) := by
    unfold ahead
    rw [List.drop_eq_getElem_cons (by simp; omega)]
    simp
  have := Token.extent_pos W.tokens[pos]
  unfold extent
  rw [split, Token.extents_cons]
  omega

/-- The expressions inside the strings of a window lie deeper than the strings. -/
theorem splices_deep {k k' : Nat}
    (h : ∀ ts, 2 * Token.extents ts + 2 ≤ k → 2 * Token.extents ts + 2 ≤ k' →
      (alone ts).Agree 0 (readers k) (readers k'))
    (hk : 2 * W.extent pos ≤ k) (hk' : 2 * W.extent pos ≤ k') : W.Splices pos (readers k) (readers k') := by
  intro i t hi hlt ht htemplate part hpart
  refine piece_same t.line part fun cs hcs => ?_
  subst hcs
  have covered := Tokens.extents_ofSource (String.ofList cs) t.line
  have shorter := StringLiteral.length_splice hpart
  have string : t.extent ≤ W.extent pos := Token.extent_le_of_mem (mem_ahead hi hlt ht)
  rw [Token.extent, if_pos htemplate] at string
  rw [String.length_ofList] at covered
  rw [String.length_toList] at shorter
  exact (h _ (by omega) (by omega)).expr (.refl _) false (Nat.zero_le _)

/-- Two levels agree from `first` on when both are large for what is covered there. -/
theorem agree_deep (n n' : Nat) (hn : 2 * W.extent first + 2 ≤ n) (hn' : 2 * W.extent first + 2 ≤ n') :
    W.Agree first (readers n) (readers n') := by
  induction n using Nat.strongRecOn generalizing n' W first with
  | ind n ih =>
      have hexpr {k k' : Nat} (hlt : k < n) {V : Passage} (atComma : Bool) {pos : Nat} (hk : 2 * V.extent pos ≤ k)
          (hk' : 2 * V.extent pos ≤ k') :
          V.ReadsExpr pos ((readers (k + 1)).expr atComma) ((readers (k' + 1)).expr atComma) := by
        by_cases hend : V.stop ≤ pos
        · exact (agree_atEnd _ _ hend).expr (.refl V) atComma (Nat.le_refl _)
        · have := extent_succ (Nat.lt_of_not_le hend)
          refine reads_expr (ih k hlt k' (by omega) (by omega)) (splices_deep (fun ts h h' => ?_) hk hk') atComma
          exact ih k hlt k' (by rwa [extent_alone]) (by rwa [extent_alone])
      obtain ⟨k, rfl⟩ : ∃ k, n = k + 2 := ⟨n - 2, by omega⟩
      obtain ⟨k', rfl⟩ : ∃ k', n' = k' + 2 := ⟨n' - 2, by omega⟩
      refine ⟨fun {V} hV pos hpos => ?_, fun {V} hV atComma pos hpos => ?_, fun {V} hV pos hpos => ?_⟩
      · have inside := extent_inside hV hpos
        by_cases hend : V.stop ≤ pos
        · exact (agree_atEnd _ _ hend).stmt (.refl V) (Nat.le_refl _)
        · have := extent_succ (Nat.lt_of_not_le hend)
          refine Reads.mono (reads_statement (ih (k + 1) (by omega) (k' + 1) (by omega) (by omega))
            (hexpr (by omega) false (by omega) (by omega))) fun _ _ met => ?_
          obtain ⟨hs, he, _⟩ := met
          exact ⟨hs, he⟩
      · have inside := extent_inside hV hpos
        exact hexpr (by omega) atComma (by omega) (by omega)
      · have inside := extent_inside hV hpos
        by_cases hend : V.stop ≤ pos
        · exact (agree_atEnd _ _ hend).scope (.refl V) (Nat.le_refl _)
        · have := extent_succ (Nat.lt_of_not_le hend)
          exact reads_scope (ih (k + 1) (by omega) (k' + 1) (by omega) (by omega))

end Passage

end StackScript
