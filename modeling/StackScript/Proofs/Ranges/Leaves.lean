/-
The tokens a leaf covers.

A leaf is built where an operand begins.  How far it reaches is looked for by kind: over a single token, along a run
of tokens, up to a comma or to the end of a group.  A leaf that ends with a group ends with the bracket that matches
the group's own.
-/
import StackScript.Proofs.Ranges.Accounts
import StackScript.Proofs.Reading.Windows

namespace StackScript

namespace Builder

variable {w : Window} {i j start line : Nat} {built : Node × Nat} {kind : LeafKind}

/-- What is built covers the tokens from `i` on, up to the position behind it. -/
structure Spans (w : Window) (i : Nat) (built : Node × Nat) : Prop where
  covers : built.1.Covers w.tokens i built.2
  within : built.2 ≤ w.stop

/-! ### Tokens of a window -/

theorem Window.getElem?_of_at? {t : Token} (h : w.at? i = some t) : w.tokens[i]? = some t := by
  have hi := Window.lt_of_at? h
  unfold Window.at? at h
  rwa [if_pos hi] at h

theorem Window.any_of_at? {p : Token → Bool} (h : (w.at? i).any p = true) : w.tokens[i]?.any p = true := by
  cases ht : w.at? i with
  | none => simp [ht] at h
  | some t =>
      rw [ht] at h
      rw [Window.getElem?_of_at? ht]
      exact h

theorem Window.any_of_isAt {c : TokenClass} (h : w.isAt i [c] = true) : w.tokens[i]?.any (·.is c) = true := by
  apply Window.any_of_at?
  simpa [Window.isAt, Token.isAny] using h

/-- The end of a group that is found matches the bracket in front. -/
theorem Window.matches_of_closing (d : Delimiter) {error : TreeError} (hopens : w.tokens[i]?.any (·.is d.opening) = true)
    (h : w.closing (i + 1) d.opening d.closing error = .ok j) : Scan.Matches w.tokens d i j := by
  unfold Window.closing at h
  split at h
  · rename_i k hk
    cases h
    exact Scan.matches_of_matching? hopens hk
  · cases h

theorem Window.closes_of_closing {opening closing : TokenClass} {error : TreeError}
    (h : w.closing i opening closing error = .ok j) : ∃ t, w.tokens[j]? = some t ∧ t.is closing = true := by
  unfold Window.closing at h
  split at h
  · rename_i k hk
    cases h
    obtain ⟨t, ht, hcloses⟩ := Scan.matching?_closes hk
    exact ⟨t, ht, by simpa [Token.isAny] using hcloses⟩
  · cases h

/-- The tokens of a run have the property, and the one behind it, if the run ends early, has not. -/
theorem Window.runLength_spec (w : Window) (p : Token → Bool) (n i : Nat) :
    (∀ k, i ≤ k → k < i + w.runLength p n i → (w.at? k).any p = true) ∧
      (w.runLength p n i < n → (w.at? (i + w.runLength p n i)).any p = false) := by
  induction n generalizing i with
  | zero => exact ⟨fun k hik hk => by rw [Window.runLength] at hk; omega, fun h => absurd h (Nat.not_lt_zero _)⟩
  | succ n ih =>
      obtain ⟨hrun, hend⟩ := ih (i + 1)
      rw [Window.runLength]
      split
      · rename_i hi
        refine ⟨fun k hik hk => ?_, fun h => ?_⟩
        · rcases Nat.eq_or_lt_of_le hik with rfl | hik
          · exact hi
          · exact hrun k hik (by omega)
        · rw [show i + (w.runLength p n (i + 1) + 1) = i + 1 + w.runLength p n (i + 1) by omega]
          exact hend (by omega)
      · rename_i hi
        exact ⟨fun k hik hk => by omega, fun _ => by simpa using hi⟩

/-! ### Leaves -/

theorem spans_leaf {stop : Nat} (h : leaf kind start stop line = .ok built) (made : Made w 0 start w.stop built built)
    (hends : kind.Ends w.tokens ⟨start, stop, line⟩) : Spans w start built := by
  cases h
  exact ⟨Node.covers_leaf made.behind hends, made.within⟩

/-- A leaf of one token. -/
theorem spans_single {t : Token} (ht : w.at? start = some t) (h : leaf kind start (start + 1) line = .ok built)
    (hends : kind.Ends w.tokens ⟨start, start + 1, line⟩) : Spans w start built := by
  have hlt := Window.lt_of_at? ht
  cases h
  exact ⟨Node.covers_leaf (Nat.lt_succ_self start) hends, hlt⟩

theorem exists_of_variableLeaf (h : variableLeaf w start line = .ok built) :
    ∃ stop, leaf .variable start stop line = .ok built := by
  unfold variableLeaf at h
  dsimp only at h
  split at h
  · exact ⟨_, h⟩
  · split at h
    · obtain ⟨close, -, h⟩ := exists_of_bind h
      exact ⟨_, h⟩
    · cases h

theorem exists_of_nameOrError {pos : Nat} {t : Token} (h : nameOrError w pos t = .ok built) :
    ∃ stop, leaf .name pos stop t.line = .ok built := by
  unfold nameOrError at h
  split at h
  · exact ⟨_, h⟩
  · cases h

theorem exists_of_bracketed (hopens : w.tokens[start]?.any (·.is .openBracket) = true)
    (h : bracketed w start line = .ok built) :
    ∃ close, Scan.Matches w.tokens .square start close ∧ leaf .array start (close + 1) line = .ok built := by
  obtain ⟨close, hclose, h⟩ := exists_of_bind h
  exact ⟨close, Window.matches_of_closing .square hopens hclose, h⟩

theorem exists_of_collection {t : Token} (h : collection w kind start t = .ok built) :
    ∃ close, Scan.Matches w.tokens .round (start + 1) close ∧ leaf kind start (close + 1) t.line = .ok built := by
  unfold collection at h
  split at h
  · rename_i hparen
    obtain ⟨close, hclose, h⟩ := exists_of_bind h
    exact ⟨close, Window.matches_of_closing .round (Window.any_of_isAt hparen) hclose, h⟩
  · cases h

/-- The body of a function, from its opening brace on. -/
theorem exists_of_body (h : (if (!w.isAt i [.openBrace]) = true then .error ⟨line, .closureWithoutBody⟩
      else do
        let close ← w.closing (i + 1) .openBrace .closeBrace ⟨line, .unclosedBody⟩
        leaf .closure start (close + 1) line) = Except.ok built) :
    ∃ close, Scan.Matches w.tokens .curly i close ∧ leaf .closure start (close + 1) line = .ok built := by
  split at h
  · cases h
  · rename_i hbrace
    rw [Bool.not_eq_true', Bool.not_eq_false] at hbrace
    obtain ⟨close, hclose, h⟩ := exists_of_bind h
    exact ⟨close, Window.matches_of_closing .curly (Window.any_of_isAt hbrace) hclose, h⟩

/-- The word of a function is found, for the signature stands behind it. -/
theorem function_of_runLength {n : Nat} (hn : w.runLength (fun t => !t.isKeyword .function) (w.stop - start) start = n)
    (hlt : start + n < j) (hj : w.isAt j [.openParen] = true) :
    (∀ k, start ≤ k → k < start + n → w.tokens[k]?.any (·.isKeyword .function) = false) ∧
      w.tokens[start + n]?.any (·.isKeyword .function) = true := by
  obtain ⟨hrun, hend⟩ := w.runLength_spec (fun t => !t.isKeyword .function) (w.stop - start) start
  rw [hn] at hrun hend
  have hstop := Window.lt_of_isAt hj
  refine ⟨fun k hk hlt => ?_, ?_⟩
  · have hnone := Window.any_of_at? (hrun k hk hlt)
    cases ht : w.tokens[k]? with
    | none => rfl
    | some t => simpa [ht] using hnone
  · have hword := hend (by omega)
    -- There is a token, as there is one behind it.
    obtain ⟨t, ht⟩ : ∃ t, w.tokens[start + n]? = some t := by
      have hsome := Window.any_of_isAt hj
      cases hu : w.tokens[j]? with
      | none => simp [hu] at hsome
      | some u =>
          have := (Array.getElem?_eq_some_iff.mp hu).1
          exact ⟨_, Array.getElem?_eq_getElem (by omega)⟩
    rw [Window.at?, if_pos (by omega), ht] at hword
    rw [ht]
    simpa using hword

theorem exists_of_closure (h : closure w start line = .ok built) :
    ∃ word opening close body last, ClosureHead w.tokens start word opening close body ∧
      Scan.Matches w.tokens .curly body last ∧ leaf .closure start (last + 1) line = .ok built := by
  unfold closure at h
  dsimp only at h
  generalize hn : w.runLength (fun t => !t.isKeyword .function) (w.stop - start) start = n at h
  generalize hi : (if w.isAt (start + n + 1) [.name] = true then _ else _) = i at h
  split at h
  · cases h
  · rename_i hparen
    rw [Bool.not_eq_true', Bool.not_eq_false] at hparen
    have hname : i = start + n + 1 ∨ i = start + n + 2 ∧ w.tokens[start + n + 1]?.any (·.is .name) = true := by
      split at hi
      · rename_i hname
        exact .inr ⟨hi.symm, Window.any_of_isAt hname⟩
      · exact .inl hi.symm
    obtain ⟨hbefore, hword⟩ := function_of_runLength hn (by omega) hparen
    obtain ⟨close, hclose, h⟩ := exists_of_bind h
    have hsignature := Window.matches_of_closing .round (Window.any_of_isAt hparen) hclose
    have finish {body : Nat} (hcaptures : body = close + 1 ∨ w.tokens[close + 1]?.any (·.isKeyword .using_) = true ∧
        (body = close + 2 ∨ ∃ last, Scan.Matches w.tokens .round (close + 2) last ∧ body = last + 1))
        (hbody : ∃ last, Scan.Matches w.tokens .curly body last ∧ leaf .closure start (last + 1) line = .ok built) :
        ∃ word opening close body last, ClosureHead w.tokens start word opening close body ∧
          Scan.Matches w.tokens .curly body last ∧ leaf .closure start (last + 1) line = .ok built := by
      obtain ⟨last, hbody⟩ := hbody
      exact ⟨start + n, i, close, body, last, ⟨by omega, hbefore, hword, hname, hsignature, hcaptures⟩, hbody⟩
    split at h
    · rename_i husing
      have captures := Window.any_of_at? husing
      split at h
      · rename_i hlist
        obtain ⟨body, hbody, h⟩ := exists_of_bind h
        cases hlast : w.closing (close + 1 + 2) .openParen .closeParen ⟨line, .unclosedCaptures⟩ with
        | error e =>
            rw [hlast] at hbody
            cases hbody
        | ok last =>
            rw [hlast] at hbody
            cases hbody
            have hmatches := Window.matches_of_closing .round (Window.any_of_isAt hlist) hlast
            exact finish (.inr ⟨captures, .inr ⟨last, hmatches, rfl⟩⟩) (exists_of_body h)
      · exact finish (.inr ⟨captures, .inl rfl⟩) (exists_of_body h)
    · exact finish (.inl rfl) (exists_of_body h)

/-- What a reserved word starts is one leaf. -/
theorem exists_of_keyword {word : Keyword} {t : Token} (ht : w.at? start = some t) (hword : t.keyword? = some word)
    (h : keyword w word start t = .ok built) :
    ∃ kind stop, kind.Ends w.tokens ⟨start, stop, t.line⟩ ∧ leaf kind start stop t.line = .ok built := by
  have first {v : Keyword} (hv : word = v) : w.tokens[start]?.any (·.isKeyword v) = true := by
    simp [Window.getElem?_of_at? ht, Token.isKeyword, hword, hv]
  have function (h : closure w start t.line = .ok built) :
      ∃ kind stop, kind.Ends w.tokens ⟨start, stop, t.line⟩ ∧ leaf kind start stop t.line = .ok built := by
    obtain ⟨word, opening, close, body, last, hhead, hmatches, hleaf⟩ := exists_of_closure h
    exact ⟨.closure, last + 1, ⟨word, opening, close, body, hhead, hmatches⟩, hleaf⟩
  unfold keyword at h
  split at h
  · obtain ⟨close, hmatches, hleaf⟩ := exists_of_collection h
    exact ⟨.array, close + 1, .inr ⟨first rfl, hmatches⟩, hleaf⟩
  · obtain ⟨close, hmatches, hleaf⟩ := exists_of_collection h
    exact ⟨.list, close + 1, ⟨first rfl, hmatches⟩, hleaf⟩
  · exact function h
  · exact ⟨.name, _, trivial, h⟩
  · exact ⟨.name, _, trivial, h⟩
  · exact ⟨.name, _, trivial, h⟩
  · split at h
    · split at h
      · exact function h
      · cases h
    · split at h
      · exact ⟨.construct word, _, trivial, h⟩
      · cases h

/-! ### What the leaves cover -/

section Spans

variable {t : Token} {word : Keyword} (hw : w.stop ≤ w.tokens.size)

include hw

theorem spans_variableLeaf (hstart : start ≤ w.stop) (h : variableLeaf w start line = .ok built) : Spans w start built := by
  have made := Attempts.made (made_variableLeaf (Window.moved_self hw) (Nat.le_refl _) line (Nat.le_refl start) hstart) h
  obtain ⟨stop, hleaf⟩ := exists_of_variableLeaf h
  exact spans_leaf hleaf made trivial

theorem spans_nameOrError (ht : w.at? start = some t) (h : nameOrError w start t = .ok built) : Spans w start built := by
  have made := Attempts.made (made_nameOrError (Window.moved_self hw) (Nat.le_refl _) (Nat.le_refl start) ht) h
  obtain ⟨stop, hleaf⟩ := exists_of_nameOrError h
  exact spans_leaf hleaf made trivial

theorem spans_bracketed (hopens : w.tokens[start]?.any (·.is .openBracket) = true)
    (h : bracketed w start line = .ok built) : Spans w start built := by
  have made := Attempts.made (made_bracketed (Window.moved_self hw) (Nat.le_refl _) line (Nat.le_refl start)) h
  obtain ⟨close, hmatches, hleaf⟩ := exists_of_bracketed hopens h
  exact spans_leaf hleaf made (.inl hmatches)

theorem spans_keyword (ht : w.at? start = some t) (hword : t.keyword? = some word)
    (h : keyword w word start t = .ok built) : Spans w start built := by
  have made := Attempts.made (made_keyword (Window.moved_self hw) (Nat.le_refl _) word (Nat.le_refl start) ht) h
  obtain ⟨kind, stop, hends, hleaf⟩ := exists_of_keyword ht hword h
  exact spans_leaf hleaf made hends

end Spans

end Builder

end StackScript
