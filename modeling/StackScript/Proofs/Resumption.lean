/-
Where reading goes on behind a jump.

A `break` or `continue` ends on the first semicolon behind its word and its level, and what stands before that
semicolon is skipped, braces and all.  The jump therefore stays in its block exactly when a semicolon stands in
front of the brace that closes the block.  Otherwise the brace is skipped as well, and all that follows it up to a
semicolon, and the author is told no more than that a semicolon is missing.
-/
import StackScript.Proofs.Evaluation
import StackScript.Proofs.Reading.Scan
import StackScript.Proofs.Step

namespace StackScript

/-- A closing brace is nothing else. -/
theorem Token.kind_of_closeBrace {t : Token} (h : t.isAny [.closeBrace] = true) : t.kind = .closeBrace := by
  unfold Token.isAny Token.is at h
  cases hkind : t.kind <;> simp [hkind, TokenKind.classes] at h ⊢

/-! ### Groups -/

namespace Scan

variable {tokens : Array Token} {change : Token → Int} {p : Token → Int → Bool}

/-- No token is missing in front of one that is found. -/
theorem findAtDepth_present {n i j : Nat} {depth : Int} (h : findAtDepth tokens change p n i depth = some j) {k : Nat}
    (hi : i ≤ k) (hj : k ≤ j) : ∃ t, tokens[k]? = some t := by
  induction n generalizing i depth with
  | zero => cases h
  | succ n ih =>
      rw [findAtDepth] at h
      cases ht : tokens[i]? with
      | none => simp [ht] at h
      | some t =>
          rw [ht] at h
          rcases Nat.lt_or_eq_of_le hi with hlt | rfl
          · by_cases hp : p t depth = true
            · simp only [hp, if_true, Option.some.injEq] at h
              omega
            · simp only [hp] at h
              exact ih h hlt
          · exact ⟨t, ht⟩

theorem matching?_present {opening closing : List TokenClass} {start stop i : Nat}
    (h : matching? tokens opening closing start stop = some i) {k : Nat} (hstart : start ≤ k) (hi : k ≤ i) :
    ∃ t, tokens[k]? = some t :=
  findAtDepth_present h hstart hi

end Scan

/-! ### What is told -/

namespace Gen

/-- A missing semicolon changes nothing but that at most one warning is given. -/
theorem after_loopJump_noted (jump : LoopJump) (line level : Nat) (unterminated : Bool) (s : GenState) :
    ∃ noted : List Report, noted ⊆ [⟨line, .jumpWithoutSemicolon jump⟩] ∧
      after (loopJump jump line level unterminated) s =
        { after (loopJump jump line level false) s with
          reports := (after (loopJump jump line level false) s).reports ++ noted } := by
  have hnone : [] ⊆ [(⟨line, .jumpWithoutSemicolon jump⟩ : Report)] := List.nil_subset _
  cases unterminated with
  | false => exact ⟨[], hnone, by simp⟩
  | true =>
      unfold loopJump
      simp only [after_bind, after_get, result_get]
      cases s.blocks.enclosing? [.loop] level with
      | none => exact ⟨[], hnone, by simp⟩
      | some id =>
          dsimp only
          cases s.blocks.get? id with
          | none => exact ⟨[], hnone, by simp⟩
          | some target => exact ⟨[⟨line, .jumpWithoutSemicolon jump⟩], List.Subset.refl _, rfl⟩

end Gen

/-! ### Skipping -/

namespace TokenStream

variable (s : TokenStream)

theorem runLength_succ (p : Token → Bool) (n k : Nat) :
    s.runLength p (n + 1) k = if (s.peekNth k).any p then s.runLength p n (k + 1) + 1 else 0 := by
  rw [runLength]
  cases s.peekNth k <;> rfl

/-- A run reaches beyond a place when all tokens up to there belong to it. -/
theorem lt_runLength_iff (p : Token → Bool) {n k j : Nat} :
    j < s.runLength p n k ↔ j < n ∧ ∀ l ≤ j, (s.peekNth (k + l)).any p = true := by
  induction n generalizing k j with
  | zero => simp [runLength]
  | succ n ih =>
      rw [runLength_succ]
      by_cases hp : (s.peekNth k).any p = true
      · rw [if_pos hp]
        cases j with
        | zero => simp [hp]
        | succ j =>
            rw [Nat.add_lt_add_iff_right, Nat.add_lt_add_iff_right, ih]
            refine and_congr_right fun _ => ⟨fun h l hl => ?_, fun h l hl => ?_⟩
            · cases l with
              | zero => exact hp
              | succ l =>
                  rw [← Nat.succ_add_eq_add_succ]
                  exact h l (Nat.le_of_succ_le_succ hl)
            · rw [Nat.succ_add_eq_add_succ]
              exact h (l + 1) (Nat.succ_le_succ hl)
      · rw [if_neg hp]
        refine ⟨fun h => absurd h (Nat.not_lt_zero j), fun h => absurd (h.2 0 (Nat.zero_le j)) hp⟩

/-- Skipping goes beyond a place of the window when no token up to there ends it. -/
theorem lt_skipUntil_iff (cs : List TokenClass) {i : Nat} (hpos : s.pos ≤ i) :
    i < (s.skipUntil cs).pos ↔ i < s.stop ∧ ∀ k, s.pos ≤ k → k ≤ i → (s.get? k).any (fun t => !t.isAny cs) = true := by
  obtain ⟨j, rfl⟩ := Nat.exists_eq_add_of_le hpos
  simp only [skipUntil, skipWhile, Nat.add_lt_add_iff_left, lt_runLength_iff, remaining, Nat.zero_add]
  constructor
  · rintro ⟨hj, h⟩
    refine ⟨by omega, fun k hk hki => ?_⟩
    have := h (k - s.pos) (by omega)
    rwa [peekNth, if_pos (by omega), Nat.add_sub_cancel' hk] at this
  · rintro ⟨hj, h⟩
    refine ⟨by omega, fun l hl => ?_⟩
    rw [peekNth, if_pos (by omega)]
    exact h (s.pos + l) (Nat.le_add_right _ _) (by omega)

/-- The number behind the word of a jump. -/
def jumpNumber? : Option Token := (s.peekNth 1).filter (·.isAny [.integer, .real])

/-- The stream behind the word of a jump and the number behind it. -/
def behindJump : TokenStream := { s with pos := if s.jumpNumber?.isSome then s.pos + 2 else s.pos + 1 }

theorem lt_behindJump : s.pos < s.behindJump.pos := by
  unfold behindJump
  split <;> simp

/-- Whether the semicolon is missing behind a jump. -/
def jumpUnterminated : Bool := !s.behindJump.check [.semicolon] && !s.behindJump.atEnd

variable {s}

theorem lt_of_jumpNumber? {t : Token} (h : s.jumpNumber? = some t) :
    s.pos + 1 < s.stop ∧ s.get? (s.pos + 1) = some t ∧ t.isAny [.integer, .real] = true := by
  obtain ⟨ht, hnumber⟩ := Option.filter_eq_some_iff.mp h
  unfold peekNth at ht
  by_cases hlt : s.pos + 1 < s.stop
  · rw [if_pos hlt] at ht
    exact ⟨hlt, ht, hnumber⟩
  · rw [if_neg hlt] at ht
    cases ht

end TokenStream

namespace Parse

variable {s : TokenStream}

theorem run_loopJump (jump : LoopJump) (h : s.pos < s.stop) :
    (loopJump jump).run s = (.loopJump jump s.line (s.jumpNumber?.elim 0 jumpLevel) s.jumpUnterminated,
      s.behindJump.skipUntil [.semicolon]) := by
  have word : s.advance = { s with pos := s.pos + 1 } := if_pos h
  have next : s.advance.peek.filter (·.isAny [.integer, .real]) = s.jumpNumber? := by
    rw [word]
    rfl
  cases hnumber : s.jumpNumber? with
  | none =>
      have behind : s.behindJump = s.advance := by
        rw [word, TokenStream.behindJump, hnumber]
        rfl
      simp only [loopJump, line, bind_pure_comp, advance, peek, check, atEnd, recover, skipUntil, bind_map_left,
        pure_bind, StateT.run_bind, StateT.run_get, StateT.run_modify, next, hnumber, StateT.run_map, map_pure,
        Option.elim_none, TokenStream.jumpUnterminated, behind]
      rfl
  | some t =>
      have behind : s.behindJump = s.advance.advance := by
        rw [word, TokenStream.behindJump, hnumber]
        exact (if_pos (TokenStream.lt_of_jumpNumber? hnumber).1).symm
      simp only [loopJump, line, bind_pure_comp, advance, peek, check, atEnd, recover, skipUntil, bind_map_left,
        pure_bind, StateT.run_bind, StateT.run_get, StateT.run_modify, next, hnumber, StateT.run_map, map_pure,
        Option.elim_some, TokenStream.jumpUnterminated, behind]
      rfl

/-- The number behind the word of a jump does not close a group. -/
theorem behindJump_le {close : Nat}
    (hclose : Scan.matching? s.tokens [.openBrace] [.closeBrace] (s.pos + 1) s.stop = some close) :
    s.behindJump.pos ≤ close := by
  have hge := (Scan.matching?_bounds hclose).1
  unfold TokenStream.behindJump
  cases hnumber : s.jumpNumber? with
  | none => exact hge
  | some t =>
      obtain ⟨-, ht, hkind⟩ := TokenStream.lt_of_jumpNumber? hnumber
      obtain ⟨u, hu, hclosing⟩ := Scan.matching?_closes hclose
      rcases Nat.lt_or_eq_of_le hge with hlt | rfl
      · exact hlt
      · -- The same token would have to be a number and a brace.
        obtain rfl : t = u := Option.some.inj (ht.symm.trans hu)
        simp [Token.isAny, Token.is, Token.kind_of_closeBrace hclosing, TokenKind.classes] at hkind

theorem other_of_skipped {t : Option Token} (h : t.any (fun t => !t.isAny [.semicolon]) = true) :
    t.any (·.is .semicolon) = false := by
  cases t with
  | none => rfl
  | some t => simpa [Token.isAny] using h

/-- Without a semicolon in front of it, the brace that closes the block of a jump is skipped. -/
theorem lt_loopJump_iff {close : Nat}
    (hclose : Scan.matching? s.tokens [.openBrace] [.closeBrace] (s.pos + 1) s.stop = some close) :
    close < (s.behindJump.skipUntil [.semicolon]).pos ↔
      ∀ i, s.behindJump.pos ≤ i → i < close → (s.get? i).any (·.is .semicolon) = false := by
  rw [TokenStream.lt_skipUntil_iff _ _ (behindJump_le hclose)]
  constructor
  · rintro ⟨-, h⟩ i hi hic
    exact other_of_skipped (h i hi (Nat.le_of_lt hic))
  · intro h
    refine ⟨(Scan.matching?_bounds hclose).2, fun i hi hic => ?_⟩
    obtain ⟨t, ht⟩ := Scan.matching?_present hclose (Nat.le_trans s.lt_behindJump hi) hic
    have here : s.behindJump.get? i = some t := ht
    rw [here, Option.any_some]
    rcases Nat.lt_or_eq_of_le hic with hlt | rfl
    · have other := h i hi hlt
      rw [show s.get? i = some t from ht, Option.any_some] at other
      simp [Token.isAny, other]
    · obtain ⟨u, hu, hclosing⟩ := Scan.matching?_closes hclose
      obtain rfl : t = u := Option.some.inj (ht.symm.trans hu)
      simp [Token.isAny, Token.is, Token.kind_of_closeBrace hclosing, TokenKind.classes]

/-- A jump in a block ends on the first semicolon behind its word and its level, or at the end of the window.  It stays
in front of the brace that closes the block exactly when a semicolon stands in front of that brace; a jump that is
terminated ends where it stands.  What is skipped leaves no trace but the warning that the semicolon is missing. -/
theorem loopJump_lands (jump : LoopJump) {close : Nat}
    (hclose : Scan.matching? s.tokens [.openBrace] [.closeBrace] (s.pos + 1) s.stop = some close) :
    ∃ s', (loopJump jump).run s =
        (.loopJump jump s.line (s.jumpNumber?.elim 0 jumpLevel) s.jumpUnterminated, s') ∧
      s'.tokens = s.tokens ∧ s'.stop = s.stop ∧ s.behindJump.pos ≤ s'.pos ∧
      (∀ i, s.behindJump.pos ≤ i → i < s'.pos → (s.get? i).any (·.is .semicolon) = false) ∧
      (s.jumpUnterminated = false → s'.pos = s.behindJump.pos) ∧
      (s'.pos ≤ close ↔ ∃ i, s.behindJump.pos ≤ i ∧ i < close ∧ (s.get? i).any (·.is .semicolon) = true) ∧
      ∀ g, ∃ noted : List Report, noted ⊆ [⟨s.line, .jumpWithoutSemicolon jump⟩] ∧
        Gen.after ((loopJump jump).run s).1.gen g =
          { Gen.after (Gen.loopJump jump s.line (s.jumpNumber?.elim 0 jumpLevel) false) g with
            reports := (Gen.after (Gen.loopJump jump s.line (s.jumpNumber?.elim 0 jumpLevel) false) g).reports ++ noted } := by
  have hle := behindJump_le hclose
  have hlt := (Scan.matching?_bounds hclose).2
  have run := run_loopJump jump (Nat.lt_trans s.lt_behindJump (Nat.lt_of_le_of_lt hle hlt))
  refine ⟨_, run, rfl, rfl, Nat.le_add_right _ _, ?_, ?_, ?_, ?_⟩
  · intro i hi hskipped
    obtain ⟨-, h⟩ := (s.behindJump.lt_skipUntil_iff _ hi).mp hskipped
    exact other_of_skipped (h i hi (Nat.le_refl i))
  · intro hterminated
    have inside : s.behindJump.pos < s.behindJump.stop := Nat.lt_of_le_of_lt hle hlt
    have here : s.behindJump.check [.semicolon] = true := by
      simpa [TokenStream.jumpUnterminated, TokenStream.atEnd, Nat.not_le.mpr inside] using hterminated
    refine Nat.le_antisymm (Nat.not_lt.mp fun hskipped => ?_) (Nat.le_add_right _ _)
    obtain ⟨-, h⟩ := (s.behindJump.lt_skipUntil_iff _ (Nat.le_refl _)).mp hskipped
    have other := other_of_skipped (h _ (Nat.le_refl _) (Nat.le_refl _))
    have peeked : s.behindJump.peek = s.behindJump.get? s.behindJump.pos := if_pos inside
    rw [TokenStream.check, peeked] at here
    simp [Token.isAny, other] at here
  · rw [← Nat.not_lt, lt_loopJump_iff hclose]
    simp
  · intro g
    rw [run]
    exact Gen.after_loopJump_noted ..

theorem ok_of_toOption {ε α : Type} {x : Except ε α} {a : α} (h : x.toOption = some a) : x = .ok a := by
  cases x with
  | error e => cases h
  | ok b => exact congrArg _ (Option.some.inj h)

/-- The first loop has swallowed the second one, and all that is told is that a semicolon is missing. -/
theorem loopJump_skips_loop :
    ∃ read c c', (({} : Config).tokens? "while ($a) { break } while ($b) { $c; }") = some read ∧
      Scan.matching? (TokenStream.ofList read.tokens).tokens [.openBrace] [.closeBrace] 7 read.tokens.length = some 7 ∧
      7 < ((loopJump .break_).run { TokenStream.ofList read.tokens with pos := 6 }).2.pos ∧
      (({} : Config).compile "while ($a) { break } while ($b) { $c; }").result = .ok c ∧
      (({} : Config).compile "while ($a) { break; }").result = .ok c' ∧
      c.errors = 0 ∧ c.warnings = 1 ∧ c.notices = 0 ∧ c.program.main = c'.program.main := by
  have tokens : ((({} : Config).tokens? "while ($a) { break } while ($b) { $c; }").any fun read =>
      Scan.matching? (TokenStream.ofList read.tokens).tokens [.openBrace] [.closeBrace] 7 read.tokens.length == some 7) =
        true := by
    rw [Config.tokens?_ofList rfl rfl]
    decide +kernel
  have compiled : ((({} : Config).compile "while ($a) { break } while ($b) { $c; }").result.toOption.any fun c =>
      (({} : Config).compile "while ($a) { break; }").result.toOption.any fun c' =>
        decide (c.errors = 0 ∧ c.warnings = 1 ∧ c.notices = 0 ∧
          c.program.main.toList.map Instruction.parts = c'.program.main.toList.map Instruction.parts)) = true := by
    rw [Config.compile_ofList rfl rfl, Config.compile_ofList rfl rfl]
    decide +kernel
  obtain ⟨read, hread, hclose⟩ := (Option.any_eq_true _ _).mp tokens
  rw [beq_iff_eq] at hclose
  have skips : 7 < ((loopJump .break_).run { TokenStream.ofList read.tokens with pos := 6 }).2.pos := by
    obtain ⟨s', hrun, -, -, -, -, -, hstays, -⟩ :=
      loopJump_lands (s := { TokenStream.ofList read.tokens with pos := 6 }) .break_ hclose
    rw [hrun, ← Nat.not_le, hstays]
    rintro ⟨i, hi, hlt, -⟩
    have := Nat.lt_of_lt_of_le (TokenStream.lt_behindJump _) hi
    dsimp only at this
    omega
  obtain ⟨c, hc, hrest⟩ := (Option.any_eq_true _ _).mp compiled
  obtain ⟨c', hc', hsame⟩ := (Option.any_eq_true _ _).mp hrest
  obtain ⟨errors, warnings, notices, same⟩ := of_decide_eq_true hsame
  exact ⟨read, c, c', hread, hclose, skips, ok_of_toOption hc, ok_of_toOption hc', errors, warnings, notices,
    Code.eq_of_parts same⟩

end Parse

end StackScript
