/-
The ends of groups.

A bracket that opens a group is closed by the first one behind it up to which as many brackets of its kind are
closed as opened.  `Matches` says so by counting, and what the scan for the end of a group finds matches.  The scan
keeps one number, how many groups are open: by induction on what is left to look at, it stays above zero up to
where the scan stops.
-/
import StackScript.Proofs.Reading.Scan

namespace StackScript

/-- The three kinds of brackets. -/
inductive Delimiter where
  | round | square | curly
deriving DecidableEq

namespace Delimiter

def opening : Delimiter → TokenClass
  | round => .openParen
  | square => .openBracket
  | curly => .openBrace

def closing : Delimiter → TokenClass
  | round => .closeParen
  | square => .closeBracket
  | curly => .closeBrace

/-- No bracket both opens and closes. -/
theorem opening_of_closing (d : Delimiter) {t : Token} (h : t.is d.closing = true) : t.is d.opening = false := by
  obtain ⟨kind, text, line⟩ := t
  cases d <;> cases kind <;> simp [Token.is, TokenKind.classes, opening, closing] at h ⊢

end Delimiter

namespace Scan

variable {tokens : Array Token} {d : Delimiter} {i j stop : Nat}

/-- How many of the tokens `[i, j)` are of a class. -/
def count (tokens : Array Token) (c : TokenClass) (i j : Nat) : Nat :=
  (List.range' i (j - i)).countP fun k => tokens[k]?.any (·.is c)

@[simp] theorem count_self (c : TokenClass) (i : Nat) : count tokens c i i = 0 := by simp [count]

theorem count_of_lt (c : TokenClass) (h : i < j) :
    count tokens c i j = (if tokens[i]?.any (·.is c) then 1 else 0) + count tokens c (i + 1) j := by
  rw [count, count, show j - i = j - (i + 1) + 1 by omega, List.range'_succ, List.countP_cons, Nat.add_comm]

/-- The bracket at `i` opens a group and the one at `j` closes it: on the way no more groups are closed than opened,
and in the end as many. -/
structure Matches (tokens : Array Token) (d : Delimiter) (i j : Nat) : Prop where
  lt : i < j
  opens : tokens[i]?.any (·.is d.opening) = true
  closes : tokens[j]?.any (·.is d.closing) = true
  nested : ∀ k, i < k → k ≤ j → count tokens d.closing (i + 1) k ≤ count tokens d.opening (i + 1) k
  even : count tokens d.closing (i + 1) j = count tokens d.opening (i + 1) j

theorem depthChange_delimiter (d : Delimiter) (t : Token) : depthChange [d.opening] [d.closing] t =
    (if t.is d.opening then 1 else 0) - (if t.is d.closing then 1 else 0) := by
  by_cases hclose : t.is d.closing = true
  · simp [depthChange, Token.isAny, hclose, d.opening_of_closing hclose]
  · simp [depthChange, Token.isAny, hclose]

/-- A token changes the depth as it changes how many more groups are opened than closed. -/
theorem balance_of_lt (d : Delimiter) {t : Token} (ht : tokens[i]? = some t) (h : i < j) :
    (count tokens d.opening i j : Int) - count tokens d.closing i j =
      depthChange [d.opening] [d.closing] t + (count tokens d.opening (i + 1) j - count tokens d.closing (i + 1) j) := by
  rw [count_of_lt _ h, count_of_lt _ h, depthChange_delimiter, ht, Option.any_some, Option.any_some]
  split <;> split <;> omega

/-- A token that does not close the last group leaves it open. -/
theorem depth_of_not_closing {depth : Int} (t : Token) (hdepth : 1 ≤ depth) (h : t.is d.closing = true → 1 < depth) :
    1 ≤ depth + depthChange [d.opening] [d.closing] t := by
  rw [depthChange_delimiter]
  by_cases hclose : t.is d.closing = true
  · have := h hclose
    rw [d.opening_of_closing hclose, if_neg Bool.false_ne_true, if_pos hclose]
    omega
  · rw [if_neg hclose]
    split <;> omega

/-- From a depth of at least one the search stops where a closing bracket brings it to zero for the first time. -/
theorem findAtDepth_matching {n : Nat} {depth : Int} (hdepth : 1 ≤ depth)
    (h : findAtDepth tokens (depthChange [d.opening] [d.closing])
      (fun t depth => !t.is d.opening && t.is d.closing && depth ≤ 1) n i depth = some j) :
    tokens[j]?.any (·.is d.closing) = true ∧
      (∀ k, i ≤ k → k ≤ j → (count tokens d.closing i k : Int) < depth + count tokens d.opening i k) ∧
      (count tokens d.closing i j : Int) + 1 = depth + count tokens d.opening i j := by
  induction n generalizing i depth with
  | zero => cases h
  | succ n ih =>
      rw [findAtDepth] at h
      cases ht : tokens[i]? with
      | none => simp [ht] at h
      | some t =>
          simp only [ht, Bool.and_eq_true, Bool.not_eq_true', decide_eq_true_eq] at h
          split at h
          · rename_i hstop
            cases h
            obtain rfl : depth = 1 := by omega
            refine ⟨by simpa [ht] using hstop.1.2, fun k hik hki => ?_, by simp⟩
            obtain rfl := Nat.le_antisymm hik hki
            simp
          · rename_i hpass
            have deeper : 1 ≤ depth + depthChange [d.opening] [d.closing] t :=
              depth_of_not_closing t hdepth fun hclose =>
                Int.lt_of_not_ge fun h => hpass ⟨⟨d.opening_of_closing hclose, hclose⟩, h⟩
            have hlt : i < j := (findAtDepth_bounds h).1
            obtain ⟨hcloses, hnested, heven⟩ := ih deeper h
            refine ⟨hcloses, fun k hik hkj => ?_, ?_⟩
            · rcases Nat.eq_or_lt_of_le hik with rfl | hik
              · simp only [count_self]
                omega
              · have := hnested k hik hkj
                have := balance_of_lt d ht hik
                omega
            · have := balance_of_lt d ht hlt
              omega

/-- The end of a group that is found matches its opening bracket. -/
theorem matches_of_matching? (hopens : tokens[i]?.any (·.is d.opening) = true)
    (h : matching? tokens [d.opening] [d.closing] (i + 1) stop = some j) : Matches tokens d i j := by
  have hfound := h
  simp only [matching?, Token.isAny, List.any_cons, List.any_nil, Bool.or_false] at hfound
  obtain ⟨hcloses, hnested, heven⟩ := findAtDepth_matching (Int.le_refl 1) hfound
  refine ⟨(matching?_bounds h).1, hopens, hcloses, fun k hik hkj => ?_, by omega⟩
  have := hnested k hik hkj
  omega

/-- From a depth of at least one the search finds a closing bracket that brings it to zero for the first time. -/
theorem findAtDepth_closing {n : Nat} {depth : Int} (hij : i ≤ j) (hn : j < i + n)
    (hcloses : tokens[j]?.any (·.is d.closing) = true)
    (hnested : ∀ k, i ≤ k → k ≤ j → (count tokens d.closing i k : Int) < depth + count tokens d.opening i k)
    (heven : (count tokens d.closing i j : Int) + 1 = depth + count tokens d.opening i j) :
    findAtDepth tokens (depthChange [d.opening] [d.closing])
      (fun t depth => !t.is d.opening && t.is d.closing && depth ≤ 1) n i depth = some j := by
  induction n generalizing i depth with
  | zero => omega
  | succ n ih =>
      rw [findAtDepth]
      rcases Nat.lt_or_eq_of_le hij with hlt | rfl
      · have hj : j < tokens.size := Nat.lt_of_not_le fun h => by
          rw [Array.getElem?_eq_none h] at hcloses
          cases hcloses
        obtain ⟨t, ht⟩ : ∃ t, tokens[i]? = some t := ⟨_, Array.getElem?_eq_getElem (Nat.lt_trans hlt hj)⟩
        simp only [ht]
        rw [if_neg]
        · refine ih hlt (by omega) (fun k hik hkj => ?_) ?_
          · have := hnested k (Nat.le_of_succ_le hik) hkj
            have := balance_of_lt d ht hik
            omega
          · have := balance_of_lt d ht hlt
            omega
        · simp only [Bool.and_eq_true, Bool.not_eq_true', decide_eq_true_eq]
          rintro ⟨⟨hopen, hclose⟩, hlast⟩
          have next := hnested (i + 1) (Nat.le_succ i) hlt
          have change := balance_of_lt d ht (Nat.lt_add_one i)
          rw [depthChange_delimiter, hopen, if_neg Bool.false_ne_true, if_pos hclose, count_self, count_self] at change
          omega
      · obtain ⟨t, ht, hclose⟩ : ∃ t, tokens[i]? = some t ∧ t.is d.closing = true := (Option.any_eq_true _ _).mp hcloses
        simp only [count_self] at heven
        rw [ht]
        simp only [d.opening_of_closing hclose, hclose]
        rw [if_pos]
        simp
        omega

/-- The bracket that matches is the one that is found. -/
theorem matching?_of_matches (h : Matches tokens d i j) (hstop : j < stop) :
    matching? tokens [d.opening] [d.closing] (i + 1) stop = some j := by
  simp only [matching?, Token.isAny, List.any_cons, List.any_nil, Bool.or_false]
  have hlt := h.lt
  refine findAtDepth_closing hlt (by omega) h.closes (fun k hik hkj => ?_) ?_
  · have := h.nested k hik hkj
    omega
  · have := h.even
    omega

end Scan

end StackScript
