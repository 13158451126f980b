/-
Scans of two buffers that hold the same tokens.

A scan looks at the tokens of its range only.  Where a second buffer holds the same tokens `k` places further
on, it finds the same things `k` places further on.
-/
import StackScript.TokenStream

namespace StackScript

namespace Scan

variable {tokens tokens' : Array Token} {k stop : Nat}

/-- The tokens before `stop` stand in the second buffer as well, `k` places further on. -/
def Moved (k stop : Nat) (tokens tokens' : Array Token) : Prop :=
  ∀ i, i < stop → tokens'[i + k]? = tokens[i]?

theorem Moved.mono (h : Moved k stop tokens tokens') {stop' : Nat} (hle : stop' ≤ stop) :
    Moved k stop' tokens tokens' := fun i hi => h i (by omega)

/-! ### The first token with a property -/

theorem findAtDepth_moved (change : Token → Int) (p : Token → Int → Bool) {n i : Nat} (depth : Int)
    (h : Moved k (i + n) tokens tokens') :
    findAtDepth tokens' change p n (i + k) depth = (findAtDepth tokens change p n i depth).map (· + k) := by
  induction n generalizing i depth with
  | zero => rfl
  | succ n ih =>
      have next : i + k + 1 = i + 1 + k := by omega
      rw [findAtDepth, findAtDepth, h i (by omega), next]
      cases tokens[i]? with
      | none => rfl
      | some t =>
          by_cases hp : p t depth
          · simp [hp]
          · simpa [hp] using ih (i := i + 1) _ (h.mono (by omega))

theorem findAtDepth_bounds {change : Token → Int} {p : Token → Int → Bool} {n i j : Nat} {depth : Int}
    (h : findAtDepth tokens change p n i depth = some j) : i ≤ j ∧ j < i + n := by
  induction n generalizing i depth with
  | zero => cases h
  | succ n ih =>
      rw [findAtDepth] at h
      split at h
      · cases h
      · split at h
        · cases h
          omega
        · have := ih h
          omega

/-- A token that is found has the property, at some depth. -/
theorem findAtDepth_spec {change : Token → Int} {p : Token → Int → Bool} {n i j : Nat} {depth : Int}
    (h : findAtDepth tokens change p n i depth = some j) :
    ∃ t depth', tokens[j]? = some t ∧ p t depth' = true := by
  induction n generalizing i depth with
  | zero => cases h
  | succ n ih =>
      rw [findAtDepth] at h
      split at h
      · cases h
      · rename_i t ht
        by_cases hp : p t depth = true
        · rw [if_pos hp] at h
          cases h
          exact ⟨t, depth, ht, hp⟩
        · rw [if_neg hp] at h
          exact ih h

/-- A search through the range `[start, stop)`. -/
theorem findAtDepth_range_moved (change : Token → Int) (p : Token → Int → Bool) (start : Nat) (depth : Int)
    (h : Moved k stop tokens tokens') :
    findAtDepth tokens' change p (stop + k - (start + k)) (start + k) depth =
      (findAtDepth tokens change p (stop - start) start depth).map (· + k) := by
  rw [Nat.add_sub_add_right]
  by_cases hle : start ≤ stop
  · exact findAtDepth_moved _ _ _ (h.mono (by omega))
  · rw [Nat.sub_eq_zero_of_le (by omega)]
    rfl

/-- The tokens matter only where there are some in the range. -/
theorem findAtDepth_range_moved' (change : Token → Int) (p : Token → Int → Bool) (start : Nat) (depth : Int)
    (h : start < stop → Moved k stop tokens tokens') :
    findAtDepth tokens' change p (stop + k - (start + k)) (start + k) depth =
      (findAtDepth tokens change p (stop - start) start depth).map (· + k) := by
  by_cases hlt : start < stop
  · exact findAtDepth_range_moved _ _ _ _ (h hlt)
  · rw [Nat.add_sub_add_right, Nat.sub_eq_zero_of_le (Nat.le_of_not_lt hlt)]
    rfl

theorem findAtDepth_range_bounds {change : Token → Int} {p : Token → Int → Bool} {start i : Nat} {depth : Int}
    (h : findAtDepth tokens change p (stop - start) start depth = some i) : start ≤ i ∧ i < stop := by
  have := findAtDepth_bounds h
  omega

theorem matching?_moved (opening closing : List TokenClass) (start : Nat) (h : Moved k stop tokens tokens') :
    matching? tokens' opening closing (start + k) (stop + k) =
      (matching? tokens opening closing start stop).map (· + k) := findAtDepth_range_moved _ _ _ _ h

theorem matching?_bounds {opening closing : List TokenClass} {start i : Nat}
    (h : matching? tokens opening closing start stop = some i) : start ≤ i ∧ i < stop :=
  findAtDepth_range_bounds h

/-- The token that closes a group is of the closing kind. -/
theorem matching?_closes {opening closing : List TokenClass} {start i : Nat}
    (h : matching? tokens opening closing start stop = some i) : ∃ t, tokens[i]? = some t ∧ t.isAny closing = true := by
  obtain ⟨t, depth, ht, hp⟩ := findAtDepth_spec h
  simp only [Bool.and_eq_true] at hp
  exact ⟨t, ht, hp.1.2⟩

theorem semicolon?_moved (start : Nat) (h : Moved k stop tokens tokens') :
    semicolon? tokens' (start + k) (stop + k) = (semicolon? tokens start stop).map (· + k) :=
  findAtDepth_range_moved _ _ _ _ h

theorem semicolon?_bounds {start i : Nat} (h : semicolon? tokens start stop = some i) : start ≤ i ∧ i < stop :=
  findAtDepth_range_bounds h

theorem comma?_moved (start : Nat) (h : Moved k stop tokens tokens') :
    comma? tokens' (start + k) (stop + k) = (comma? tokens start stop).map (· + k) :=
  findAtDepth_range_moved _ _ _ _ h

theorem comma?_bounds {start i : Nat} (h : comma? tokens start stop = some i) : start ≤ i ∧ i < stop :=
  findAtDepth_range_bounds h

/-! ### Pieces between commas -/

/-- A range `k` places further on. -/
def movedBy (k : Nat) (range : Nat × Nat) : Nat × Nat := (range.1 + k, range.2 + k)

theorem commas_moved {n i : Nat} (depth : Int) (h : Moved k (i + n) tokens tokens') :
    commas tokens' n (i + k) depth = (commas tokens n i depth).map (· + k) := by
  induction n generalizing i depth with
  | zero => rfl
  | succ n ih =>
      have next : i + k + 1 = i + 1 + k := by omega
      rw [commas, commas, h i (by omega), next]
      cases tokens[i]? with
      | none => rfl
      | some t =>
          have rest := ih (i := i + 1) (depth + depthChange openers closers t) (h.mono (by omega))
          dsimp only
          rw [rest]
          by_cases hc : (t.is .comma && depth ≤ 0) = true
          · simp [hc]
          · simp [hc]

theorem commas_bounds {n i j : Nat} {depth : Int} (h : j ∈ commas tokens n i depth) : i ≤ j ∧ j < i + n := by
  induction n generalizing i depth with
  | zero => cases h
  | succ n ih =>
      rw [commas] at h
      split at h
      · cases h
      · dsimp only at h
        split at h
        · rcases List.mem_cons.mp h with rfl | h
          · omega
          · have := ih h
            omega
        · have := ih h
          omega

theorem pieces_moved (start stop : Nat) (is : List Nat) :
    pieces (start + k) (stop + k) (is.map (· + k)) = (pieces start stop is).map (movedBy k) := by
  induction is generalizing start with
  | nil => rfl
  | cons i is ih =>
      have next : i + k + 1 = i + 1 + k := by omega
      rw [List.map_cons, pieces, pieces, next, ih, List.map_cons, movedBy]

theorem commas_increase (n i : Nat) (depth : Int) : (commas tokens n i depth).Pairwise (· < ·) := by
  induction n generalizing i depth with
  | zero => exact .nil
  | succ n ih =>
      rw [commas]
      split
      · exact .nil
      · dsimp only
        split
        · refine .cons (fun j hj => ?_) (ih _ _)
          have := commas_bounds hj
          omega
        · exact ih _ _

theorem pieces_bounds {low start : Nat} {is : List Nat} {range : Nat × Nat} (hlow : low ≤ start) (hstart : start ≤ stop)
    (his : is.Pairwise (· < ·)) (hbounds : ∀ i ∈ is, start ≤ i ∧ i < stop) (h : range ∈ pieces start stop is) :
    low ≤ range.1 ∧ range.1 ≤ range.2 ∧ range.2 ≤ stop := by
  induction is generalizing start with
  | nil =>
      rw [pieces, List.mem_singleton] at h
      subst h
      exact ⟨hlow, hstart, Nat.le_refl _⟩
  | cons i is ih =>
      have first := hbounds i (by simp)
      rw [List.pairwise_cons] at his
      rw [pieces, List.mem_cons] at h
      rcases h with rfl | h
      · exact ⟨hlow, first.1, by omega⟩
      · refine ih (by omega) (by omega) his.2 (fun j hj => ?_) h
        exact ⟨his.1 j hj, (hbounds j (by simp [hj])).2⟩

theorem splitCommas_moved (start : Nat) (h : Moved k stop tokens tokens') :
    splitCommas tokens' (start + k) (stop + k) = (splitCommas tokens start stop).map (movedBy k) := by
  unfold splitCommas
  by_cases hle : stop ≤ start
  · simp [hle]
  · rw [if_neg hle, if_neg (by omega), Nat.add_sub_add_right, commas_moved 0 (h.mono (by omega)), pieces_moved]

theorem splitCommas_bounds {start : Nat} {range : Nat × Nat} (h : range ∈ splitCommas tokens start stop) :
    start ≤ range.1 ∧ range.1 ≤ range.2 ∧ range.2 ≤ stop := by
  unfold splitCommas at h
  split at h
  · cases h
  · refine pieces_bounds (Nat.le_refl _) (by omega) (commas_increase _ _ _) (fun i hi => ?_) h
    have := commas_bounds hi
    omega

end Scan

end StackScript
