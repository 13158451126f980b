/-
Sets of code points, kept as ranges.

A property of characters that comes from a standard is a table of ranges, in ascending order and apart
from each other.  The order lets a search stop at the first range that starts behind the code point, and
`contains_iff` says that nothing is missed by stopping there.  All tables are those of Unicode 17.0.
-/
namespace StackScript

/-- Ranges of code points, ends included. -/
abbrev CodeRanges := List (Nat × Nat)

namespace CodeRanges

/-- Whether a code point lies in one of the ranges, which have to be ascending. -/
def contains : CodeRanges → Nat → Bool
  | [], _ => false
  | (first, last) :: rest, n => if n < first then false else n ≤ last || contains rest n

/-- Whether every range holds something, starts at `low` or later, and leaves a gap before the next. -/
def isAscendingFrom : Nat → CodeRanges → Bool
  | _, [] => true
  | low, (first, last) :: rest => low ≤ first && first ≤ last && isAscendingFrom (last + 2) rest

/-- How many code points the ranges hold. -/
def count (rs : CodeRanges) : Nat := rs.foldr (fun r n => r.2 + 1 - r.1 + n) 0

/-- Ascending ranges start no earlier than their bound. -/
theorem le_of_mem {low : Nat} {rs : CodeRanges} (h : isAscendingFrom low rs = true) :
    ∀ r ∈ rs, low ≤ r.1 := by
  induction rs generalizing low with
  | nil => simp
  | cons s rest ih =>
    obtain ⟨first, last⟩ := s
    simp only [isAscendingFrom, Bool.and_eq_true, decide_eq_true_eq] at h
    obtain ⟨⟨hlow, hle⟩, hrest⟩ := h
    intro r hr
    rcases List.mem_cons.1 hr with rfl | hr
    · exact hlow
    · have := ih hrest r hr
      omega

/-- A search of ascending ranges finds a code point exactly when one of them holds it. -/
theorem contains_iff {low : Nat} {rs : CodeRanges} (h : isAscendingFrom low rs = true) (n : Nat) :
    rs.contains n = true ↔ ∃ r ∈ rs, r.1 ≤ n ∧ n ≤ r.2 := by
  induction rs generalizing low with
  | nil => simp [contains]
  | cons s rest ih =>
    obtain ⟨first, last⟩ := s
    simp only [isAscendingFrom, Bool.and_eq_true, decide_eq_true_eq] at h
    obtain ⟨⟨-, hle⟩, hrest⟩ := h
    have hlater := le_of_mem hrest
    simp only [contains]
    split
    · rename_i hn
      constructor
      · simp
      · rintro ⟨r, hr, h1, -⟩
        rcases List.mem_cons.1 hr with rfl | hr
        · exact absurd h1 (by simpa using hn)
        · have := hlater r hr
          omega
    · rename_i hn
      simp only [Bool.or_eq_true, decide_eq_true_eq, ih hrest, List.mem_cons]
      constructor
      · rintro (hl | ⟨r, hr, h1, h2⟩)
        · exact ⟨(first, last), .inl rfl, by simpa using hn, hl⟩
        · exact ⟨r, .inr hr, h1, h2⟩
      · rintro ⟨r, rfl | hr, h1, h2⟩
        · exact .inl h2
        · exact .inr ⟨r, hr, h1, h2⟩

end CodeRanges

end StackScript
