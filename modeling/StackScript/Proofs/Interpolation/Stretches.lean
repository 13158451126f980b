/-
A double-quoted string as a sequence of stretches.

The scan for interpolated expressions takes one stretch after the other: a run of characters that stand for themselves,
an escape, a group in braces or a variable with what follows it.  The stretches cover the text exactly once.  The parts
of the string are the stretches, with the texts between two expressions put together.
-/
import StackScript.Proofs.Lexing.Rendering
import StackScript.Proofs.Termination

namespace StackScript

namespace StringLiteral

/-! ### What is taken -/

theorem takeGroup_split (left right : Char) (depth : Nat) (cs : List Char) :
    (takeGroup left right depth cs).1 ++ (takeGroup left right depth cs).2 = cs := by
  induction cs generalizing depth with
  | nil => rfl
  | cons c cs ih =>
      rw [takeGroup]
      split
      · rfl
      · exact congrArg (c :: ·) (ih _)

theorem takeVariable_split (n : Nat) (cs : List Char) : (takeVariable n cs).1 ++ (takeVariable n cs).2 = cs := by
  induction n generalizing cs with
  | zero => rfl
  | succ n ih =>
      have whole : cs.takeWhile (· == '$') ++ ((cs.dropWhile (· == '$')).takeWhile CharClass.isNameChar ++
          (cs.dropWhile (· == '$')).dropWhile CharClass.isNameChar) = cs := by
        rw [List.takeWhile_append_dropWhile, List.takeWhile_append_dropWhile]
      unfold takeVariable
      dsimp only
      generalize (cs.dropWhile (· == '$')).dropWhile CharClass.isNameChar = behind at whole ⊢
      split
      · simpa [takeGroup_split] using whole
      · simpa [takeGroup_split] using whole
      · simpa [ih] using whole
      · simpa [ih] using whole
      · simpa using whole

theorem takeDigits_split (n : Nat) (isDigit : Char → Bool) (cs : List Char) :
    takeDigits n isDigit cs ++ cs.drop (takeDigits n isDigit cs).length = cs :=
  List.prefix_iff_eq_append.mp ((List.takeWhile_prefix _).trans (List.take_prefix n cs))

theorem isHexDigit_of_isOctalDigit {c : Char} (h : CharClass.isOctalDigit c = true) : CharClass.isHexDigit c = true := by
  have range : '0' ≤ c ∧ c ≤ '7' := by simpa [CharClass.isOctalDigit] using h
  have digit : c.isDigit = true := by
    simp only [Char.isDigit, Bool.and_eq_true, decide_eq_true_eq]
    exact ⟨range.1, UInt32.le_trans range.2 (by decide)⟩
  simp [CharClass.isHexDigit, digit]

/-- Behind the first character of an escape, only digits belong to it. -/
theorem decodeEscape_cons (c : Char) (cs : List Char) :
    ∃ digits, cs = digits ++ (decodeEscape (c :: cs)).2 ∧ ∀ d ∈ digits, CharClass.isHexDigit d = true := by
  have none : ∃ digits, cs = digits ++ cs ∧ ∀ d ∈ digits, CharClass.isHexDigit d = true :=
    ⟨[], rfl, fun _ hd => absurd hd List.not_mem_nil⟩
  unfold decodeEscape
  dsimp only
  split
  · exact none
  split
  · exact ⟨_, (takeDigits_split 2 CharClass.isHexDigit cs).symm, Lexer.of_takeWhile _ _⟩
  split
  · exact ⟨_, (takeDigits_split 3 CharClass.isOctalDigit cs).symm,
      fun d hd => isHexDigit_of_isOctalDigit (Lexer.of_takeWhile _ _ d hd)⟩
  · exact none

/-- What an escape takes, and what it leaves. -/
theorem decodeEscape_split (cs : List Char) :
    cs.take (cs.length - (decodeEscape cs).2.length) ++ (decodeEscape cs).2 = cs := by
  cases cs with
  | nil => rfl
  | cons c cs =>
      obtain ⟨digits, hdigits, -⟩ := decodeEscape_cons c cs
      generalize (decodeEscape (c :: cs)).2 = rest at hdigits ⊢
      subst hdigits
      have count : (c :: (digits ++ rest)).length - rest.length = digits.length + 1 := by
        rw [List.length_cons, List.length_append]
        omega
      rw [count, List.take_succ_cons, List.take_left' rfl]
      rfl

/-! ### Stretches -/

/-- A stretch of a double-quoted string. -/
inductive Stretch where
  /-- Characters that stand for themselves. -/
  | run (cs : List Char)
  /-- What is taken behind a backslash, and what it stands for. -/
  | escape (taken decoded : List Char)
  /-- A group in braces, with its braces. -/
  | group (cs : List Char)
  /-- A variable and what directly follows it. -/
  | chain (cs : List Char)
deriving DecidableEq

namespace Stretch

/-- The characters of the text that the stretch covers. -/
def raw : Stretch → List Char
  | run cs => cs
  | escape taken _ => '\\' :: taken
  | group cs => cs
  | chain cs => cs

/-- The text that the stretch stands for. -/
def decoded : Stretch → List Char
  | run cs => cs
  | escape _ decoded => decoded
  | group _ => []
  | chain _ => []

/-- The source of the expression that is interpolated. -/
def splice? : Stretch → Option (List Char)
  | run _ => none
  | escape _ _ => none
  | group cs => some (groupInside cs)
  | chain cs => some cs

end Stretch

/-- The text that some stretches cover. -/
def covered (stretches : List Stretch) : List Char := stretches.flatMap Stretch.raw

/-- Whether a group opens in front of a text. -/
abbrev opensGroup (c : Char) (cs : List Char) : Prop := c = '\x7b' ∧ cs.head? = some '$'

/-- Whether a character stands for itself in front of a text. -/
def isPlain (c : Char) (cs : List Char) : Prop :=
  c ≠ '\\' ∧ ¬opensGroup c cs ∧ ¬(c = '$' ∧ cs.head?.any startsVariable = true)

instance (c : Char) (cs : List Char) : Decidable (isPlain c cs) := inferInstanceAs (Decidable (_ ∧ _ ∧ _))

/-- The characters in front of the first one that does not stand for itself. -/
def takeRun : List Char → List Char × List Char
  | [] => ([], [])
  | c :: cs => if isPlain c cs then (c :: (takeRun cs).1, (takeRun cs).2) else ([], c :: cs)

/-- The first stretch of a text that is not empty, and what follows it. -/
def takeStretch (c : Char) (cs : List Char) : Stretch × List Char :=
  if c = '\\' then
    (.escape (cs.take (cs.length - (decodeEscape cs).2.length)) (decodeEscape cs).1, (decodeEscape cs).2)
  else if opensGroup c cs then
    (.group (takeGroup '\x7b' '\x7d' 0 (c :: cs)).1, (takeGroup '\x7b' '\x7d' 0 (c :: cs)).2)
  else if c = '$' ∧ cs.head?.any startsVariable = true then
    (.chain (takeVariable (cs.length + 1) (c :: cs)).1, (takeVariable (cs.length + 1) (c :: cs)).2)
  else (.run (c :: (takeRun cs).1), (takeRun cs).2)

theorem takeStretch_plain {c : Char} {cs : List Char} (h : isPlain c cs) :
    takeStretch c cs = (.run (c :: (takeRun cs).1), (takeRun cs).2) := by
  rw [takeStretch, if_neg h.1, if_neg h.2.1, if_neg h.2.2]

def stretchesFrom : Nat → List Char → List Stretch
  | 0, _ => []
  | _ + 1, [] => []
  | n + 1, c :: cs => (takeStretch c cs).1 :: stretchesFrom n (takeStretch c cs).2

/-- The stretches of a double-quoted string.  Each takes at least one character. -/
def stretches (cs : List Char) : List Stretch := stretchesFrom cs.length cs

theorem takeRun_split (cs : List Char) : (takeRun cs).1 ++ (takeRun cs).2 = cs := by
  induction cs with
  | nil => rfl
  | cons c cs ih =>
      rw [takeRun]
      split
      · exact congrArg (c :: ·) ih
      · rfl

/-- A stretch covers what is in front of the rest. -/
theorem takeStretch_split (c : Char) (cs : List Char) : (takeStretch c cs).1.raw ++ (takeStretch c cs).2 = c :: cs := by
  unfold takeStretch
  split
  · rename_i hc
    subst hc
    exact congrArg ('\\' :: ·) (decodeEscape_split cs)
  split
  · exact takeGroup_split ..
  split
  · exact takeVariable_split ..
  · exact congrArg (c :: ·) (takeRun_split cs)

theorem takeStretch_ne_nil (c : Char) (cs : List Char) : (takeStretch c cs).1.raw ≠ [] := by
  unfold takeStretch
  split
  · exact List.cons_ne_nil _ _
  split
  · show (takeGroup _ _ 0 (c :: cs)).1 ≠ []
    rw [takeGroup]
    split <;> exact List.cons_ne_nil _ _
  split
  · rename_i hdollar
    obtain ⟨rfl, -⟩ := hdollar
    show (takeVariable (cs.length + 1) ('$' :: cs)).1 ≠ []
    unfold takeVariable
    dsimp only
    split <;> simp
  · exact List.cons_ne_nil _ _

theorem length_takeStretch (c : Char) (cs : List Char) : (takeStretch c cs).2.length ≤ cs.length := by
  have whole := congrArg List.length (takeStretch_split c cs)
  have taken := List.length_pos_iff.mpr (takeStretch_ne_nil c cs)
  rw [List.length_append, List.length_cons] at whole
  omega

/-- The stretches cover the text, one behind the other. -/
theorem covered_stretchesFrom {n : Nat} {cs : List Char} (hn : cs.length ≤ n) : covered (stretchesFrom n cs) = cs := by
  induction n generalizing cs with
  | zero =>
      obtain rfl : cs = [] := List.length_eq_zero_iff.mp (by omega)
      rfl
  | succ n ih =>
      cases cs with
      | nil => rfl
      | cons c cs =>
          rw [List.length_cons] at hn
          have rest := ih (Nat.le_trans (length_takeStretch c cs) (Nat.le_of_succ_le_succ hn))
          rw [covered] at rest
          rw [stretchesFrom, covered, List.flatMap_cons, rest, takeStretch_split]

/-! ### The parts of a string -/

/-- The parts that some stretches make, given the run of text started in front of them. -/
def join : Option (List Char) → List Stretch → List Part
  | run, [] => flush run
  | run, s :: ss =>
    match s.splice? with
    | some cs => flush run ++ .splice cs :: join none ss
    | none => join (some (run.getD [] ++ s.decoded)) ss

/-- An expression ends the run of text in front of it. -/
theorem join_splice (run : Option (List Char)) (before after : List Stretch) {s : Stretch} {cs : List Char}
    (hs : s.splice? = some cs) : join run (before ++ s :: after) = join run before ++ .splice cs :: join none after := by
  induction before generalizing run with
  | nil =>
      rw [List.nil_append, join.eq_def]
      simp only [hs]
      rfl
  | cons b before ih =>
      rw [List.cons_append, join, join]
      cases b.splice? with
      | some ds => simp [ih]
      | none => exact ih _

/-- A character that stands for itself goes on with the run of text, whether or not the next one does. -/
theorem join_takeRun (run : Option (List Char)) (c : Char) {n : Nat} {cs : List Char} (hn : cs.length ≤ n) :
    ∃ m, cs.length ≤ m ∧ join (some (run.getD [] ++ [c])) (stretchesFrom m cs) =
      join run (.run (c :: (takeRun cs).1) :: stretchesFrom n (takeRun cs).2) := by
  cases cs with
  | nil => exact ⟨n, hn, rfl⟩
  | cons d ds =>
      by_cases hd : isPlain d ds
      · refine ⟨n + 1, Nat.le_succ_of_le hn, ?_⟩
        rw [stretchesFrom, takeStretch_plain hd, takeRun, if_pos hd, join, join]
        simp [Stretch.splice?, Stretch.decoded]
      · refine ⟨n, hn, ?_⟩
        rw [takeRun, if_neg hd]
        rfl

theorem partsFrom_eq_join {n m : Nat} (run : Option (List Char)) {cs : List Char} (hn : cs.length ≤ n)
    (hm : cs.length ≤ m) : partsFrom n run cs = join run (stretchesFrom m cs) := by
  have none (run : Option (List Char)) (n m : Nat) : partsFrom n run [] = join run (stretchesFrom m []) := by
    cases n <;> cases m <;> rfl
  induction n generalizing m run cs with
  | zero =>
      obtain rfl : cs = [] := List.length_eq_zero_iff.mp (by omega)
      exact none run 0 m
  | succ n ih =>
      cases cs with
      | nil => exact none run (n + 1) m
      | cons c cs =>
          rw [List.length_cons] at hn hm
          obtain ⟨m, rfl⟩ : ∃ k, m = k + 1 := ⟨m - 1, by omega⟩
          have rest := length_takeStretch c cs
          rw [partsFrom, stretchesFrom]
          unfold takeStretch at rest ⊢
          by_cases hescape : c = '\\'
          · simp only [if_pos hescape] at rest ⊢
            exact ih _ (by omega) (by omega)
          by_cases hgroup : opensGroup c cs
          · simp only [if_neg hescape, if_pos hgroup] at rest ⊢
            rw [ih (m := m) _ (by omega) (by omega)]
            rfl
          by_cases hchain : c = '$' ∧ cs.head?.any startsVariable = true
          · simp only [if_neg hescape, if_neg hgroup, if_pos hchain] at rest ⊢
            rw [ih (m := m) _ (by omega) (by omega)]
            rfl
          · simp only [if_neg hescape, if_neg hgroup, if_neg hchain] at rest ⊢
            have hm : cs.length ≤ m := by omega
            obtain ⟨k, hk, same⟩ := join_takeRun run c hm
            rw [← same]
            exact ih _ (by omega) hk

/-- The parts of a string are its stretches, put together. -/
theorem parts_eq_join (cs : List Char) : parts cs = join none (stretches cs) :=
  partsFrom_eq_join none (Nat.le_refl _) (Nat.le_refl _)

end StringLiteral

end StackScript
