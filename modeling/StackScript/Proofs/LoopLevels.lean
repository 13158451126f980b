/-
Which loop a jump is about.

A `break` or `continue` may be about an outer loop: it counts the loops and switches around it, the innermost one
first, as far as control flow may leave them.  The number it counts to is read as a decimal numeral of its own and not
as the integer literal it is written as.  The two agree on plain decimal literals below 2 ^ 32; behind the mark of a
radix, and from 2 ^ 32 on, a literal counts as no number, and then the jump is about the innermost loop.
-/
import StackScript.Proofs.Lexing.Rendering
import StackScript.Proofs.Resumption

namespace StackScript

/-! ### Loops in reach -/

namespace BlockStack

variable (s : BlockStack) (tags : List BlockTag)

/-- Among the first `n` blocks, those with any of the tags from which no boundary keeps control flow away, the
innermost one first. -/
def reachableFrom (n : Nat) : List Nat :=
  ((List.range n).filter fun id =>
    (s.get? id).any (·.hasAny tags) && ((s.blocks.toList.take n).drop (id + 1)).all fun b => !b.isBoundary).reverse

/-- The blocks with any of the tags from which no boundary keeps control flow away, the innermost one first. -/
def reachable : List Nat := s.reachableFrom tags s.blocks.size

theorem nodup_reachable : (s.reachable tags).Nodup :=
  (List.reverse_perm _).nodup_iff.mpr (List.nodup_range.filter _)

variable {s}

/-- A boundary hides every block around it. -/
theorem reachableFrom_succ {n : Nat} {b : Block} (hb : s.get? n = some b) :
    s.reachableFrom tags (n + 1) =
      (if b.hasAny tags then [n] else []) ++ (if b.isBoundary then [] else s.reachableFrom tags n) := by
  have hlist : s.blocks.toList[n]? = some b := by
    rw [Array.getElem?_toList]
    exact hb
  have hlength : n < s.blocks.toList.length := (List.getElem?_eq_some_iff.mp hlist).1
  have inside {id : Nat} (hid : id < n) :
      (s.blocks.toList.take (n + 1)).drop (id + 1) = (s.blocks.toList.take n).drop (id + 1) ++ [b] := by
    rw [List.take_add_one, hlist, List.drop_append_of_le_length (by rw [List.length_take]; omega)]
    rfl
  have innermost : (s.blocks.toList.take (n + 1)).drop (n + 1) = [] :=
    List.drop_of_length_le (by rw [List.length_take]; omega)
  have around : ((List.range n).filter fun id => (s.get? id).any (·.hasAny tags) &&
      ((s.blocks.toList.take (n + 1)).drop (id + 1)).all fun b => !b.isBoundary).reverse =
      if b.isBoundary then [] else s.reachableFrom tags n := by
    cases hboundary : b.isBoundary with
    | true =>
        rw [if_pos rfl, List.reverse_eq_nil_iff, List.filter_eq_nil_iff]
        intro id hid
        simp [inside (List.mem_range.mp hid), hboundary]
    | false =>
        rw [if_neg nofun, reachableFrom]
        congr 1
        refine List.filter_congr fun id hid => ?_
        simp [inside (List.mem_range.mp hid), hboundary]
  rw [← around, reachableFrom, List.range_succ, List.filter_append, List.reverse_append]
  congr 1
  simp only [List.filter_cons, List.filter_nil, innermost, hb, Option.any_some, List.all_nil, Bool.and_true]
  cases b.hasAny tags <;> rfl

theorem enclosingFrom_eq_reachableFrom {n : Nat} (hn : n ≤ s.blocks.size) (count : Nat) :
    s.enclosingFrom tags n count = (s.reachableFrom tags n)[max count 1 - 1]? := by
  induction n generalizing count with
  | zero => rfl
  | succ n ih =>
      obtain ⟨b, hb⟩ : ∃ b, s.get? n = some b := ⟨_, Array.getElem?_eq_getElem hn⟩
      rw [reachableFrom_succ tags hb, enclosingFrom, hb]
      dsimp only
      cases hmatch : b.hasAny tags with
      | false =>
          simp only [Bool.false_and, Bool.false_eq_true, if_false, List.nil_append, ih (Nat.le_of_succ_le hn)]
          split <;> rfl
      | true =>
          rw [Bool.true_and, if_pos rfl, if_pos rfl, List.singleton_append]
          by_cases hcount : count ≤ 1
          · rw [if_pos (decide_eq_true hcount), show max count 1 - 1 = 0 by omega]
            rfl
          · rw [if_neg (by simpa using hcount), ih (Nat.le_of_succ_le hn),
              show max count 1 - 1 = (max (count - 1) 1 - 1) + 1 by omega, List.getElem?_cons_succ]
            split <;> rfl

/-- The search finds the block that is counted to. -/
theorem enclosing?_eq_reachable (level : Nat) : s.enclosing? tags level = (s.reachable tags)[max level 1 - 1]? :=
  enclosingFrom_eq_reachableFrom tags (Nat.le_refl _) level

variable (s)

/-- Two numbers lead to the same block, or both to none, exactly if they are the same or both are too large. -/
theorem getElem?_reachable_inj (i j : Nat) : (s.reachable tags)[i]? = (s.reachable tags)[j]? ↔
    i = j ∨ (s.reachable tags).length ≤ i ∧ (s.reachable tags).length ≤ j := by
  constructor
  · intro h
    by_cases hi : i < (s.reachable tags).length
    · exact .inl ((List.getElem?_inj hi (s.nodup_reachable tags)).mp h)
    · rw [List.getElem?_eq_none (Nat.not_lt.mp hi)] at h
      exact .inr ⟨Nat.not_lt.mp hi, List.getElem?_eq_none_iff.mp h.symm⟩
  · rintro (rfl | ⟨hi, hj⟩)
    · rfl
    · rw [List.getElem?_eq_none hi, List.getElem?_eq_none hj]

end BlockStack

/-! ### Integer literals -/

namespace IntegerLiteral

/-- The number a literal stands for, however large. -/
def magnitude (cs : List Char) : Nat := digitsValue (split cs).1 (split cs).2

/-- An integer literal is a run of decimal digits, or has the mark of a radix behind a zero. -/
inductive Written : List Char → Prop
  | decimal {ds : List Char} (hds : ∀ d ∈ ds, d.isDigit = true) : Written ds
  | marked {mark : Char} (hmark : mark ∈ ['x', 'X', 'b', 'B']) (ds : List Char) : Written ('0' :: mark :: ds)

theorem split_decimal {ds : List Char} (hds : ∀ d ∈ ds, d.isDigit = true) :
    split ds = (10, ds) ∧ (∀ d ds', ds = '0' :: d :: ds' → (d :: ds').all CharClass.isOctalDigit = false) ∨
      ∃ d ds', ds = '0' :: d :: ds' ∧ (d :: ds').all CharClass.isOctalDigit = true ∧ split ds = (8, d :: ds') := by
  unfold split
  split
  · exact absurd (hds 'x' (by simp)) (by decide)
  · exact absurd (hds 'X' (by simp)) (by decide)
  · exact absurd (hds 'b' (by simp)) (by decide)
  · exact absurd (hds 'B' (by simp)) (by decide)
  · rename_i d ds' _ _ _ _
    split
    · rename_i hoctal
      exact .inr ⟨d, ds', rfl, hoctal, rfl⟩
    · rename_i hother
      refine .inl ⟨rfl, ?_⟩
      rintro _ _ ⟨⟩
      exact Bool.eq_false_iff.mpr hother
  · rename_i hshort
    exact .inl ⟨rfl, fun d ds' hds' => absurd hds' (hshort d ds')⟩

theorem radix_marked {mark : Char} (hmark : mark ∈ ['x', 'X', 'b', 'B']) (ds : List Char) :
    (split ('0' :: mark :: ds)).1 = 2 ∨ (split ('0' :: mark :: ds)).1 = 16 := by
  simp only [List.mem_cons, List.not_mem_nil, or_false] at hmark
  rcases hmark with rfl | rfl | rfl | rfl
  · exact .inr rfl
  · exact .inr rfl
  · exact .inl rfl
  · exact .inl rfl

theorem not_isDigit_mark {mark : Char} (hmark : mark ∈ ['x', 'X', 'b', 'B']) : mark.isDigit = false := by
  simp only [List.mem_cons, List.not_mem_nil, or_false] at hmark
  rcases hmark with rfl | rfl | rfl | rfl <;> rfl

end IntegerLiteral

namespace Lexer

open IntegerLiteral (Written)

theorem written_scanDecimal {cs : List Char} (h : (scanDecimal cs).kind = some .integer) :
    Written (scanDecimal cs).text := by
  unfold scanDecimal at h ⊢
  dsimp only at h ⊢
  split at h
  · rename_i hnone
    obtain ⟨hfraction, hexponent⟩ : (takeFraction (cs.dropWhile Char.isDigit)).1 = [] ∧
        (takeExponent (takeFraction (cs.dropWhile Char.isDigit)).2).1 = [] := by simpa using hnone
    rw [hfraction, hexponent, List.append_nil, List.append_nil]
    exact .decimal (of_takeWhile _ _)
  · cases h

theorem written_scanNumber {cs : List Char} (h : (scanNumber cs).kind = some .integer) :
    Written (scanNumber cs).text := by
  unfold scanNumber at h ⊢
  split at h
  · split at h
    · rename_i hmark
      rw [if_pos hmark]
      exact .marked (by rcases hmark with rfl | rfl <;> decide) _
    · rename_i hhex
      rw [if_neg hhex]
      split at h
      · rename_i hmark
        rw [if_pos hmark]
        exact .marked (by rcases hmark with rfl | rfl <;> decide) _
      · rename_i hbinary
        rw [if_neg hbinary]
        exact written_scanDecimal h
  · exact written_scanDecimal h

theorem wordKind_ne_integer (text : String) : wordKind text ≠ .integer := by
  unfold wordKind
  split
  · exact TokenKind.noConfusion
  · split <;> exact TokenKind.noConfusion

theorem signKind_ne_integer (text : String) : signKind text ≠ .integer := by
  unfold signKind
  split
  · rename_i hkind
    have := mem_of_lookup hkind
    rintro rfl
    simp [signTable] at this
  · split <;> exact TokenKind.noConfusion

/-- Only a number is an integer. -/
theorem scan_integer {c : Char} {cs : List Char} (h : (scan c cs).kind = some .integer) :
    c.isDigit = true ∧ scan c cs = scanNumber (c :: cs) := by
  have text {kind : TokenKind} {quote : Char} {body : List Char × List Char} (hkind : kind ≠ .integer) :
      (closeString kind quote body).kind ≠ some .integer := by
    rw [kind_closeString]
    exact fun h => hkind (Option.some.inj h)
  refine scan_cases (motive := fun s => s.kind = some .integer → c.isDigit = true ∧ s = scanNumber (c :: cs))
    (fun _ h => nomatch h) (fun _ h => nomatch h) (fun _ h => absurd h (text nofun))
    (fun _ h => absurd h (text nofun)) (fun hdigit _ => ⟨hdigit, rfl⟩)
    (fun _ h => absurd (Option.some.inj h) (wordKind_ne_integer _)) (fun _ h => ?paren)
    (fun _ _ _ h => absurd (Option.some.inj h) (signKind_ne_integer _)) h
  unfold scanParen at h
  split at h <;> cases h

/-- What is lexed was scanned from some character on. -/
theorem mem_run {n : Nat} {p : Position} {cs : List Char} {l : Lexed} (hl : l ∈ run n p cs) :
    ∃ c rest start, l = (scan c rest).toLexed start := by
  induction n generalizing p cs with
  | zero => cases hl
  | succ n ih =>
      rw [run] at hl
      cases hrest : (skipBlanks cs).2 with
      | nil => simp [hrest] at hl
      | cons c rest =>
          simp only [hrest] at hl
          rcases List.mem_cons.mp hl with rfl | hlater
          · exact ⟨_, _, _, rfl⟩
          · exact ih hlater

theorem written_run {n : Nat} {p : Position} {cs : List Char} {t : Token} (ht : t ∈ (run n p cs).filterMap Lexed.token)
    (hkind : t.kind = .integer) : Written t.text.toList := by
  obtain ⟨l, hl, htoken⟩ := List.mem_filterMap.mp ht
  obtain ⟨c, rest, start, rfl⟩ := mem_run hl
  obtain ⟨kind, hscan, rfl⟩ := Option.map_eq_some_iff.mp htoken
  have hinteger : (scan c rest).kind = some .integer := hscan.trans (congrArg some hkind)
  have hnumber := (scan_integer hinteger).2
  rw [hnumber] at hinteger
  rw [String.toList_ofList, hnumber]
  exact written_scanNumber hinteger

end Lexer

/-! ### Levels -/

namespace Parse

open IntegerLiteral (Written magnitude)

variable {t : Token}

theorem jumpLevel_decimal (h : ∀ d ∈ t.text.toList, d.isDigit = true) :
    jumpLevel t = if digitsValue 10 t.text.toList < twoPow 32 then digitsValue 10 t.text.toList else 0 := by
  simp [jumpLevel, List.all_eq_true.mpr h]

theorem jumpLevel_other {d : Char} (hd : d ∈ t.text.toList) (h : d.isDigit = false) : jumpLevel t = 0 := by
  have hall : t.text.toList.all Char.isDigit = false := List.all_eq_false.mpr ⟨d, hd, by rw [h]; exact nofun⟩
  simp [jumpLevel, hall]

/-- The level of a literal in each radix. -/
theorem jumpLevel_written (h : Written t.text.toList) :
    (IntegerLiteral.split t.text.toList).1 = 10 ∧
        jumpLevel t = (if magnitude t.text.toList < twoPow 32 then magnitude t.text.toList else 0) ∨
      (IntegerLiteral.split t.text.toList).1 = 8 ∧
        jumpLevel t = (if digitsValue 10 t.text.toList < twoPow 32 then digitsValue 10 t.text.toList else 0) ∨
      ((IntegerLiteral.split t.text.toList).1 = 2 ∨ (IntegerLiteral.split t.text.toList).1 = 16) ∧ jumpLevel t = 0 := by
  generalize htext : t.text.toList = cs at h
  cases h with
  | decimal hds =>
      have level := jumpLevel_decimal (t := t) (by rwa [htext])
      rw [htext] at level
      rcases IntegerLiteral.split_decimal hds with ⟨hsplit, -⟩ | ⟨d, ds', -, -, hsplit⟩
      · refine .inl ⟨by rw [hsplit], ?_⟩
        rw [magnitude, hsplit]
        exact level
      · exact .inr (.inl ⟨by rw [hsplit], level⟩)
  | marked hmark ds =>
      exact .inr (.inr ⟨IntegerLiteral.radix_marked hmark ds,
        jumpLevel_other (by rw [htext]; simp) (IntegerLiteral.not_isDigit_mark hmark)⟩)

end Parse

/-- The loop or switch that is counted to, the innermost one in reach being the first; zero counts as one. -/
def GenState.loopAt? (g : GenState) (count : Nat) : Option Nat := (g.blocks.reachable [.loop])[max count 1 - 1]?

namespace Gen

/-- A jump is about the loop that its level counts to, and an error when there are not so many. -/
theorem after_loopJump (jump : LoopJump) (line level : Nat) (unterminated : Bool) (g : GenState) :
    ((g.blocks.reachable [.loop]).length < max level 1 →
      after (loopJump jump line level unterminated) g =
        { g with reports := g.reports ++ [⟨line, .jumpOutsideLoop jump⟩] }) ∧
    ∀ id, g.loopAt? level = some id → ∃ target, g.blocks.get? id = some target ∧
      after (loopJump jump line level unterminated) g =
        after (do
          recordJump id
          jumpOn jump id target
          if unterminated then report line (.jumpWithoutSemicolon jump)) g := by
  have found : g.blocks.enclosing? [.loop] level = g.loopAt? level := BlockStack.enclosing?_eq_reachable _ level
  constructor
  · intro hfew
    have none : g.loopAt? level = none := List.getElem?_eq_none (by omega)
    unfold loopJump
    simp only [after_bind, after_get, result_get, found, none]
    exact after_report ..
  · intro id hid
    have member : id ∈ g.blocks.reachable [.loop] := List.mem_of_getElem? hid
    have inside : id < g.blocks.blocks.size :=
      List.mem_range.mp (List.mem_filter.mp (List.mem_reverse.mp member)).1
    have target : g.blocks.get? id = some g.blocks.blocks[id] := Array.getElem?_eq_getElem inside
    refine ⟨_, target, ?_⟩
    unfold loopJump
    simp only [after_bind, after_get, result_get, found, hid, target]

end Gen

namespace Parse

open IntegerLiteral (magnitude)

/-- A `break` or `continue` with an integer literal is about the loop or switch that its level counts to, among those
from which no function and no catch body keeps it away, and an error when there are not so many.  The level of a decimal
literal is its value, of a literal with a leading zero what its digits are in decimal, and zero where that is 2 ^ 32 or
more; a literal with the mark of a radix has the level zero.  So the loop is the one that the value of the literal
counts to exactly if the two count to the same place, or both beyond the last loop. -/
theorem loopJump_selects {source : String} {line : Nat} {t : Token} (ht : t ∈ (Tokens.ofSource source line).tokens)
    (hkind : t.kind = .integer) {s : TokenStream} (hnumber : s.jumpNumber? = some t) (jump : LoopJump) (g : GenState) :
    let loops := g.blocks.reachable [.loop]
    let level := jumpLevel t
    let value := magnitude t.text.toList
    (loops.length < max level 1 →
      Gen.after ((loopJump jump).run s).1.gen g =
        { g with reports := g.reports ++ [⟨s.line, .jumpOutsideLoop jump⟩] }) ∧
    (∀ id, g.loopAt? level = some id → ∃ target, g.blocks.get? id = some target ∧
      Gen.after ((loopJump jump).run s).1.gen g =
        Gen.after (do
          Gen.recordJump id
          Gen.jumpOn jump id target
          if s.jumpUnterminated then Gen.report s.line (.jumpWithoutSemicolon jump)) g) ∧
    ((IntegerLiteral.split t.text.toList).1 = 10 ∧ level = (if value < twoPow 32 then value else 0) ∨
      (IntegerLiteral.split t.text.toList).1 = 8 ∧
        level = (if digitsValue 10 t.text.toList < twoPow 32 then digitsValue 10 t.text.toList else 0) ∨
      ((IntegerLiteral.split t.text.toList).1 = 2 ∨ (IntegerLiteral.split t.text.toList).1 = 16) ∧ level = 0) ∧
    (g.loopAt? level = g.loopAt? value ↔
      max level 1 = max value 1 ∨ loops.length < max level 1 ∧ loops.length < max value 1) := by
  intro loops level value
  have word : s.pos < s.stop := by
    have := (TokenStream.lt_of_jumpNumber? hnumber).1
    omega
  have generated : ((loopJump jump).run s).1.gen = Gen.loopJump jump s.line level s.jumpUnterminated := by
    rw [run_loopJump jump word, hnumber]
    rfl
  rw [generated]
  obtain ⟨few, enough⟩ := Gen.after_loopJump jump s.line level s.jumpUnterminated g
  refine ⟨few, enough, jumpLevel_written (Lexer.written_run ht hkind), ?_⟩
  have hlevel : 1 ≤ max level 1 := Nat.le_max_right ..
  have hvalue : 1 ≤ max value 1 := Nat.le_max_right ..
  refine (g.blocks.getElem?_reachable_inj [.loop] (max level 1 - 1) (max value 1 - 1)).trans ?_
  show _ ∨ loops.length ≤ _ ∧ loops.length ≤ _ ↔ _
  omega

/-- The value of the literal is two, and the jump is about the innermost of two loops. -/
theorem loopJump_selects_innermost :
    let s := TokenStream.ofList (Tokens.ofSource "break 0x2;" 1).tokens
    let loop : Block := { tags := [.loop], first := 0, owner := .none }
    let g := { GenState.initial {} with blocks := ⟨BlockStack.root.blocks ++ #[loop, loop]⟩ }
    Gen.after ((loopJump .break_).run s).1.gen g =
        Gen.after (do
          Gen.recordJump 2
          Gen.jumpOn .break_ 2 loop) g ∧
      magnitude "0x2".toList = 2 ∧ g.loopAt? 2 = some 1 := by
  intro s loop g
  have number : s.jumpNumber? = some ⟨.integer, "0x2", 1⟩ := by decide +kernel
  have read : (⟨.integer, "0x2", 1⟩ : Token) ∈ (Tokens.ofSource "break 0x2;" 1).tokens := by decide +kernel
  obtain ⟨-, about, -, -⟩ := loopJump_selects read rfl number .break_ g
  obtain ⟨target, htarget, hafter⟩ := about 2 (by decide +kernel)
  obtain rfl : loop = target := Option.some.inj htarget
  have terminated : s.jumpUnterminated = false := by decide +kernel
  rw [terminated] at hafter
  exact ⟨hafter, by decide, by decide +kernel⟩

end Parse

end StackScript
