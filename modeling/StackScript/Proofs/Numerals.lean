/-
What an integer literal stands for.

A literal is written in one of four notations, and its digits have a value in the radix of the notation, however many
of them there are: `Denotes` says so without regard to how literals are read.  The lexer makes an integer without an
error only of a text that denotes a number.  What is loaded for it depends on the number alone, apart from the notation
where the number is too large.
-/
import Mathlib.Data.List.TakeWhile
import Mathlib.Data.Nat.Digits.Defs
import StackScript.Proofs.Constants
import StackScript.Proofs.LoopLevels

namespace StackScript

namespace IntegerLiteral

/-! ### Notations -/

/-- The digits in front of the last one count for one more power of the radix each. -/
def valueIn (radix : Nat) (ds : List Char) : Nat := Nat.ofDigits radix (ds.reverse.map digitValue)

example : ("0123456789abcdef".toList.map digitValue, "ABCDEF".toList.map digitValue) =
    (List.range 16, [10, 11, 12, 13, 14, 15]) := by decide

/-- The text has at least two digits, octal ones only, and the first one is zero. -/
def IsOctal (cs : List Char) : Prop := ∃ ds, ds ≠ [] ∧ cs = '0' :: ds ∧ ∀ d ∈ ds, CharClass.isOctalDigit d = true

/-- A text is a literal in a radix for a number. -/
inductive Denotes : List Char → Nat → Nat → Prop
  | hexadecimal {mark : Char} {ds : List Char} (hmark : mark = 'x' ∨ mark = 'X') (hne : ds ≠ [])
      (hds : ∀ d ∈ ds, CharClass.isHexDigit d = true) : Denotes ('0' :: mark :: ds) 16 (valueIn 16 ds)
  | binary {mark : Char} {ds : List Char} (hmark : mark = 'b' ∨ mark = 'B') (hne : ds ≠ [])
      (hds : ∀ d ∈ ds, d = '0' ∨ d = '1') : Denotes ('0' :: mark :: ds) 2 (valueIn 2 ds)
  | octal {ds : List Char} (hds : IsOctal ds) : Denotes ds 8 (valueIn 8 ds)
  | decimal {ds : List Char} (hne : ds ≠ []) (hds : ∀ d ∈ ds, d.isDigit = true) (hoctal : ¬IsOctal ds) :
      Denotes ds 10 (valueIn 10 ds)

theorem digitsValue_eq (radix : Nat) (ds : List Char) : digitsValue radix ds = valueIn radix ds := by
  rw [valueIn, Nat.ofDigits_eq_foldr, List.foldr_map, List.foldr_reverse, digitsValue]
  congr 1
  funext v d
  rw [Nat.add_comm, Nat.mul_comm]
  rfl

theorem isDigit_of_isOctalDigit {d : Char} (h : CharClass.isOctalDigit d = true) : d.isDigit = true := by
  simp only [CharClass.isOctalDigit, Char.isDigit, Bool.and_eq_true, decide_eq_true_eq, ge_iff_le] at h ⊢
  exact ⟨h.1, Nat.le_trans h.2 (by decide)⟩

/-- Digits that are no octal literal are all digits of the decimal one. -/
theorem split_digits {ds : List Char} (hds : ∀ d ∈ ds, d.isDigit = true) :
    split ds = (10, ds) ∧ ¬IsOctal ds ∨ ∃ ds', ds = '0' :: ds' ∧ split ds = (8, ds') ∧ IsOctal ds := by
  rcases split_decimal hds with ⟨hsplit, hother⟩ | ⟨d, ds', rfl, hoctal, hsplit⟩
  · refine .inl ⟨hsplit, ?_⟩
    rintro ⟨ds', hne, rfl, hoctal⟩
    obtain ⟨d, ds'', rfl⟩ := List.exists_cons_of_ne_nil hne
    exact Bool.eq_false_iff.mp (hother d ds'' rfl) (List.all_eq_true.mpr hoctal)
  · exact .inr ⟨d :: ds', rfl, hsplit, d :: ds', List.cons_ne_nil _ _, rfl, List.all_eq_true.mp hoctal⟩

theorem IsOctal.isDigit {ds : List Char} (h : IsOctal ds) : ∀ d ∈ ds, d.isDigit = true := by
  obtain ⟨ds', -, rfl, hds⟩ := h
  intro d hd
  rcases List.mem_cons.mp hd with rfl | hd
  · rfl
  · exact isDigit_of_isOctalDigit (hds d hd)

/-- A leading zero does not count. -/
theorem digitsValue_zero (radix : Nat) (ds : List Char) : digitsValue radix ('0' :: ds) = digitsValue radix ds := by
  show List.foldl _ (0 * radix + digitValue '0') ds = _
  rw [Nat.zero_mul]
  rfl

/-- Reading a text comes to the number it denotes. -/
theorem Denotes.read {cs : List Char} {radix v : Nat} (h : Denotes cs radix v) :
    IntegerLiteral.read cs = ofValue radix v := by
  cases h with
  | hexadecimal hmark =>
      rw [← digitsValue_eq]
      rcases hmark with rfl | rfl <;> rfl
  | binary hmark =>
      rw [← digitsValue_eq]
      rcases hmark with rfl | rfl <;> rfl
  | octal hds =>
      obtain ⟨-, hno⟩ | ⟨ds', rfl, hsplit, -⟩ := split_digits hds.isDigit
      · exact absurd hds hno
      · rw [IntegerLiteral.read, hsplit, ← digitsValue_eq, digitsValue_zero]
  | decimal _ hds hoctal =>
      obtain ⟨hsplit, -⟩ | ⟨_, _, _, hyes⟩ := split_digits hds
      · rw [IntegerLiteral.read, hsplit, digitsValue_eq]
      · exact absurd hyes hoctal

/-- Digits denote a number. -/
theorem denotes_digits {ds : List Char} (hne : ds ≠ []) (hds : ∀ d ∈ ds, d.isDigit = true) :
    ∃ radix v, Denotes ds radix v := by
  by_cases hoctal : IsOctal ds
  · exact ⟨8, _, .octal hoctal⟩
  · exact ⟨10, _, .decimal hne hds hoctal⟩

/-! ### Values -/

/-- The upper half of the unsigned range is negative. -/
theorem toInt_ofNat_high {v : Nat} (h : 2 ^ 63 ≤ v) (h' : v < 2 ^ 64) : (Int64.ofNat v).toInt = v - 2 ^ 64 := by
  rw [Int64.toInt_ofNat', Int.bmod_eq_iff (by decide), show Int64.size = 2 ^ 64 from rfl]
  exact ⟨by omega, by omega, -1, by omega⟩

end IntegerLiteral

/-- A decimal literal without a point and an exponent stands for the real nearest to its value. -/
theorem readReal_digits {ds : List Char} (hds : ∀ d ∈ ds, d.isDigit = true) :
    readReal ds = Binary64.ofDecimal (IntegerLiteral.valueIn 10 ds) 0 := by
  have whole : ds.takeWhile Char.isDigit = ds := List.takeWhile_eq_self_iff.mpr hds
  have rest : ds.dropWhile Char.isDigit = [] := List.dropWhile_eq_nil_iff.mpr hds
  unfold readReal DecimalLiteral.split DecimalLiteral.value
  simp only [whole, rest, List.append_nil, List.length_nil, IntegerLiteral.digitsValue_eq]
  rfl

theorem IntegerLiteral.Denotes.readReal {ds : List Char} {v : Nat} (h : Denotes ds 10 v) :
    StackScript.readReal ds = Binary64.ofDecimal v 0 := by
  cases h with
  | decimal _ hds => exact readReal_digits hds

namespace Lexer

open IntegerLiteral (Denotes)

variable {c : Char} {cs : List Char}

theorem denotes_scanDecimal (hc : c.isDigit = true) (h : (scanDecimal (c :: cs)).kind = some .integer) :
    ∃ radix v, Denotes (scanDecimal (c :: cs)).text radix v := by
  unfold scanDecimal at h ⊢
  dsimp only at h ⊢
  split at h
  · rename_i hnone
    obtain ⟨hfraction, hexponent⟩ : (takeFraction ((c :: cs).dropWhile Char.isDigit)).1 = [] ∧
        (takeExponent (takeFraction ((c :: cs).dropWhile Char.isDigit)).2).1 = [] := by simpa using hnone
    rw [hfraction, hexponent, List.append_nil, List.append_nil]
    refine IntegerLiteral.denotes_digits ?_ (of_takeWhile _ _)
    rw [List.takeWhile_cons_of_pos hc]
    exact List.cons_ne_nil _ _
  · cases h

/-- A marked number without an error has digits. -/
theorem ne_nil_of_fault {mark : Char} {isDigit : Char → Bool} {fault : LexFault}
    (h : (scanMarked mark isDigit fault cs).fault = none) : cs.takeWhile isDigit ≠ [] := by
  intro hnil
  simp [scanMarked, hnil] at h

theorem denotes_scanNumber (hc : c.isDigit = true)
    (h : (scanNumber (c :: cs)).kind = some .integer ∧ (scanNumber (c :: cs)).fault = none) :
    ∃ radix v, Denotes (scanNumber (c :: cs)).text radix v := by
  unfold scanNumber at h ⊢
  split at h
  · rename_i heq
    cases heq
    split at h
    · rename_i hmark
      rw [if_pos hmark]
      exact ⟨16, _, .hexadecimal hmark (ne_nil_of_fault h.2) (of_takeWhile _ _)⟩
    · rename_i hhex
      rw [if_neg hhex]
      split at h
      · rename_i hmark
        rw [if_pos hmark]
        refine ⟨2, _, .binary hmark (ne_nil_of_fault h.2) fun d hd => ?_⟩
        simpa using of_takeWhile _ _ d hd
      · rename_i hbinary
        rw [if_neg hbinary]
        exact denotes_scanDecimal hc h.1
  · exact denotes_scanDecimal hc h.1

/-- An integer that the lexer produces without an error denotes a number. -/
theorem denotes_lexeme {source : String} {line : Nat} {l : Lexer.Lexed} (hl : l ∈ lexemes source line) (herror : l.error = none)
    {t : Token} (ht : l.token = some t) (hkind : t.kind = .integer) : ∃ radix v, Denotes t.text.toList radix v := by
  obtain ⟨c, rest, start, rfl⟩ := mem_run hl
  obtain ⟨kind, hscan, rfl⟩ := Option.map_eq_some_iff.mp ht
  have hinteger : (scan c rest).kind = some .integer := hscan.trans (congrArg some hkind)
  obtain ⟨hdigit, hnumber⟩ := scan_integer hinteger
  have hfault : (scan c rest).fault = none := Option.map_eq_none_iff.mp herror
  rw [hnumber] at hinteger hfault
  rw [String.toList_ofList, hnumber]
  exact denotes_scanNumber hdigit ⟨hinteger, hfault⟩

end Lexer

/-! ### What is loaded -/

namespace ConstantPool

theorem get?_addInt (p : ConstantPool) (v : Int64) : (p.addInt v).2.get? (p.addInt v).1 = some (.int v) := by
  obtain ⟨d, hd, rfl | hsame⟩ := p.get?_intern_same (.int v)
  · exact hd
  · cases d <;> simp only [Constant.same, Bool.false_eq_true, beq_iff_eq] at hsame
    subst hsame
    exact hd

theorem get?_addReal (p : ConstantPool) (x : Binary64) :
    ∃ y, (p.addReal x).2.get? (p.addReal x).1 = some (.real y) ∧ y.same x = true := by
  obtain ⟨d, hd, rfl | hsame⟩ := p.get?_intern_same (.real x)
  · exact ⟨x, hd, by simp [Binary64.same]⟩
  · cases d <;> simp only [Constant.same, Bool.false_eq_true] at hsame
    exact ⟨_, hd, hsame⟩

end ConstantPool

/-- Between two states an instruction that loads a constant is emitted, and no message is reported. -/
def GenState.Loads (s t : GenState) (c : Constant) : Prop :=
  ∃ slot, t.program.constants.get? slot = some c ∧ t.code = s.code.push ⟨.loadc, 0, slot, .none, s.buffer.line⟩ ∧
    t.reports = s.reports

namespace Gen

variable (s : GenState)

theorem loads_int (v : Int64) : s.Loads (after (loadConstant (·.addInt v)) s) (.int v) := by
  unfold loadConstant loadSlot
  rw [after_bind, after_put]
  exact ⟨_, s.program.constants.get?_addInt v, rfl, rfl⟩

theorem loads_real (x : Binary64) : ∃ y, y.same x = true ∧ s.Loads (after (loadConstant (·.addReal x)) s) (.real y) := by
  obtain ⟨y, hy, hsame⟩ := s.program.constants.get?_addReal x
  unfold loadConstant loadSlot
  rw [after_bind, after_put]
  exact ⟨y, hsame, _, hy, rfl, rfl⟩

open IntegerLiteral (Denotes)

/-- What a number is compiled to depends on what its text denotes. -/
theorem number_denoted {t : Token} {radix v : Nat} (hkind : t.kind = .integer) (hvalue : Denotes t.text.toList radix v) :
    number t = if v < 2 ^ 64 then loadConstant (·.addInt (Int64.ofNat v))
      else if radix = 10 then loadConstant (·.addReal (readReal t.text.toList))
      else (do
        report t.line (.numberOutOfRange t.text)
        loadConstant (·.addInt Int64.maxValue)) := by
  have integer : t.is .integer = true := by
    rw [Token.is, hkind]
    rfl
  rw [number, if_pos integer, hvalue.read, IntegerLiteral.ofValue]
  by_cases h : v < twoPow 64
  · rw [if_pos h]
    exact (if_pos h).symm
  · rw [if_neg h]
    exact (if_neg h).symm

end Gen

/-! ### Main result -/

open IntegerLiteral (Denotes)

/-- An integer that the lexer produces without an error denotes a number in one of the four notations, however long it
is.  Below 2 ^ 63 the number itself is loaded; below 2 ^ 64 it wraps around; from there on a decimal literal is the
nearest real, and in any other notation the largest integer is loaded, with a warning. -/
theorem Gen.number_loads {source : String} {line : Nat} {l : Lexer.Lexed} (hl : l ∈ Lexer.lexemes source line)
    (herror : l.error = none) {t : Token} (ht : l.token = some t) (hkind : t.kind = .integer) :
    (∃ radix v, Denotes t.text.toList radix v) ∧ ∀ radix v, Denotes t.text.toList radix v → ∀ s : GenState,
      (v < 2 ^ 63 → ∃ i : Int64, i.toInt = v ∧ s.Loads (after (number t) s) (.int i)) ∧
      (2 ^ 63 ≤ v → v < 2 ^ 64 → ∃ i : Int64, i.toInt = v - 2 ^ 64 ∧ s.Loads (after (number t) s) (.int i)) ∧
      (2 ^ 64 ≤ v → radix = 10 →
        ∃ x, x.same (Binary64.ofDecimal v 0) = true ∧ s.Loads (after (number t) s) (.real x)) ∧
      (2 ^ 64 ≤ v → radix ≠ 10 →
        (Problem.numberOutOfRange t.text).severity = .warning ∧ ∃ i : Int64, i.toInt = 2 ^ 63 - 1 ∧
          GenState.Loads { s with reports := s.reports ++ [⟨t.line, .numberOutOfRange t.text⟩] }
            (after (number t) s) (.int i)) := by
  refine ⟨Lexer.denotes_lexeme hl herror ht hkind, fun radix v hvalue s => ?_⟩
  rw [number_denoted hkind hvalue]
  refine ⟨fun hlow => ?_, fun hhigh hwide => ?_, fun hlarge hdecimal => ?_, fun hlarge hother => ?_⟩
  · rw [if_pos (Nat.lt_trans hlow (by decide))]
    exact ⟨_, Int64.toInt_ofNat_of_lt hlow, loads_int s _⟩
  · rw [if_pos hwide]
    exact ⟨_, IntegerLiteral.toInt_ofNat_high hhigh hwide, loads_int s _⟩
  · subst hdecimal
    rw [if_neg (Nat.not_lt.mpr hlarge), if_pos rfl, hvalue.readReal]
    exact loads_real s _
  · rw [if_neg (Nat.not_lt.mpr hlarge), if_neg hother, after_bind, after_report]
    exact ⟨rfl, _, rfl, loads_int _ _⟩

/-- All bits set are minus one. -/
theorem Gen.number_loads_bits : ∃ i : Int64, i.toInt = -1 ∧
    (GenState.initial {}).Loads (after (number ⟨.integer, "0xFFFFFFFFFFFFFFFF", 1⟩) (GenState.initial {})) (.int i) := by
  have lexed : ⟨some ⟨.integer, "0xFFFFFFFFFFFFFFFF", 1⟩, none⟩ ∈ Lexer.lexemes "0xFFFFFFFFFFFFFFFF" 1 :=
    List.mem_of_getElem? (i := 0) rfl
  have denotes : Denotes "0xFFFFFFFFFFFFFFFF".toList 16 (2 ^ 64 - 1) :=
    @Denotes.hexadecimal 'x' "FFFFFFFFFFFFFFFF".toList (.inl rfl) (by decide)
      (List.all_eq_true.mp (by decide))
  exact ((number_loads lexed rfl rfl rfl).2 16 _ denotes _).2.1 (by decide) (by decide)

end StackScript
