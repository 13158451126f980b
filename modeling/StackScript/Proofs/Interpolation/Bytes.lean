/-
The scan for interpolated expressions, byte by byte.

A scan that walks over the UTF-8 encoding of a text, looks at single bytes and takes the first bytes of what is left
cuts between two characters only: every byte that it stops at is a character of its own, and whatever it skips, it skips
up to such a byte.  So it finds the encodings of the stretches that the scan over characters finds.
-/
import StackScript.Proofs.Interpolation.Stretches

namespace StackScript

/-! ### Encoded characters -/

/-- The UTF-8 encoding of a text. -/
def utf8 (cs : List Char) : List UInt8 := cs.flatMap String.utf8EncodeChar

namespace Utf8

/-- The byte of an ASCII character. -/
def byte (c : Char) : UInt8 := UInt8.ofNat c.toNat

@[simp] theorem utf8_nil : utf8 [] = [] := rfl

theorem utf8_cons (c : Char) (cs : List Char) : utf8 (c :: cs) = String.utf8EncodeChar c ++ utf8 cs := rfl

theorem utf8_append (cs ds : List Char) : utf8 (cs ++ ds) = utf8 cs ++ utf8 ds := List.flatMap_append

/-- A character outside ASCII starts with a byte from 192 on, and goes on with bytes from 128 on. -/
def Wide (c : Char) : Prop :=
  ∃ b bs, String.utf8EncodeChar c = b :: bs ∧ 192 ≤ b ∧ ∀ d ∈ bs, 128 ≤ d

theorem encode_ascii {c : Char} (hc : c.toNat < 128) : String.utf8EncodeChar c = [byte c] := by
  have : c.val.toNat ≤ 127 := Nat.le_of_lt_succ hc
  simp only [String.utf8EncodeChar, this, if_true]
  rfl

theorem le_ofNat {n m : Nat} (h : n ≤ m) (hm : m < 256) : UInt8.ofNat n ≤ UInt8.ofNat m := by
  rw [UInt8.le_iff_toNat_le, UInt8.toNat_ofNat', UInt8.toNat_ofNat', Nat.mod_eq_of_lt (by omega), Nat.mod_eq_of_lt hm]
  exact h

theorem encode_wide {c : Char} (hc : 128 ≤ c.toNat) : Wide c := by
  have : ¬c.val.toNat ≤ 127 := Nat.not_le.mpr hc
  unfold Wide String.utf8EncodeChar
  simp only [this, if_false]
  have lead {n : Nat} (h : 192 ≤ n) (hn : n < 256) : 192 ≤ UInt8.ofNat n := le_ofNat h hn
  have tail (n : Nat) : 128 ≤ UInt8.ofNat (n % 64 + 128) := le_ofNat (n := 128) (by omega) (by omega)
  split
  · exact ⟨_, _, rfl, lead (by omega) (by omega), List.forall_mem_singleton.mpr (tail _)⟩
  split
  · exact ⟨_, _, rfl, lead (by omega) (by omega),
      List.forall_mem_cons.mpr ⟨tail _, List.forall_mem_singleton.mpr (tail _)⟩⟩
  · exact ⟨_, _, rfl, lead (by omega) (by omega),
      List.forall_mem_cons.mpr ⟨tail _, List.forall_mem_cons.mpr ⟨tail _, List.forall_mem_singleton.mpr (tail _)⟩⟩⟩

/-- Every character is ASCII or wide. -/
theorem ascii_or_wide (c : Char) : (c.toNat < 128 ∧ String.utf8EncodeChar c = [byte c]) ∨ (128 ≤ c.toNat ∧ Wide c) := by
  rcases Nat.lt_or_ge c.toNat 128 with hc | hc
  · exact .inl ⟨hc, encode_ascii hc⟩
  · exact .inr ⟨hc, encode_wide hc⟩

theorem exists_lead (c : Char) : ∃ b bs, String.utf8EncodeChar c = b :: bs := by
  obtain ⟨-, hencode⟩ | ⟨-, lead, bs, hencode, -⟩ := ascii_or_wide c
  · exact ⟨_, _, hencode⟩
  · exact ⟨_, _, hencode⟩

theorem byte_lt {c : Char} (hc : c.toNat < 128) : byte c < 128 := by
  rw [UInt8.lt_iff_toNat_lt, byte, UInt8.toNat_ofNat', Nat.mod_eq_of_lt (by omega)]
  exact hc

theorem byte_inj {c d : Char} (hc : c.toNat < 128) (hd : d.toNat < 128) : byte c = byte d ↔ c = d := by
  refine ⟨fun h => ?_, congrArg byte⟩
  have := congrArg UInt8.toNat h
  rw [byte, byte, UInt8.toNat_ofNat', UInt8.toNat_ofNat', Nat.mod_eq_of_lt (by omega), Nat.mod_eq_of_lt (by omega)] at this
  exact Char.toNat_inj.mp this

theorem byte_wide {c : Char} (hc : 128 ≤ c.toNat) {b : UInt8} (hb : b ∈ String.utf8EncodeChar c) : 128 ≤ b := by
  obtain ⟨lead, bs, hencode, hlead, hbs⟩ := encode_wide hc
  rw [hencode] at hb
  rcases List.mem_cons.mp hb with rfl | hb
  · exact UInt8.le_trans (by decide) hlead
  · exact hbs b hb

/-- A byte of a wide character is no ASCII character. -/
theorem ne_byte_of_wide {c a : Char} (hc : 128 ≤ c.toNat) (ha : a.toNat < 128) {b : UInt8}
    (hb : b ∈ String.utf8EncodeChar c) : b ≠ byte a := by
  rintro rfl
  exact absurd (byte_lt ha) (UInt8.not_lt.mpr (byte_wide hc hb))

theorem ne_of_wide {c a : Char} (hc : 128 ≤ c.toNat) (ha : a.toNat < 128) : c ≠ a := by
  rintro rfl
  omega

/-- A test of bytes tells of every byte of a character what a test of characters tells of the character. -/
def Every (p : UInt8 → Bool) (q : Char → Bool) : Prop := ∀ c, ∀ b ∈ String.utf8EncodeChar c, p b = q c

/-- A test of bytes tells of the first byte of a character what a test of characters tells of the character. -/
def First (p : UInt8 → Bool) (q : Char → Bool) : Prop := ∀ c b bs, String.utf8EncodeChar c = b :: bs → p b = q c

variable {p : UInt8 → Bool} {q : Char → Bool}

theorem ascii_eq (h : ∀ n < 128, p (UInt8.ofNat n) = q (Char.ofNat n)) {c : Char} (hc : c.toNat < 128) :
    p (byte c) = q c := by
  rw [byte, h _ hc, Char.ofNat_toNat]

theorem every_of {v : Bool} (hascii : ∀ n < 128, p (UInt8.ofNat n) = q (Char.ofNat n)) (hbytes : ∀ b, 128 ≤ b → p b = v)
    (hchars : ∀ c, 128 ≤ c.toNat → q c = v) : Every p q := by
  intro c b hb
  obtain ⟨hc, hencode⟩ | ⟨hc, -⟩ := ascii_or_wide c
  · rw [hencode] at hb
    rw [List.mem_singleton.mp hb]
    exact ascii_eq hascii hc
  · rw [hchars c hc, hbytes b (byte_wide hc hb)]

theorem first_of {v : Bool} (hascii : ∀ n < 128, p (UInt8.ofNat n) = q (Char.ofNat n)) (hbytes : ∀ b, 192 ≤ b → p b = v)
    (hchars : ∀ c, 128 ≤ c.toNat → q c = v) : First p q := by
  intro c b bs hb
  obtain ⟨hc, hencode⟩ | ⟨hc, lead, cs, hencode, hlead, -⟩ := ascii_or_wide c
  · obtain ⟨rfl, -⟩ := List.cons.inj (hb.symm.trans hencode)
    exact ascii_eq hascii hc
  · obtain ⟨rfl, -⟩ := List.cons.inj (hb.symm.trans hencode)
    rw [hchars c hc, hbytes _ hlead]

theorem Every.first (h : Every p q) : First p q := by
  intro c b bs hb
  exact h c b (by rw [hb]; exact List.mem_cons_self ..)

/-- A byte of an ASCII character is found in that character only. -/
theorem every_byte {a : Char} (ha : a.toNat < 128) : Every (· == byte a) (· == a) := by
  intro c b hb
  obtain ⟨hc, hencode⟩ | ⟨hc, -⟩ := ascii_or_wide c
  · rw [hencode] at hb
    rw [List.mem_singleton.mp hb, Bool.eq_iff_iff, beq_iff_eq, beq_iff_eq]
    exact byte_inj hc ha
  · exact (beq_false_of_ne (ne_byte_of_wide hc ha hb)).trans (beq_false_of_ne (ne_of_wide hc ha)).symm

theorem head_utf8 (h : First p q) (cs : List Char) : (utf8 cs).head?.any p = cs.head?.any q := by
  cases cs with
  | nil => rfl
  | cons c cs =>
      obtain ⟨b, bs, hencode⟩ := exists_lead c
      rw [utf8_cons, hencode]
      exact h c b bs hencode

theorem head_utf8_eq {a : Char} (ha : a.toNat < 128) (cs : List Char) :
    (utf8 cs).head? = some (byte a) ↔ cs.head? = some a := by
  have same := head_utf8 (every_byte ha).first cs
  rw [Bool.eq_iff_iff, Option.any_eq_true, Option.any_eq_true] at same
  simpa using same

theorem takeWhile_utf8 (h : Every p q) (cs : List Char) :
    (utf8 cs).takeWhile p = utf8 (cs.takeWhile q) ∧ (utf8 cs).dropWhile p = utf8 (cs.dropWhile q) := by
  induction cs with
  | nil => exact ⟨rfl, rfl⟩
  | cons c cs ih =>
      rw [utf8_cons]
      cases hc : q c with
      | true =>
          have all : ∀ b ∈ String.utf8EncodeChar c, p b = true := fun b hb => (h c b hb).trans hc
          rw [List.takeWhile_append_of_pos all, List.dropWhile_append_of_pos all, ih.1, ih.2, List.takeWhile_cons_of_pos hc,
            List.dropWhile_cons_of_pos hc]
          exact ⟨rfl, rfl⟩
      | false =>
          have hne : ¬q c = true := by rw [hc]; exact nofun
          rw [List.takeWhile_cons_of_neg hne, List.dropWhile_cons_of_neg hne, utf8_cons]
          obtain ⟨b, bs, hencode⟩ := exists_lead c
          have hb : ¬p b = true := by
            rw [h.first c b bs hencode, hc]
            exact nofun
          rw [hencode, List.cons_append, List.takeWhile_cons_of_neg hb, List.dropWhile_cons_of_neg hb]
          exact ⟨rfl, rfl⟩

end Utf8

/-! ### The scan -/

namespace ByteScan

open Utf8

def isNameByte (b : UInt8) : Bool :=
  (48 ≤ b && b ≤ 57) || (65 ≤ b && b ≤ 90) || (97 ≤ b && b ≤ 122) || b == 95 || 128 ≤ b

/-- Whether a dollar sign followed by the byte starts an expression. -/
def startsVariable (b : UInt8) : Bool :=
  (65 ≤ b && b ≤ 90) || (97 ≤ b && b ≤ 122) || b == 95 || b == 123 || 192 ≤ b

def isHexDigit (b : UInt8) : Bool := (48 ≤ b && b ≤ 57) || (97 ≤ b && b ≤ 102) || (65 ≤ b && b ≤ 70)

def isOctalDigit (b : UInt8) : Bool := 48 ≤ b && b ≤ 55

/-- A bracket group from its opening bracket on. -/
def takeGroup (left right : UInt8) : Nat → List UInt8 → List UInt8 × List UInt8
  | _, [] => ([], [])
  | depth, b :: bs =>
    if b = right ∧ depth ≤ 1 then ([b], bs)
    else
      let depth := if b = left then depth + 1 else if b = right then depth - 1 else depth
      let rest := takeGroup left right depth bs
      (b :: rest.1, rest.2)

/-- A variable and what directly follows it. -/
def takeVariable : Nat → List UInt8 → List UInt8 × List UInt8
  | 0, bs => ([], bs)
  | n + 1, bs =>
    let behind := bs.dropWhile (· == byte '$')
    let word := bs.takeWhile (· == byte '$') ++ behind.takeWhile isNameByte
    let rest := behind.dropWhile isNameByte
    if rest.head? = some (byte '[') then
      (word ++ (takeGroup (byte '[') (byte ']') 0 rest).1, (takeGroup (byte '[') (byte ']') 0 rest).2)
    else if rest.head? = some (byte '\x7b') then
      (word ++ (takeGroup (byte '\x7b') (byte '\x7d') 0 rest).1, (takeGroup (byte '\x7b') (byte '\x7d') 0 rest).2)
    else if rest.take 2 = [byte '-', byte '>'] ∨ rest.take 2 = [byte ':', byte ':'] then
      (word ++ (rest.take 2 ++ (takeVariable n (rest.drop 2)).1), (takeVariable n (rest.drop 2)).2)
    else (word, rest)

/-- How many bytes the character takes that starts with a byte. -/
def width (b : UInt8) : Nat := if b < 128 then 1 else if b < 224 then 2 else if b < 240 then 3 else 4

/-- The bytes that stand for something behind a backslash, on their own. -/
def escapes : List UInt8 := StringLiteral.escapeTable.map fun entry => byte entry.1

/-- How many bytes an escape takes behind its backslash. -/
def escapeLength : List UInt8 → Nat
  | [] => 0
  | b :: bs =>
    if b ∈ escapes then 1
    else if b = byte 'x' ∧ bs.head?.any isHexDigit then 1 + ((bs.take 2).takeWhile isHexDigit).length
    else if b = byte 'o' ∧ bs.head?.any isOctalDigit then 1 + ((bs.take 3).takeWhile isOctalDigit).length
    else width b

/-- Whether a byte stands for itself in front of others. -/
def isPlain (b : UInt8) (bs : List UInt8) : Prop :=
  b ≠ byte '\\' ∧ ¬(b = byte '\x7b' ∧ bs.head? = some (byte '$')) ∧
    ¬(b = byte '$' ∧ bs.head?.any startsVariable = true)

instance (b : UInt8) (bs : List UInt8) : Decidable (isPlain b bs) := inferInstanceAs (Decidable (_ ∧ _ ∧ _))

/-- The bytes in front of the first one that does not stand for itself. -/
def takeRun : List UInt8 → List UInt8 × List UInt8
  | [] => ([], [])
  | b :: bs => if isPlain b bs then (b :: (takeRun bs).1, (takeRun bs).2) else ([], b :: bs)

/-- The bytes between the braces of a group. -/
def groupInside (group : List UInt8) : List UInt8 :=
  if (group.drop 1).getLast? = some (byte '\x7d') then (group.drop 1).dropLast else group.drop 1

/-- The bytes of a stretch, and those of the source of its expression. -/
structure Cut where
  raw : List UInt8
  splice? : Option (List UInt8)
deriving DecidableEq

/-- The first stretch, and what follows it. -/
def takeCut (b : UInt8) (bs : List UInt8) : Cut × List UInt8 :=
  if b = byte '\\' then (⟨b :: bs.take (escapeLength bs), none⟩, bs.drop (escapeLength bs))
  else if b = byte '\x7b' ∧ bs.head? = some (byte '$') then
    let group := takeGroup (byte '\x7b') (byte '\x7d') 0 (b :: bs)
    (⟨group.1, some (groupInside group.1)⟩, group.2)
  else if b = byte '$' ∧ bs.head?.any startsVariable = true then
    let chain := takeVariable (bs.length + 1) (b :: bs)
    (⟨chain.1, some chain.1⟩, chain.2)
  else (⟨b :: (takeRun bs).1, none⟩, (takeRun bs).2)

def cutsFrom : Nat → List UInt8 → List Cut
  | 0, _ => []
  | _ + 1, [] => []
  | n + 1, b :: bs => (takeCut b bs).1 :: cutsFrom n (takeCut b bs).2

/-- The stretches of the bytes of a double-quoted string. -/
def cuts (bs : List UInt8) : List Cut := cutsFrom bs.length bs

/-! ### Bytes and characters -/

theorem every_isNameByte : Every isNameByte CharClass.isNameChar :=
  every_of (v := true) (by decide +kernel) (fun b hb => by simp [isNameByte, hb])
    (fun c hc => by simp [CharClass.isNameChar, CharClass.isAscii, Nat.not_lt.mpr hc])

theorem first_startsVariable : First startsVariable StringLiteral.startsVariable :=
  first_of (v := true) (by decide +kernel) (fun b hb => by simp [startsVariable, hb])
    (fun c hc => by simp [StringLiteral.startsVariable, CharClass.isNameStart, CharClass.isAscii, Nat.not_lt.mpr hc])

theorem not_isHexDigit_wide {c : Char} (hc : 128 ≤ c.toNat) : CharClass.isHexDigit c = false := by
  have above {d : Char} (hd : d.toNat < 128) : ¬c ≤ d := fun h => absurd (Nat.le_trans hc h) (Nat.not_le.mpr hd)
  have digit : c.isDigit = false := by
    simp only [Char.isDigit, Bool.and_eq_false_iff, decide_eq_false_iff_not]
    exact .inr (above (d := '9') (by decide))
  simp [CharClass.isHexDigit, digit, above]

theorem ascii_of_isHexDigit {c : Char} (h : CharClass.isHexDigit c = true) : c.toNat < 128 := by
  by_contra hc
  rw [not_isHexDigit_wide (Nat.not_lt.mp hc)] at h
  cases h

theorem every_isHexDigit : Every isHexDigit CharClass.isHexDigit := by
  refine every_of (v := false) (by decide +kernel) (fun b hb => ?_) (fun c hc => not_isHexDigit_wide hc)
  have above {d : UInt8} (hd : d < 128) : ¬b ≤ d := UInt8.not_le.mpr (UInt8.lt_of_lt_of_le hd hb)
  simp [isHexDigit, above]

theorem every_isOctalDigit : Every isOctalDigit CharClass.isOctalDigit := by
  refine every_of (v := false) (by decide +kernel) (fun b hb => ?_) (fun c hc => ?_)
  · have above {d : UInt8} (hd : d < 128) : ¬b ≤ d := UInt8.not_le.mpr (UInt8.lt_of_lt_of_le hd hb)
    simp [isOctalDigit, above]
  · refine Bool.eq_false_iff.mpr fun h => ?_
    have := ascii_of_isHexDigit (StringLiteral.isHexDigit_of_isOctalDigit h)
    omega

/-- Bytes that are no brackets do not change how many are open. -/
theorem takeGroup_append {left right : UInt8} (depth : Nat) {bs : List UInt8} (h : ∀ b ∈ bs, b ≠ left ∧ b ≠ right)
    (rest : List UInt8) : takeGroup left right depth (bs ++ rest) =
      (bs ++ (takeGroup left right depth rest).1, (takeGroup left right depth rest).2) := by
  induction bs with
  | nil => rfl
  | cons b bs ih =>
      obtain ⟨⟨hleft, hright⟩, hbs⟩ := List.forall_mem_cons.mp h
      rw [List.cons_append, takeGroup, if_neg fun hb => hright hb.1]
      simp only [hleft, hright, if_false, ih hbs]
      rfl

theorem takeGroup_utf8 {left right : Char} (hleft : left.toNat < 128) (hright : right.toNat < 128) (depth : Nat)
    (cs : List Char) : takeGroup (byte left) (byte right) depth (utf8 cs) =
      (utf8 (StringLiteral.takeGroup left right depth cs).1, utf8 (StringLiteral.takeGroup left right depth cs).2) := by
  induction cs generalizing depth with
  | nil => rfl
  | cons c cs ih =>
      rw [utf8_cons, StringLiteral.takeGroup]
      obtain ⟨hc, hencode⟩ | ⟨hc, -⟩ := ascii_or_wide c
      · rw [hencode, List.singleton_append, takeGroup]
        simp only [byte_inj hc hleft, byte_inj hc hright, ih]
        split <;> simp [utf8_cons, hencode]
      · have others : c ≠ left ∧ c ≠ right := ⟨ne_of_wide hc hleft, ne_of_wide hc hright⟩
        rw [takeGroup_append depth fun b hb => ⟨ne_byte_of_wide hc hleft hb, ne_byte_of_wide hc hright hb⟩, ih]
        simp [others, utf8_cons]

theorem eq_of_take_two {α : Type} {xs : List α} {a b : α} (h : xs.take 2 = [a, b]) : xs = a :: b :: xs.drop 2 := by
  conv_lhs => rw [← List.take_append_drop 2 xs, h]
  rfl

/-- Two bytes of ASCII characters in front are those two characters in front. -/
theorem take_two_utf8 {a b : Char} (ha : a.toNat < 128) (hb : b.toNat < 128) (cs : List Char) :
    (utf8 cs).take 2 = [byte a, byte b] ↔ cs.take 2 = [a, b] := by
  constructor
  · intro h
    have hbytes := eq_of_take_two h
    have hfirst : cs.head? = some a := (head_utf8_eq ha cs).mp (by rw [hbytes]; rfl)
    obtain ⟨ds, rfl⟩ := List.head?_eq_some_iff.mp hfirst
    rw [utf8_cons, encode_ascii ha, List.singleton_append] at hbytes
    have hsecond : ds.head? = some b := (head_utf8_eq hb ds).mp (by rw [(List.cons.inj hbytes).2]; rfl)
    obtain ⟨es, rfl⟩ := List.head?_eq_some_iff.mp hsecond
    rfl
  · intro h
    rw [eq_of_take_two h, utf8_cons, utf8_cons, encode_ascii ha, encode_ascii hb]
    rfl

/-- The rounds over a variable, with what decides them written out. -/
theorem takeVariable_succ (n : Nat) (cs : List Char) :
    StringLiteral.takeVariable (n + 1) cs =
      let behind := cs.dropWhile (· == '$')
      let word := cs.takeWhile (· == '$') ++ behind.takeWhile CharClass.isNameChar
      let rest := behind.dropWhile CharClass.isNameChar
      if rest.head? = some '[' then
        (word ++ (StringLiteral.takeGroup '[' ']' 0 rest).1, (StringLiteral.takeGroup '[' ']' 0 rest).2)
      else if rest.head? = some '\x7b' then
        (word ++ (StringLiteral.takeGroup '\x7b' '\x7d' 0 rest).1, (StringLiteral.takeGroup '\x7b' '\x7d' 0 rest).2)
      else if rest.take 2 = ['-', '>'] ∨ rest.take 2 = [':', ':'] then
        (word ++ (rest.take 2 ++ (StringLiteral.takeVariable n (rest.drop 2)).1),
          (StringLiteral.takeVariable n (rest.drop 2)).2)
      else (word, rest) := by
  rw [StringLiteral.takeVariable]
  dsimp only
  generalize (cs.dropWhile (· == '$')).dropWhile CharClass.isNameChar = behind
  split
  · simp
  · simp
  · simp
  · simp
  · rename_i hbracket hbrace harrow hcolons
    have bracket : behind.head? ≠ some '[' := by
      intro h
      obtain ⟨ds, rfl⟩ := List.head?_eq_some_iff.mp h
      exact hbracket ds rfl
    have brace : behind.head? ≠ some '\x7b' := by
      intro h
      obtain ⟨ds, rfl⟩ := List.head?_eq_some_iff.mp h
      exact hbrace ds rfl
    have links : ¬(behind.take 2 = ['-', '>'] ∨ behind.take 2 = [':', ':']) := by
      rintro (h | h)
      · exact harrow _ (eq_of_take_two h)
      · exact hcolons _ (eq_of_take_two h)
    rw [if_neg bracket, if_neg brace, if_neg links]

theorem takeVariable_utf8 (n : Nat) (cs : List Char) :
    takeVariable n (utf8 cs) = (utf8 (StringLiteral.takeVariable n cs).1, utf8 (StringLiteral.takeVariable n cs).2) := by
  induction n generalizing cs with
  | zero => rfl
  | succ n ih =>
      obtain ⟨dollars, behind⟩ := takeWhile_utf8 (every_byte (a := '$') (by decide)) cs
      obtain ⟨name, rest⟩ := takeWhile_utf8 every_isNameByte (cs.dropWhile (· == '$'))
      rw [takeVariable, takeVariable_succ]
      dsimp only
      rw [dollars, behind, name, rest]
      generalize (cs.dropWhile (· == '$')).dropWhile CharClass.isNameChar = rest
      rw [takeGroup_utf8 (by decide) (by decide), takeGroup_utf8 (by decide) (by decide)]
      simp only [head_utf8_eq (a := '[') (by decide), head_utf8_eq (a := '\x7b') (by decide),
        take_two_utf8 (a := '-') (b := '>') (by decide) (by decide),
        take_two_utf8 (a := ':') (b := ':') (by decide) (by decide)]
      split
      · simp [utf8_append]
      split
      · simp [utf8_append]
      split
      · rename_i hlinks
        obtain ⟨a, b, ds, hrest, ha, hb⟩ : ∃ a b ds, rest = a :: b :: ds ∧ a.toNat < 128 ∧ b.toNat < 128 := by
          rcases hlinks with h | h
          · exact ⟨_, _, _, eq_of_take_two h, by decide, by decide⟩
          · exact ⟨_, _, _, eq_of_take_two h, by decide, by decide⟩
        subst hrest
        have two : utf8 (a :: b :: ds) = byte a :: byte b :: utf8 ds := by
          rw [utf8_cons, utf8_cons, encode_ascii ha, encode_ascii hb]
          rfl
        rw [two]
        simp [ih, utf8_append, utf8_cons, encode_ascii ha, encode_ascii hb]
      · simp [utf8_append]

/-- Up to so many digits in front of the bytes are the encoding of those in front of the characters. -/
theorem takeDigits_utf8 {p : UInt8 → Bool} {q : Char → Bool} (h : Every p q) (hascii : ∀ c, q c = true → c.toNat < 128)
    (n : Nat) (cs : List Char) : ((utf8 cs).take n).takeWhile p = utf8 (StringLiteral.takeDigits n q cs) ∧
      (utf8 (StringLiteral.takeDigits n q cs)).length = (StringLiteral.takeDigits n q cs).length := by
  unfold StringLiteral.takeDigits
  induction n generalizing cs with
  | zero => exact ⟨rfl, rfl⟩
  | succ n ih =>
      cases cs with
      | nil => exact ⟨rfl, rfl⟩
      | cons c cs =>
          rw [List.take_succ_cons]
          cases hc : q c with
          | true =>
              have encode := encode_ascii (hascii c hc)
              have hb : p (byte c) = true := by rw [h.first c _ _ encode, hc]
              rw [utf8_cons, encode, List.singleton_append, List.take_succ_cons, List.takeWhile_cons_of_pos hb,
                List.takeWhile_cons_of_pos hc, (ih cs).1, utf8_cons, encode]
              exact ⟨rfl, congrArg (· + 1) (ih cs).2⟩
          | false =>
              obtain ⟨b, bs, encode⟩ := exists_lead c
              have hb : ¬p b = true := by
                rw [h.first c b bs encode, hc]
                exact nofun
              have hne : ¬q c = true := by
                rw [hc]
                exact nofun
              rw [utf8_cons, encode, List.cons_append, List.take_succ_cons, List.takeWhile_cons_of_neg hb,
                List.takeWhile_cons_of_neg hne]
              exact ⟨rfl, rfl⟩

theorem takeDigits_ne_nil {q : Char → Bool} (n : Nat) (cs : List Char) :
    StringLiteral.takeDigits (n + 1) q cs ≠ [] ↔ cs.head?.any q = true := by
  unfold StringLiteral.takeDigits
  cases cs with
  | nil => simp
  | cons c cs =>
      rw [List.take_succ_cons]
      cases hc : q c <;> simp [hc]

theorem width_ofNat {n : Nat} (hn : n < 256) :
    width (UInt8.ofNat n) = if n < 128 then 1 else if n < 224 then 2 else if n < 240 then 3 else 4 := by
  simp [width, UInt8.lt_iff_toNat_lt, Nat.mod_eq_of_lt hn]

/-- The first byte of a character tells how many bytes it takes. -/
theorem width_lead {c : Char} {b : UInt8} {bs : List UInt8} (h : String.utf8EncodeChar c = b :: bs) :
    width b = bs.length + 1 := by
  unfold String.utf8EncodeChar at h
  dsimp only at h
  split at h
  · obtain ⟨rfl, rfl⟩ := List.cons.inj h
    rw [width_ofNat (by omega), if_pos (by omega)]
    rfl
  split at h
  · obtain ⟨rfl, rfl⟩ := List.cons.inj h
    rw [width_ofNat (by omega), if_neg (by omega), if_pos (by omega)]
    rfl
  split at h
  · obtain ⟨rfl, rfl⟩ := List.cons.inj h
    rw [width_ofNat (by omega), if_neg (by omega), if_neg (by omega), if_pos (by omega)]
    rfl
  · obtain ⟨rfl, rfl⟩ := List.cons.inj h
    rw [width_ofNat (by omega), if_neg (by omega), if_neg (by omega), if_neg (by omega)]
    rfl

theorem mem_escapes {c : Char} (hc : c.toNat < 128) :
    byte c ∈ escapes ↔ (StringLiteral.escapeTable.lookup c).isSome = true := by
  have same := ascii_eq (p := fun b => decide (b ∈ escapes))
    (q := fun c => (StringLiteral.escapeTable.lookup c).isSome) (by decide +kernel) hc
  rw [← same, decide_eq_true_iff]

theorem lookup_wide {c : Char} (hc : 128 ≤ c.toNat) : StringLiteral.escapeTable.lookup c = none := by
  have keys : ∀ entry ∈ StringLiteral.escapeTable, entry.1.toNat < 128 := by decide
  rw [List.lookup_eq_none_iff]
  exact fun entry hentry => bne_iff_ne.mpr (ne_of_wide hc (keys entry hentry))

/-- What is left behind digits that are taken. -/
theorem drop_takeDigits {p : UInt8 → Bool} {q : Char → Bool} (h : Every p q) (hascii : ∀ c, q c = true → c.toNat < 128)
    (n : Nat) (cs : List Char) : (utf8 cs).drop (((utf8 cs).take n).takeWhile p).length =
      utf8 (cs.drop (StringLiteral.takeDigits n q cs).length) := by
  obtain ⟨digits, length⟩ := takeDigits_utf8 h hascii n cs
  have whole : utf8 cs = utf8 (StringLiteral.takeDigits n q cs) ++
      utf8 (cs.drop (StringLiteral.takeDigits n q cs).length) := by
    rw [← utf8_append, StringLiteral.takeDigits_split]
  rw [digits, whole]
  exact List.drop_left

/-- An escape over bytes leaves what an escape over characters leaves. -/
theorem drop_escapeLength (cs : List Char) :
    (utf8 cs).drop (escapeLength (utf8 cs)) = utf8 (StringLiteral.decodeEscape cs).2 := by
  cases cs with
  | nil => rfl
  | cons c cs =>
      rw [StringLiteral.decodeEscape]
      obtain ⟨hc, hencode⟩ | ⟨hc, lead, bs, hencode, hlead, -⟩ := ascii_or_wide c
      · rw [utf8_cons, hencode, List.singleton_append, escapeLength]
        cases hlookup : StringLiteral.escapeTable.lookup c with
        | some d =>
            rw [if_pos ((mem_escapes hc).mpr (by rw [hlookup]; rfl))]
            rfl
        | none =>
            have hex := drop_takeDigits every_isHexDigit (fun c h => ascii_of_isHexDigit h) 2 cs
            have octal := drop_takeDigits every_isOctalDigit
              (fun c h => ascii_of_isHexDigit (StringLiteral.isHexDigit_of_isOctalDigit h)) 3 cs
            have one : width (byte c) = 1 := width_lead hencode
            have other : byte c ∉ escapes := by
              rw [mem_escapes hc, hlookup]
              exact nofun
            rw [if_neg other]
            simp only [byte_inj hc (d := 'x') (by decide), byte_inj hc (d := 'o') (by decide),
              head_utf8 every_isHexDigit.first, head_utf8 every_isOctalDigit.first, takeDigits_ne_nil, one]
            split
            · rw [Nat.add_comm, List.drop_succ_cons, hex]
            split
            · rw [Nat.add_comm, List.drop_succ_cons, octal]
            · rfl
      · have other {a : Char} (ha : a.toNat < 128) : lead ≠ byte a :=
          ne_byte_of_wide hc ha (by rw [hencode]; exact List.mem_cons_self ..)
        have escapes : lead ∉ escapes := by
          intro h
          obtain ⟨entry, hentry, rfl⟩ := List.mem_map.mp h
          have keys : ∀ entry ∈ StringLiteral.escapeTable, entry.1.toNat < 128 := by decide
          exact other (keys entry hentry) rfl
        rw [lookup_wide hc, utf8_cons, hencode, List.cons_append, escapeLength, if_neg escapes,
          if_neg fun h => other (by decide) h.1, if_neg fun h => other (by decide) h.1, width_lead hencode,
          List.drop_succ_cons, List.drop_left]
        dsimp only
        rw [if_neg fun h => ne_of_wide hc (by decide) h.1, if_neg fun h => ne_of_wide hc (by decide) h.1]

/-- An escape over bytes takes what an escape over characters takes. -/
theorem take_escapeLength (cs : List Char) : (utf8 cs).take (escapeLength (utf8 cs)) =
    utf8 (cs.take (cs.length - (StringLiteral.decodeEscape cs).2.length)) := by
  have bytes := List.take_append_drop (escapeLength (utf8 cs)) (utf8 cs)
  have chars := congrArg utf8 (StringLiteral.decodeEscape_split cs)
  rw [utf8_append] at chars
  rw [drop_escapeLength] at bytes
  exact List.append_cancel_right (bytes.trans chars.symm)

theorem takeRun_wide {bs : List UInt8} (h : ∀ b ∈ bs, 128 ≤ b) (rest : List UInt8) :
    takeRun (bs ++ rest) = (bs ++ (takeRun rest).1, (takeRun rest).2) := by
  induction bs with
  | nil => rfl
  | cons b bs ih =>
      obtain ⟨hb, hbs⟩ := List.forall_mem_cons.mp h
      have plain : isPlain b (bs ++ rest) := by
        have other {c : Char} (hc : c.toNat < 128) : b ≠ byte c := by
          rintro rfl
          exact absurd (byte_lt hc) (UInt8.not_lt.mpr hb)
        exact ⟨other (by decide), fun h => other (by decide) h.1, fun h => other (by decide) h.1⟩
      rw [List.cons_append, takeRun, if_pos plain, ih hbs]
      rfl

theorem isPlain_ascii {c : Char} (hc : c.toNat < 128) (cs : List Char) :
    isPlain (byte c) (utf8 cs) ↔ StringLiteral.isPlain c cs := by
  unfold isPlain StringLiteral.isPlain
  rw [head_utf8 first_startsVariable, head_utf8_eq (by decide), Ne, byte_inj hc (by decide), byte_inj hc (by decide),
    byte_inj hc (by decide)]

theorem isPlain_wide {c : Char} (hc : 128 ≤ c.toNat) (cs : List Char) : StringLiteral.isPlain c cs :=
  ⟨ne_of_wide hc (by decide), fun h => ne_of_wide hc (by decide) h.1, fun h => ne_of_wide hc (by decide) h.1⟩

theorem takeRun_utf8 (cs : List Char) :
    takeRun (utf8 cs) = (utf8 (StringLiteral.takeRun cs).1, utf8 (StringLiteral.takeRun cs).2) := by
  induction cs with
  | nil => rfl
  | cons c cs ih =>
      rw [StringLiteral.takeRun]
      obtain ⟨hc, hencode⟩ | ⟨hc, -⟩ := ascii_or_wide c
      · rw [utf8_cons, hencode, List.singleton_append, takeRun]
        simp only [isPlain_ascii hc, ih]
        split <;> simp [utf8_cons, hencode]
      · rw [utf8_cons, takeRun_wide (fun b hb => byte_wide hc hb), if_pos (isPlain_wide hc cs), ih]
        rfl

theorem getLast?_utf8 {a : Char} (ha : a.toNat < 128) (cs : List Char) :
    (utf8 cs).getLast? = some (byte a) ↔ cs.getLast? = some a := by
  rcases cs.eq_nil_or_concat' with rfl | ⟨front, c, rfl⟩
  · simp
  · obtain ⟨b, bs, hencode⟩ := exists_lead c
    have last : (utf8 (front ++ [c])).getLast? = some ((b :: bs).getLast (List.cons_ne_nil b bs)) := by
      rw [utf8_append, utf8_cons, utf8_nil, List.append_nil, hencode, List.getLast?_append_of_ne_nil _ (List.cons_ne_nil b bs),
        List.getLast?_eq_getLast_of_ne_nil]
    have same := every_byte ha c ((b :: bs).getLast (List.cons_ne_nil b bs))
      (by rw [hencode]; exact List.getLast_mem _)
    rw [last, List.getLast?_concat, Option.some.injEq, Option.some.injEq, ← beq_iff_eq, ← beq_iff_eq (a := c)]
    exact Bool.eq_iff_iff.mp same

theorem groupInside_utf8 {c : Char} (hc : c.toNat < 128) (cs : List Char) :
    groupInside (utf8 (c :: cs)) = utf8 (StringLiteral.groupInside (c :: cs)) := by
  have inside : (utf8 (c :: cs)).drop 1 = utf8 cs := by
    rw [utf8_cons, encode_ascii hc]
    rfl
  unfold groupInside StringLiteral.groupInside
  rw [inside]
  simp only [getLast?_utf8 (a := '\x7d') (by decide), List.drop_succ_cons, List.drop_zero]
  split
  · rename_i hlast
    obtain ⟨front, rfl⟩ : ∃ front, cs = front ++ ['\x7d'] := List.getLast?_eq_some_iff.mp hlast
    have brace : utf8 ['\x7d'] = [byte '\x7d'] := rfl
    rw [utf8_append, brace, List.dropLast_concat, List.dropLast_concat]
  · rfl

theorem length_le_utf8 (cs : List Char) : cs.length ≤ (utf8 cs).length := by
  induction cs with
  | nil => exact Nat.le_refl _
  | cons c cs ih =>
      obtain ⟨b, bs, hencode⟩ := exists_lead c
      rw [utf8_cons, hencode, List.length_append, List.length_cons, List.length_cons]
      omega

theorem takeCut_plain {b : UInt8} {bs : List UInt8} (h : isPlain b bs) :
    takeCut b bs = (⟨b :: (takeRun bs).1, none⟩, (takeRun bs).2) := by
  rw [takeCut, if_neg h.1, if_neg h.2.1, if_neg h.2.2]

/-- A stretch that starts with an ASCII character. -/
theorem takeCut_ascii {c : Char} (hc : c.toNat < 128) (cs : List Char) :
    takeCut (byte c) (utf8 cs) =
      (⟨utf8 (StringLiteral.takeStretch c cs).1.raw, (StringLiteral.takeStretch c cs).1.splice?.map utf8⟩,
        utf8 (StringLiteral.takeStretch c cs).2) := by
  have encode (ds : List Char) : byte c :: utf8 ds = utf8 (c :: ds) := by
    rw [utf8_cons, encode_ascii hc]
    rfl
  unfold takeCut StringLiteral.takeStretch
  simp only [byte_inj hc (d := '\\') (by decide), byte_inj hc (d := '\x7b') (by decide),
    byte_inj hc (d := '$') (by decide), head_utf8 first_startsVariable, head_utf8_eq (a := '$') (by decide)]
  split
  · rename_i hescape
    subst hescape
    rw [take_escapeLength, drop_escapeLength, encode]
    rfl
  split
  · rename_i hgroup
    obtain ⟨rfl, -⟩ := hgroup
    obtain ⟨inside, hinside⟩ : ∃ inside, (StringLiteral.takeGroup '\x7b' '\x7d' 0 ('\x7b' :: cs)).1 = '\x7b' :: inside := by
      rw [StringLiteral.takeGroup]
      exact ⟨_, rfl⟩
    rw [encode, takeGroup_utf8 (by decide) (by decide)]
    dsimp only
    rw [hinside, groupInside_utf8 (by decide)]
    rfl
  split
  · have rounds : StringLiteral.takeVariable ((utf8 cs).length + 1) (c :: cs) =
        StringLiteral.takeVariable (cs.length + 1) (c :: cs) :=
      StringLiteral.takeVariable_rounds (Nat.succ_le_succ (length_le_utf8 cs)) (Nat.le_refl _)
    rw [encode, takeVariable_utf8, rounds]
    rfl
  · rw [takeRun_utf8]
    dsimp only
    rw [encode]
    rfl

/-- The first stretch of the bytes of a text. -/
theorem takeCut_utf8 (c : Char) (cs : List Char) : ∃ b bs, utf8 (c :: cs) = b :: bs ∧
    takeCut b bs = (⟨utf8 (StringLiteral.takeStretch c cs).1.raw, (StringLiteral.takeStretch c cs).1.splice?.map utf8⟩,
      utf8 (StringLiteral.takeStretch c cs).2) := by
  obtain ⟨hc, hencode⟩ | ⟨hc, lead, bs, hencode, hlead, hbs⟩ := ascii_or_wide c
  · exact ⟨byte c, utf8 cs, by rw [utf8_cons, hencode]; rfl, takeCut_ascii hc cs⟩
  · refine ⟨lead, bs ++ utf8 cs, by rw [utf8_cons, hencode]; rfl, ?_⟩
    have other {a : Char} (ha : a.toNat < 128) : lead ≠ byte a :=
      ne_byte_of_wide hc ha (by rw [hencode]; exact List.mem_cons_self ..)
    have plain : isPlain lead (bs ++ utf8 cs) :=
      ⟨other (by decide), fun h => other (by decide) h.1, fun h => other (by decide) h.1⟩
    rw [takeCut_plain plain, takeRun_wide hbs, takeRun_utf8, StringLiteral.takeStretch_plain (isPlain_wide hc cs)]
    dsimp only
    rw [StringLiteral.Stretch.raw, utf8_cons, hencode]
    rfl

theorem cutsFrom_utf8 {n m : Nat} {cs : List Char} (hn : (utf8 cs).length ≤ n) (hm : cs.length ≤ m) :
    cutsFrom n (utf8 cs) =
      (StringLiteral.stretchesFrom m cs).map fun s => ⟨utf8 s.raw, s.splice?.map utf8⟩ := by
  induction n generalizing m cs with
  | zero =>
      have := length_le_utf8 cs
      obtain rfl : cs = [] := List.length_eq_zero_iff.mp (by omega)
      cases m <;> rfl
  | succ n ih =>
      cases cs with
      | nil => cases m <;> rfl
      | cons c cs =>
          obtain ⟨m, rfl⟩ : ∃ k, m = k + 1 := ⟨m - 1, by rw [List.length_cons] at hm; omega⟩
          obtain ⟨b, bs, hbytes, hcut⟩ := takeCut_utf8 c cs
          have chars := StringLiteral.length_takeStretch c cs
          have bytes : (utf8 (StringLiteral.takeStretch c cs).2).length ≤ n := by
            have whole := congrArg (fun cs => (utf8 cs).length) (StringLiteral.takeStretch_split c cs)
            have taken := List.length_pos_iff.mpr (StringLiteral.takeStretch_ne_nil c cs)
            have encoded := length_le_utf8 (StringLiteral.takeStretch c cs).1.raw
            simp only [utf8_append, List.length_append] at whole
            omega
          rw [hbytes, cutsFrom, hcut, StringLiteral.stretchesFrom, List.map_cons, ih bytes]
          rw [List.length_cons] at hm
          omega

/-- The scan over the bytes of a text cuts out the encodings of the stretches of the text. -/
theorem cuts_utf8 (cs : List Char) :
    cuts (utf8 cs) = (StringLiteral.stretches cs).map fun s => ⟨utf8 s.raw, s.splice?.map utf8⟩ :=
  cutsFrom_utf8 (Nat.le_refl _) (Nat.le_refl _)

end ByteScan

end StackScript
