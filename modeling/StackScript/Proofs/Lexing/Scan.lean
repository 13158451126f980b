/-
What one scan covers.

A scan splits the text in front of it: the characters it covers and the rest make up the text again, and it covers
at least one.  What it covers is a comment, or the lexeme of its token, which is spelled as the text of the token
says.
-/
import StackScript.Token.Lexer

namespace StackScript

namespace Lexer

/-! ### Splitting -/

/-- A run ends where its property fails. -/
theorem head_dropWhile {p : Char → Bool} {cs ds : List Char} {d : Char} (h : cs.dropWhile p = d :: ds) : p d = false := by
  have fails : p ((cs.dropWhile p).head (by simp [h])) = false := List.head_dropWhile_not p _
  simpa [h] using fails

theorem commentBody_split (cs : List Char) : (commentBody cs).1 ++ (commentBody cs).2.1 = cs := by
  fun_induction commentBody cs <;> simp_all

theorem simpleBody_split (cs : List Char) : (simpleBody cs).1 ++ (simpleBody cs).2 = cs := by
  fun_induction simpleBody cs <;> simp_all

theorem templateBody_split (depth : Nat) (cs : List Char) :
    (templateBody depth cs).1 ++ (templateBody depth cs).2 = cs := by
  fun_induction templateBody depth cs <;> simp_all

/-- What is left behind the inside of a string starts with the quote that closes it. -/
theorem head_simpleBody (cs : List Char) : (simpleBody cs).2 = [] ∨ (simpleBody cs).2.head? = some '\x27' := by
  fun_induction simpleBody cs <;> simp_all

theorem head_templateBody (depth : Nat) (cs : List Char) :
    (templateBody depth cs).2 = [] ∨ (templateBody depth cs).2.head? = some '"' := by
  fun_induction templateBody depth cs <;> simp_all

theorem takeFraction_split (cs : List Char) : (takeFraction cs).1 ++ (takeFraction cs).2 = cs := by
  unfold takeFraction
  split
  · split <;> simp
  · simp

theorem takeExponent_split (cs : List Char) : (takeExponent cs).1 ++ (takeExponent cs).2 = cs := by
  unfold takeExponent
  split
  · split
    · split
      · split
        · simp
        · split <;> simp
      · simp
    · simp
  · simp

/-! ### Comments -/

/-- The characters that close a block comment do not occur in a text. -/
def Unclosed (cs : List Char) : Prop := ¬['*', '/'] <:+: cs

theorem unclosed_nil : Unclosed [] := by
  simp [Unclosed]

theorem unclosed_cons {c : Char} {cs : List Char} (h : Unclosed cs) (hc : c = '*' → cs.head? ≠ some '/') :
    Unclosed (c :: cs) := by
  intro hin
  rcases List.infix_cons_iff.mp hin with hprefix | hinfix
  · rw [List.cons_prefix_cons] at hprefix
    obtain ⟨rfl, hhead⟩ := hprefix
    cases cs with
    | nil => simp at hhead
    | cons d ds => exact hc rfl (congrArg some (List.cons_prefix_cons.mp hhead).1.symm)
  · exact h hinfix

/-- A block comment goes up to the first characters that close it, or to the end. -/
theorem commentBody_closed {cs : List Char} (h : (commentBody cs).2.2 = true) :
    ∃ inside, (commentBody cs).1 = inside ++ ['*', '/'] ∧ Unclosed inside := by
  fun_induction commentBody cs with
  | case1 => cases h
  | case2 => exact ⟨[], rfl, unclosed_nil⟩
  | case3 c cs hother ih =>
      obtain ⟨inside, hinside, hunclosed⟩ := ih h
      refine ⟨c :: inside, by simp [hinside], unclosed_cons hunclosed ?_⟩
      rintro rfl hhead
      have whole := commentBody_split cs
      cases inside with
      | nil => cases hhead
      | cons d ds =>
          cases hhead
          rw [hinside] at whole
          exact hother _ rfl whole.symm

theorem commentBody_open {cs : List Char} (h : (commentBody cs).2.2 = false) :
    (commentBody cs).2.1 = [] ∧ Unclosed (commentBody cs).1 := by
  fun_induction commentBody cs with
  | case1 => exact ⟨rfl, unclosed_nil⟩
  | case2 => cases h
  | case3 c cs hother ih =>
      obtain ⟨hrest, hunclosed⟩ := ih h
      refine ⟨hrest, unclosed_cons hunclosed ?_⟩
      rintro rfl hhead
      have whole := commentBody_split cs
      rw [hrest, List.append_nil] at whole
      rw [whole] at hhead
      cases cs with
      | nil => cases hhead
      | cons d ds =>
          cases hhead
          exact hother _ rfl rfl

/-! ### Casts -/

/-- Only blanks and tabs are trimmed. -/
theorem trimBlanks_spec (cs : List Char) : ∃ before behind, cs = before ++ trimBlanks cs ++ behind ∧
    (∀ c ∈ before, c = ' ' ∨ c = '\t') ∧ ∀ c ∈ behind, c = ' ' ∨ c = '\t' := by
  have gap {c : Char} {ds : List Char} (h : c ∈ ds.takeWhile fun c => c == ' ' || c == '\t') : c = ' ' ∨ c = '\t' := by
    simpa using List.all_eq_true.mp List.all_takeWhile c h
  let isGap := fun c : Char => c == ' ' || c == '\t'
  refine ⟨cs.takeWhile isGap, ((cs.dropWhile isGap).reverse.takeWhile isGap).reverse, ?_, fun c h => gap h, fun c h => ?_⟩
  · rw [trimBlanks, List.append_assoc, ← List.reverse_append, List.takeWhile_append_dropWhile, List.reverse_reverse,
      List.takeWhile_append_dropWhile]
  · exact gap (List.mem_reverse.mp h)

/-- What is looked up in a table is one of its entries. -/
theorem mem_of_lookup {β : Type} {table : List (String × β)} {key : String} {value : β}
    (h : table.lookup key = some value) : (key, value) ∈ table := by
  obtain ⟨before, behind, rfl, -⟩ := List.lookup_eq_some_iff.mp h
  exact List.mem_append_right before (List.mem_cons_self ..)

/-- A cast is written as the word of its type between parentheses. -/
theorem spelling_of_ofWord? {word : String} {type : CastType} (h : CastType.ofWord? word = some type) :
    type.spelling.toList = '(' :: word.toList ++ [')'] := by
  have spelled : ∀ entry ∈ CastType.table, entry.2.spelling.toList = '(' :: entry.1.toList ++ [')'] := by decide
  exact spelled (word, type) (mem_of_lookup h)

/-- A cast is a type between blanks, up to the first closing parenthesis. -/
theorem castBody?_spec {cs body : List Char} {type : CastType} (h : castBody? cs = some (type, body)) :
    ∃ before word behind, body = before ++ word ++ behind ++ [')'] ∧ body ++ cs.drop body.length = cs ∧
      type.spelling.toList = '(' :: word ++ [')'] ∧
      (∀ c ∈ before, c = ' ' ∨ c = '\t') ∧ ∀ c ∈ behind, c = ' ' ∨ c = '\t' := by
  unfold castBody? at h
  by_cases hlt : (cs.takeWhile (· != ')')).length < cs.length
  · simp only [hlt, if_true, Option.map_eq_some_iff, Prod.mk.injEq] at h
    obtain ⟨type', hword, rfl, rfl⟩ := h
    obtain ⟨before, behind, hinner, hbefore, hbehind⟩ := trimBlanks_spec (cs.takeWhile (· != ')'))
    refine ⟨before, _, behind, congrArg (· ++ [')']) hinner, ?_, ?_, hbefore, hbehind⟩
    · have whole := List.takeWhile_append_dropWhile (p := (· != ')')) (l := cs)
      cases hrest : cs.dropWhile (· != ')') with
      | nil =>
          rw [hrest, List.append_nil] at whole
          rw [whole] at hlt
          exact absurd hlt (Nat.lt_irrefl _)
      | cons d ds =>
          obtain rfl : d = ')' := by simpa using head_dropWhile hrest
          rw [hrest] at whole
          exact List.prefix_iff_eq_append.mp ⟨ds, by simpa using whole⟩
    · simpa using spelling_of_ofWord? hword
  · simp [hlt] at h

/-! ### Scans -/

/-- What a scan covers and the rest make up the text, and something is covered. -/
structure Scan.Splits (s : Scan) (cs : List Char) : Prop where
  whole : s.raw ++ s.rest = cs
  filled : s.raw ≠ []

theorem splits_scanWhile (kind : TokenKind) {p : Char → Bool} {c : Char} (hc : p c = true) (cs : List Char) :
    (scanWhile kind p (c :: cs)).Splits (c :: cs) where
  whole := List.takeWhile_append_dropWhile
  filled := by simp [scanWhile, List.takeWhile_cons_of_pos hc]

theorem splits_scanLineComment {c : Char} (hc : c ≠ '\n') (cs : List Char) : (scanLineComment (c :: cs)).Splits (c :: cs) where
  whole := List.takeWhile_append_dropWhile
  filled := by simp [scanLineComment, hc]

theorem splits_scanBlockComment (cs : List Char) : (scanBlockComment cs).Splits ('/' :: '*' :: cs) where
  whole := congrArg ('/' :: '*' :: ·) (commentBody_split cs)
  filled := by simp [scanBlockComment]

theorem splits_closeString (kind : TokenKind) (quote : Char) {body : List Char × List Char} {cs : List Char}
    (hwhole : body.1 ++ body.2 = cs) (hquote : body.2 = [] ∨ body.2.head? = some quote) :
    (closeString kind quote body).Splits (quote :: cs) := by
  unfold closeString
  split
  · rename_i hrest
    rw [hrest, List.append_nil] at hwhole
    exact ⟨by simp [hwhole], by simp⟩
  · rename_i d rest hrest
    obtain rfl : d = quote := by simpa [hrest] using hquote
    rw [hrest] at hwhole
    exact ⟨by simp [hwhole], by simp⟩

theorem splits_scanMarked (mark : Char) (isDigit : Char → Bool) (fault : LexFault) (cs : List Char) :
    (scanMarked mark isDigit fault cs).Splits ('0' :: mark :: cs) where
  whole := congrArg ('0' :: mark :: ·) List.takeWhile_append_dropWhile
  filled := by simp [scanMarked]

theorem splits_scanDecimal {c : Char} (hc : c.isDigit = true) (cs : List Char) :
    (scanDecimal (c :: cs)).Splits (c :: cs) where
  whole := by
    simp only [scanDecimal, List.append_assoc, takeExponent_split, takeFraction_split, List.takeWhile_append_dropWhile]
  filled := by simp [scanDecimal, List.takeWhile_cons_of_pos hc]

theorem splits_scanNumber {c : Char} (hc : c.isDigit = true) (cs : List Char) :
    (scanNumber (c :: cs)).Splits (c :: cs) := by
  unfold scanNumber
  split
  · rename_i m ds heq
    obtain ⟨rfl, rfl⟩ := List.cons.inj heq
    split
    · exact splits_scanMarked ..
    · split
      · exact splits_scanMarked ..
      · exact splits_scanDecimal hc _
  · exact splits_scanDecimal hc cs

theorem splits_scanParen (cs : List Char) : (scanParen cs).Splits ('(' :: cs) := by
  unfold scanParen
  split
  · rename_i type body hcast
    obtain ⟨-, -, -, -, hsplit, -⟩ := castBody?_spec hcast
    exact ⟨congrArg ('(' :: ·) hsplit, by simp⟩
  · exact ⟨rfl, by simp⟩

theorem splits_scanSign (c : Char) (cs : List Char) : (scanSign c cs).Splits (c :: cs) := by
  refine ⟨?_, by simp [scanSign]⟩
  unfold scanSign
  cases htail : (signTails c).find? fun t => t.isPrefixOf cs with
  | none => rfl
  | some tail =>
      have hprefix : tail <+: cs := by simpa using List.find?_some htail
      exact congrArg (c :: ·) (List.prefix_iff_eq_append.mp hprefix)

theorem isNameChar_of_isNameStart {c : Char} (h : CharClass.isNameStart c = true) : CharClass.isNameChar c = true := by
  unfold CharClass.isNameStart at h
  unfold CharClass.isNameChar
  simp only [Char.isAlphanum, Bool.or_eq_true] at h ⊢
  rcases h with (h | h) | h <;> simp [h]

theorem scan_word {c : Char} (hdigit : c.isDigit = false) (hc : CharClass.isNameStart c = true) (cs : List Char) :
    scan c cs = scanWord (c :: cs) := by
  have other {d : Char} (hd : CharClass.isNameStart d = false) : c ≠ d := by
    rintro rfl
    simp [hd] at hc
  have hash : c ≠ '#' := other (by decide)
  have slash : c ≠ '/' := other (by decide)
  have single : c ≠ '\x27' := other (by decide)
  have double : c ≠ '"' := other (by decide)
  simp [scan, hdigit, hc, hash, slash, single, double]

/-- What a character opens. -/
theorem scan_cases {motive : Scan → Prop} {c : Char} {cs : List Char}
    (line : c = '#' ∨ c = '/' ∧ cs.head? = some '/' → motive (scanLineComment (c :: cs)))
    (block : c = '/' ∧ cs.head? = some '*' → motive (scanBlockComment (cs.drop 1)))
    (simple : c = '\x27' → motive (closeString .simpleString c (simpleBody cs)))
    (template : c = '"' → motive (closeString .template c (templateBody 0 cs)))
    (number : c.isDigit = true → motive (scanNumber (c :: cs)))
    (word : CharClass.isNameStart c = true → motive (scanWord (c :: cs)))
    (paren : c = '(' → motive (scanParen cs))
    (sign : c ≠ '#' → ¬(c = '/' ∧ cs.head? = some '/') → ¬(c = '/' ∧ cs.head? = some '*') → motive (scanSign c cs)) :
    motive (scan c cs) := by
  by_cases hhash : c = '#'
  · rw [scan, if_pos hhash]
    exact line (.inl hhash)
  by_cases hline : c = '/' ∧ cs.head? = some '/'
  · rw [scan, if_neg hhash, if_pos hline]
    exact line (.inr hline)
  by_cases hblock : c = '/' ∧ cs.head? = some '*'
  · rw [scan, if_neg hhash, if_neg hline, if_pos hblock]
    exact block hblock
  rw [scan, if_neg hhash, if_neg hline, if_neg hblock]
  by_cases hsimple : c = '\x27'
  · rw [if_pos hsimple]
    exact simple hsimple
  by_cases htemplate : c = '"'
  · rw [if_neg hsimple, if_pos htemplate]
    exact template htemplate
  rw [if_neg hsimple, if_neg htemplate]
  by_cases hdigit : c.isDigit = true
  · rw [if_pos hdigit]
    exact number hdigit
  by_cases hword : CharClass.isNameStart c = true
  · rw [if_neg hdigit, if_pos hword]
    exact word hword
  by_cases hparen : c = '('
  · rw [if_neg hdigit, if_neg hword, if_pos hparen]
    exact paren hparen
  · rw [if_neg hdigit, if_neg hword, if_neg hparen]
    exact sign hhash hline hblock

theorem splits_scan (c : Char) (cs : List Char) : (scan c cs).Splits (c :: cs) := by
  refine scan_cases (motive := fun s => s.Splits (c :: cs)) ?line ?block ?simple ?template
    (fun hdigit => splits_scanNumber hdigit cs) (fun hstart => splits_scanWhile _ (isNameChar_of_isNameStart hstart) cs)
    ?paren (fun _ _ _ => splits_scanSign c cs)
  case line =>
    rintro (hc | ⟨hc, -⟩)
    · exact splits_scanLineComment (by simp [hc]) cs
    · exact splits_scanLineComment (by simp [hc]) cs
  case block =>
    rintro ⟨rfl, hhead⟩
    cases cs with
    | nil => cases hhead
    | cons d ds =>
        cases hhead
        exact splits_scanBlockComment ds
  case simple =>
    rintro rfl
    exact splits_closeString _ _ (simpleBody_split cs) (head_simpleBody cs)
  case template =>
    rintro rfl
    exact splits_closeString _ _ (templateBody_split 0 cs) (head_templateBody 0 cs)
  case paren =>
    rintro rfl
    exact splits_scanParen cs

end Lexer

end StackScript
