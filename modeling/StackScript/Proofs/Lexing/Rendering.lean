/-
Tokens survive being written down again.

A scan that finds nothing wrong finds the same token again when it is written in front of a line break, and stops at
the line break.  For every scanner this says that it stops exactly where its own output ends.  The tokens of a
source without errors can therefore be written line by line and read back.
-/
import StackScript.Proofs.Lexing.Partition

namespace StackScript

namespace Lexer

/-! ### Runs -/

/-- A run ends in front of a character without its property. -/
theorem run_again {p : Char → Bool} {cs : List Char} (hcs : ∀ c ∈ cs, p c = true) (rest : List Char)
    (hrest : ∀ c, rest.head? = some c → p c = false) :
    (cs ++ rest).takeWhile p = cs ∧ (cs ++ rest).dropWhile p = rest := by
  induction cs with
  | nil =>
      cases rest with
      | nil => simp
      | cons c rest => simp [hrest c rfl]
  | cons c cs ih =>
      obtain ⟨htake, hdrop⟩ := ih fun d hd => hcs d (List.mem_cons_of_mem c hd)
      simp [hcs c (List.mem_cons_self ..), htake, hdrop]

theorem head_append {cs ds : List Char} {c : Char} (h : (cs ++ ds).head? = some c) :
    cs.head? = some c ∨ ds.head? = some c := by
  cases cs with
  | nil => exact .inr h
  | cons d cs => exact .inl h

theorem of_takeWhile (p : Char → Bool) (cs : List Char) : ∀ c ∈ cs.takeWhile p, p c = true :=
  List.all_eq_true.mp List.all_takeWhile

/-! ### Strings -/

theorem simpleBody_quote (cs : List Char) : simpleBody ('\x27' :: cs) = ([], '\x27' :: cs) := by
  rw [simpleBody.eq_def]
  simp

theorem simpleBody_escape (d : Char) (ds : List Char) :
    simpleBody ('\\' :: d :: ds) = ('\\' :: d :: (simpleBody ds).1, (simpleBody ds).2) := by
  rw [simpleBody.eq_def]
  simp

theorem simpleBody_other {c : Char} (hquote : c ≠ '\x27') (hescape : c ≠ '\\') (cs : List Char) :
    simpleBody (c :: cs) = (c :: (simpleBody cs).1, (simpleBody cs).2) := by
  rw [simpleBody.eq_def]
  simp [hquote, hescape]

/-- The inside of a string that is closed is found again in front of a quote. -/
theorem simpleBody_again {cs : List Char} (h : (simpleBody cs).2 ≠ []) (rest : List Char) :
    simpleBody ((simpleBody cs).1 ++ '\x27' :: rest) = ((simpleBody cs).1, '\x27' :: rest) := by
  fun_induction simpleBody cs with
  | case1 => simp at h
  | case2 => simp [simpleBody_quote]
  | case3 => simp at h
  | case4 d ds hquote ih => simp [simpleBody_escape, ih h]
  | case5 c cs hquote hescape ih => simp [simpleBody_other hquote hescape, ih h]

theorem templateBody_quote (cs : List Char) : templateBody 0 ('"' :: cs) = ([], '"' :: cs) := by
  rw [templateBody.eq_def]
  simp

theorem templateBody_escape (d : Char) (ds : List Char) :
    templateBody 0 ('\\' :: d :: ds) = ('\\' :: d :: (templateBody 0 ds).1, (templateBody 0 ds).2) := by
  rw [templateBody.eq_def]
  simp

theorem templateBody_group {cs : List Char} (hhead : cs.head? = some '$') :
    templateBody 0 ('\x7b' :: cs) = ('\x7b' :: (templateBody 1 cs).1, (templateBody 1 cs).2) := by
  rw [templateBody.eq_def]
  simp [hhead]

theorem templateBody_other {c : Char} {cs : List Char} (hquote : c ≠ '"') (hescape : c ≠ '\\')
    (hgroup : ¬(c = '\x7b' ∧ cs.head? = some '$')) :
    templateBody 0 (c :: cs) = (c :: (templateBody 0 cs).1, (templateBody 0 cs).2) := by
  rw [templateBody.eq_def]
  simp only [hquote, hescape, hgroup, if_false]

theorem templateBody_inside (n : Nat) (c : Char) (cs : List Char) :
    templateBody (n + 1) (c :: cs) =
      (c :: (templateBody (if c = '\x7b' then n + 2 else if c = '\x7d' then n else n + 1) cs).1,
        (templateBody (if c = '\x7b' then n + 2 else if c = '\x7d' then n else n + 1) cs).2) := by
  rw [templateBody]

/-- A group stays open behind its dollar sign. -/
theorem head_templateBody_group {cs : List Char} (hhead : cs.head? = some '$') (rest : List Char) :
    ((templateBody 1 cs).1 ++ rest).head? = some '$' := by
  obtain ⟨ds, rfl⟩ := List.head?_eq_some_iff.mp hhead
  simp [templateBody_inside]

/-- Written in front of a quote, the inside of a string starts as it did, or with the quote. -/
theorem head_templateBody_again {cs rest : List Char} {mark : Char} (hmark : mark ≠ '"')
    (h : ((templateBody 0 cs).1 ++ '"' :: rest).head? = some mark) : cs.head? = some mark := by
  have whole := templateBody_split 0 cs
  cases hinside : (templateBody 0 cs).1 with
  | nil =>
      rw [hinside] at h
      exact absurd (Option.some.inj h).symm hmark
  | cons c inside =>
      rw [hinside] at h whole
      rw [← whole]
      exact h

theorem templateBody_again {depth : Nat} {cs : List Char} (h : (templateBody depth cs).2 ≠ []) (rest : List Char) :
    templateBody depth ((templateBody depth cs).1 ++ '"' :: rest) = ((templateBody depth cs).1, '"' :: rest) := by
  fun_induction templateBody depth cs with
  | case1 => simp at h
  | case2 => simp [templateBody_quote]
  | case3 => simp at h
  | case4 d ds hquote ih => simp [templateBody_escape, ih h]
  | case5 c cs hquote hescape hgroup ih =>
      obtain ⟨rfl, hhead⟩ := hgroup
      simp [templateBody_group (head_templateBody_group hhead _), ih h]
  | case6 c cs hquote hescape hgroup ih =>
      have other : ¬(c = '\x7b' ∧ ((templateBody 0 cs).1 ++ '"' :: rest).head? = some '$') := by
        rintro ⟨hc, hhead⟩
        exact hgroup ⟨hc, head_templateBody_again (by decide) hhead⟩
      simp [templateBody_other hquote hescape other, ih h]
  | case7 n c cs depth ih =>
      have again := ih h
      simp only [depth, List.cons_append, templateBody_inside] at again ⊢
      rw [again]

/-- A string that is closed and whose inside is found again is found again. -/
theorem closeString_again (kind : TokenKind) {quote : Char} {body : List Char × List Char} {rest : List Char}
    {again : List Char × List Char} (hagain : again = (body.1, quote :: rest)) :
    closeString kind quote again = ⟨quote :: body.1 ++ [quote], rest, some kind, body.1, none⟩ := by
  subst hagain
  simp [closeString]

theorem closeString_closed {kind : TokenKind} {quote : Char} {body : List Char × List Char}
    (h : (closeString kind quote body).fault = none) : body.2 ≠ [] := by
  intro hend
  simp [closeString, hend] at h

theorem text_closeString (kind : TokenKind) (quote : Char) (body : List Char × List Char) :
    (closeString kind quote body).text = body.1 := by
  unfold closeString
  split <;> rfl

/-! ### Numbers -/

theorem takeFraction_again (cs : List Char) {rest : List Char}
    (hrest : ∀ c, rest.head? = some c → c.isDigit = false ∧ c ≠ '.') :
    takeFraction ((takeFraction cs).1 ++ rest) = ((takeFraction cs).1, rest) := by
  have none : takeFraction rest = ([], rest) := by
    unfold takeFraction
    split
    · exact absurd rfl (hrest '.' rfl).2
    · rfl
  by_cases h : (takeFraction cs).1 = []
  · rw [h]
    exact none
  · unfold takeFraction at h ⊢
    split at h
    · split at h
      · rename_i d ds hd
        obtain ⟨htake, hdrop⟩ := run_again (of_takeWhile Char.isDigit ds) rest fun c hc => (hrest c hc).1
        simp [hd, htake, hdrop]
      · simp at h
    · simp at h

theorem head_takeFraction {cs : List Char} {c : Char} (h : (takeFraction cs).1.head? = some c) : c = '.' := by
  unfold takeFraction at h
  split at h
  · split at h
    · exact (Option.some.inj h).symm
    · cases h
  · cases h

theorem takeExponent_again (cs : List Char) {rest : List Char}
    (hrest : ∀ c, rest.head? = some c → c.isDigit = false ∧ c ≠ 'e' ∧ c ≠ 'E') :
    takeExponent ((takeExponent cs).1 ++ rest) = ((takeExponent cs).1, rest) := by
  have none : takeExponent rest = ([], rest) := by
    cases rest with
    | nil => simp [takeExponent]
    | cons c rest => simp [takeExponent, (hrest c rfl).2]
  by_cases h : (takeExponent cs).1 = []
  · rw [h]
    exact none
  · have digits (ds : List Char) := run_again (of_takeWhile Char.isDigit ds) rest fun c hc => (hrest c hc).1
    unfold takeExponent at h ⊢
    split at h
    · split at h
      · rename_i e cs he
        split at h
        · rename_i d ds
          split at h
          · rename_i hd
            simp [he, hd, digits ds]
          · split at h
            · rename_i hd hsigned
              obtain ⟨hsign, hdigit⟩ := hsigned
              cases ds with
              | nil => simp at hdigit
              | cons f ds =>
                  simp at hdigit
                  simp [he, hd, hsign, hdigit, digits ds]
            · simp at h
        · simp at h
      · simp at h
    · simp at h

theorem head_takeExponent {cs : List Char} {c : Char} (h : (takeExponent cs).1.head? = some c) : c = 'e' ∨ c = 'E' := by
  unfold takeExponent at h
  split at h
  · split at h
    · rename_i e cs he
      split at h
      · split at h
        · cases h
          exact he
        · split at h
          · cases h
            exact he
          · cases h
      · cases h
    · cases h
  · cases h

/-- A decimal number ends in front of a line break. -/
theorem scanDecimal_again (cs rest : List Char) :
    scanDecimal ((scanDecimal cs).text ++ '\n' :: rest) =
      ⟨(scanDecimal cs).text, '\n' :: rest, (scanDecimal cs).kind, (scanDecimal cs).text, none⟩ := by
  have exponent (fraction : List Char) : takeExponent ((takeExponent fraction).1 ++ '\n' :: rest) =
      ((takeExponent fraction).1, '\n' :: rest) :=
    takeExponent_again fraction (by simp)
  have fraction (whole : List Char) :
      takeFraction ((takeFraction whole).1 ++ ((takeExponent (takeFraction whole).2).1 ++ '\n' :: rest)) =
        ((takeFraction whole).1, (takeExponent (takeFraction whole).2).1 ++ '\n' :: rest) := by
    apply takeFraction_again
    intro c hc
    rcases head_append hc with hmark | hbreak
    · rcases head_takeExponent hmark with rfl | rfl <;> decide
    · obtain rfl := Option.some.inj hbreak
      decide
  have whole := run_again (of_takeWhile Char.isDigit cs)
    ((takeFraction (cs.dropWhile Char.isDigit)).1 ++
      ((takeExponent (takeFraction (cs.dropWhile Char.isDigit)).2).1 ++ '\n' :: rest)) (by
      intro c hc
      rcases head_append hc with hpoint | hc
      · rw [head_takeFraction hpoint]
        decide
      rcases head_append hc with hmark | hbreak
      · rcases head_takeExponent hmark with rfl | rfl <;> decide
      · obtain rfl := Option.some.inj hbreak
        decide)
  simp only [scanDecimal, List.append_assoc, whole, fraction, exponent]

/-- A zero and a mark of a radix. -/
def Marked (cs : List Char) : Prop :=
  ∃ m ds, cs = '0' :: m :: ds ∧ (m = 'x' ∨ m = 'X' ∨ m = 'b' ∨ m = 'B')

theorem scanNumber_decimal {cs : List Char} (h : ¬Marked cs) : scanNumber cs = scanDecimal cs := by
  unfold scanNumber
  split
  · rename_i m ds
    have mark : ¬(m = 'x' ∨ m = 'X' ∨ m = 'b' ∨ m = 'B') := fun hm => h ⟨m, ds, rfl, hm⟩
    simp only [not_or] at mark
    simp [mark]
  · rfl

/-- What is not marked is not marked when it is cut off in front of a line break. -/
theorem not_marked_of_start {text cs : List Char} (hstart : text <+: cs) (h : ¬Marked cs) (rest : List Char) :
    ¬Marked (text ++ '\n' :: rest) := by
  rintro ⟨m, ds, heq, hm⟩
  obtain ⟨behind, rfl⟩ := hstart
  rcases text with _ | ⟨zero, _ | ⟨mark, text⟩⟩
  · simp at heq
  · have mark : '\n' = m := by simpa using (List.cons.inj (List.cons.inj heq).2).1
    subst mark
    simp at hm
  · simp only [List.cons_append, List.cons.injEq] at heq
    obtain ⟨rfl, rfl, -⟩ := heq
    exact h ⟨mark, text ++ behind, by simp, hm⟩

/-- A number in a marked radix ends in front of a line break. -/
theorem scanMarked_again {mark : Char} {isDigit : Char → Bool} {fault : LexFault} {cs : List Char}
    (hbreak : isDigit '\n' = false) (hfault : (scanMarked mark isDigit fault cs).fault = none) (rest : List Char) :
    scanMarked mark isDigit fault (cs.takeWhile isDigit ++ '\n' :: rest) =
      ⟨(scanMarked mark isDigit fault cs).text, '\n' :: rest, (scanMarked mark isDigit fault cs).kind,
        (scanMarked mark isDigit fault cs).text, none⟩ := by
  obtain ⟨htake, hdrop⟩ := run_again (of_takeWhile isDigit cs) ('\n' :: rest) (by simp [hbreak])
  simp only [scanMarked, htake, hdrop] at hfault ⊢
  rw [hfault]

theorem scanNumber_hex {m : Char} (hm : m = 'x' ∨ m = 'X') (cs : List Char) :
    scanNumber ('0' :: m :: cs) = scanMarked m CharClass.isHexDigit .missingHexDigits cs := if_pos hm

theorem scanNumber_binary {m : Char} (hm : m = 'b' ∨ m = 'B') (cs : List Char) :
    scanNumber ('0' :: m :: cs) = scanMarked m (fun c => c == '0' || c == '1') .missingBinaryDigits cs := by
  have hx : ¬(m = 'x' ∨ m = 'X') := by rcases hm with rfl | rfl <;> decide
  exact (if_neg hx).trans (if_pos hm)

theorem scanNumber_again {cs : List Char} (hfault : (scanNumber cs).fault = none) (rest : List Char) :
    scanNumber ((scanNumber cs).text ++ '\n' :: rest) =
      ⟨(scanNumber cs).text, '\n' :: rest, (scanNumber cs).kind, (scanNumber cs).text, none⟩ := by
  by_cases hmarked : Marked cs
  · obtain ⟨m, ds, rfl, hm⟩ := hmarked
    have again {isDigit : Char → Bool} {fault : LexFault} (hbreak : isDigit '\n' = false)
        (hscan : ∀ cs, scanNumber ('0' :: m :: cs) = scanMarked m isDigit fault cs) :
        scanNumber ((scanNumber ('0' :: m :: ds)).text ++ '\n' :: rest) =
          ⟨(scanNumber ('0' :: m :: ds)).text, '\n' :: rest, (scanNumber ('0' :: m :: ds)).kind,
            (scanNumber ('0' :: m :: ds)).text, none⟩ := by
      rw [hscan] at hfault ⊢
      exact (hscan _).trans (scanMarked_again hbreak hfault rest)
    rcases hm with hm | hm | hm | hm
    · exact again (by decide) (scanNumber_hex (.inl hm))
    · exact again (by decide) (scanNumber_hex (.inr hm))
    · exact again (by decide) (scanNumber_binary (.inl hm))
    · exact again (by decide) (scanNumber_binary (.inr hm))
  · have hstart : (scanDecimal cs).text <+: cs := by
      refine ⟨(scanDecimal cs).rest, ?_⟩
      simp only [scanDecimal, List.append_assoc, takeExponent_split, takeFraction_split, List.takeWhile_append_dropWhile]
    rw [scanNumber_decimal hmarked, scanNumber_decimal (not_marked_of_start hstart hmarked rest)]
    exact scanDecimal_again cs rest

/-! ### Words, casts and signs -/

theorem scanWord_again (cs rest : List Char) :
    scanWord ((scanWord cs).text ++ '\n' :: rest) =
      ⟨(scanWord cs).text, '\n' :: rest, (scanWord cs).kind, (scanWord cs).text, none⟩ := by
  obtain ⟨htake, hdrop⟩ := run_again (of_takeWhile CharClass.isNameChar cs) ('\n' :: rest) (by
    intro c hc
    obtain rfl := Option.some.inj hc
    decide)
  simp only [scanWord, scanWhile, htake, hdrop]

/-- The word of a cast has no blanks around it, and nothing in it closes the parentheses. -/
theorem castWords : ∀ entry ∈ CastType.table, trimBlanks entry.1.toList = entry.1.toList ∧
    CastType.ofWord? entry.1 = some entry.2 ∧ ')' ∉ entry.1.toList := by
  decide

/-- A cast is found again behind its opening parenthesis. -/
theorem castBody?_again {word : String} {type : CastType} (h : CastType.ofWord? word = some type) (rest : List Char) :
    castBody? (word.toList ++ ')' :: rest) = some (type, word.toList ++ [')']) := by
  obtain ⟨htrim, hword, hclose⟩ := castWords (word, type) (mem_of_lookup h)
  have inside : ∀ c ∈ word.toList, (c != ')') = true := by
    intro c hc
    simpa using ne_of_mem_of_not_mem hc hclose
  obtain ⟨htake, -⟩ := run_again inside (')' :: rest) (by simp)
  simp [castBody?, htake, htrim, hword]

theorem break_not_mem_spelling (type : CastType) : '\n' ∉ type.spelling.toList := by
  cases type <;> decide

/-- A parenthesis in front of a line break opens no cast. -/
theorem castBody?_break (rest : List Char) : castBody? ('\n' :: rest) = none := by
  cases h : castBody? ('\n' :: rest) with
  | none => rfl
  | some cast =>
      obtain ⟨before, word, behind, hbody, hsplit, hspelling, hbefore, hbehind⟩ := castBody?_spec h
      have not_word : '\n' ∉ word := by
        intro hmem
        exact break_not_mem_spelling cast.1 (by simp [hspelling, hmem])
      have in_body : '\n' ∈ cast.2 := by
        cases hcast : cast.2 with
        | nil => simp [hbody] at hcast
        | cons c cs =>
            rw [hcast] at hsplit
            simp [(List.cons.inj hsplit).1]
      rw [hbody] at in_body
      simp only [List.mem_append, List.mem_singleton] at in_body
      rcases in_body with ((hmem | hmem) | hmem) | hmem
      · exact absurd (hbefore _ hmem) (by decide)
      · exact absurd hmem not_word
      · exact absurd (hbehind _ hmem) (by decide)
      · exact absurd hmem (by decide)

theorem word_of_castBody? {cs : List Char} {cast : CastType × List Char} (h : castBody? cs = some cast) :
    ∃ word, CastType.ofWord? word = some cast.1 := by
  by_cases hclosed : (cs.takeWhile (· != ')')).length < cs.length
  · simp only [castBody?, hclosed, if_true, Option.map_eq_some_iff] at h
    obtain ⟨type, hword, rfl⟩ := h
    exact ⟨_, hword⟩
  · simp [castBody?, hclosed] at h

theorem scanParen_again (cs : List Char) : ∃ ds, (scanParen cs).text = '(' :: ds ∧ ∀ rest,
    scanParen (ds ++ '\n' :: rest) = ⟨'(' :: ds, '\n' :: rest, (scanParen cs).kind, '(' :: ds, none⟩ := by
  cases h : castBody? cs with
  | none =>
      refine ⟨[], by simp [scanParen, h], fun rest => ?_⟩
      simp [scanParen, h, castBody?_break]
  | some cast =>
      obtain ⟨word, hword⟩ := word_of_castBody? h
      have spelling := spelling_of_ofWord? hword
      refine ⟨word.toList ++ [')'], by simp [scanParen, h, spelling], fun rest => ?_⟩
      simp [scanParen, h, castBody?_again hword, spelling]

/-- No sign goes on with a line break. -/
theorem signTails_break (c : Char) : ∀ tail ∈ signTails c, '\n' ∉ tail := by
  unfold signTails
  split <;> decide

theorem starts_of_break {tail text rest : List Char} (hbreak : '\n' ∉ tail) (h : tail <+: text ++ '\n' :: rest) :
    tail <+: text := by
  rcases List.prefix_or_prefix_of_prefix h (List.prefix_append text ('\n' :: rest)) with hshort | ⟨more, rfl⟩
  · exact hshort
  · cases more with
    | nil => simp
    | cons c more =>
        obtain rfl := (List.cons_prefix_cons.mp ((List.prefix_append_right_inj text).mp h)).1
        simp at hbreak

/-- The first tail that fits a text. -/
def fittingTail (tails : List (List Char)) (cs : List Char) : List Char :=
  (tails.find? fun tail => tail.isPrefixOf cs).getD []

theorem fittingTail_fits (tails : List (List Char)) (cs : List Char) : fittingTail tails cs <+: cs := by
  unfold fittingTail
  cases h : tails.find? fun tail => tail.isPrefixOf cs with
  | none => simp
  | some tail => simpa using List.find?_some h

/-- The first tail that fits a text is the first one that fits it when the text ends behind it. -/
theorem fittingTail_again {tails : List (List Char)} (htails : ∀ tail ∈ tails, '\n' ∉ tail) (cs rest : List Char) :
    fittingTail tails (fittingTail tails cs ++ '\n' :: rest) = fittingTail tails cs := by
  induction tails with
  | nil => rfl
  | cons tail tails ih =>
      have later := ih fun other hother => htails other (List.mem_cons_of_mem tail hother)
      by_cases hfits : tail.isPrefixOf cs = true
      · have first : fittingTail (tail :: tails) cs = tail := by simp [fittingTail, hfits]
        rw [first]
        simp [fittingTail]
      · have skip (ds : List Char) (h : ¬tail <+: ds) : fittingTail (tail :: tails) ds = fittingTail tails ds := by
          have no : ¬tail.isPrefixOf ds = true := by simpa using h
          simp [fittingTail, no]
        rw [skip cs (by simpa using hfits), skip _ ?_, later]
        intro hstart
        have short := starts_of_break (htails tail (List.mem_cons_self ..)) hstart
        exact hfits (by simpa using short.trans (fittingTail_fits tails cs))

theorem scanSign_again {c : Char} {cs : List Char} (hfault : (scanSign c cs).fault = none) :
    ∃ ds, (scanSign c cs).text = c :: ds ∧ ds <+: cs ∧ ∀ rest,
      scanSign c (ds ++ '\n' :: rest) = ⟨c :: ds, '\n' :: rest, (scanSign c cs).kind, c :: ds, none⟩ := by
  refine ⟨fittingTail (signTails c) cs, rfl, fittingTail_fits _ _, fun rest => ?_⟩
  have again := fittingTail_again (signTails_break c) cs rest
  unfold fittingTail at again
  have printable : CharClass.isControl c = false := by
    cases hc : CharClass.isControl c with
    | false => rfl
    | true => simp [scanSign, hc] at hfault
  simp only [scanSign, fittingTail, again, printable]
  simp

/-! ### Scans -/

theorem scan_single (cs : List Char) : scan '\x27' cs = closeString .simpleString '\x27' (simpleBody cs) := by
  simp [scan]

theorem scan_double (cs : List Char) : scan '"' cs = closeString .template '"' (templateBody 0 cs) := by
  simp [scan]

theorem scan_digit {c : Char} (hc : c.isDigit = true) (cs : List Char) : scan c cs = scanNumber (c :: cs) := by
  have other {d : Char} (hd : d.isDigit = false) : c ≠ d := by
    rintro rfl
    simp [hd] at hc
  have hash : c ≠ '#' := other (by decide)
  have slash : c ≠ '/' := other (by decide)
  have single : c ≠ '\x27' := other (by decide)
  have double : c ≠ '"' := other (by decide)
  simp [scan, hc, hash, slash, single, double]

theorem scan_paren (cs : List Char) : scan '(' cs = scanParen cs := by
  have digit : Char.isDigit '(' = false := by decide
  have word : CharClass.isNameStart '(' = false := by decide
  simp [scan, digit, word]

theorem scan_sign {c : Char} (hdigit : c.isDigit = false) (hword : CharClass.isNameStart c = false)
    (hother : c ∉ ['#', '\x27', '"', '(']) {cs : List Char} (hslash : c = '/' → cs.head? ≠ some '/' ∧ cs.head? ≠ some '*') :
    scan c cs = scanSign c cs := by
  simp only [List.mem_cons, List.not_mem_nil, or_false, not_or] at hother
  obtain ⟨hash, single, double, paren⟩ := hother
  have line : ¬(c = '/' ∧ cs.head? = some '/') := fun h => (hslash h.1).1 h.2
  have block : ¬(c = '/' ∧ cs.head? = some '*') := fun h => (hslash h.1).2 h.2
  simp [scan, hdigit, hword, hash, line, block, single, double, paren]

/-- What a plain scan covers starts with the character in front. -/
theorem text_of_plain {c : Char} {cs : List Char} (h : (scan c cs).Plain) : ∃ ds, (scan c cs).text = c :: ds := by
  obtain ⟨hwhole, hfilled⟩ := splits_scan c cs
  rw [h.raw] at hwhole hfilled
  cases htext : (scan c cs).text with
  | nil => exact absurd htext hfilled
  | cons d ds =>
      rw [htext] at hwhole
      obtain rfl := (List.cons.inj hwhole).1
      exact ⟨ds, rfl⟩

end Lexer

/-- How a text of a kind is written: that of a string between its quotes. -/
def TokenKind.written (kind : TokenKind) (text : List Char) : List Char :=
  match kind.quote? with
  | some quote => quote :: text ++ [quote]
  | none => text

namespace Lexer

/-- What a scan starting with `c` finds is found again when it is written down: in front of a line break it is scanned
as the same token, up to the line break. -/
def Scan.Again (c : Char) (s : Scan) : Prop :=
  ∀ kind, s.kind = some kind → ∃ ds, kind.written s.text = c :: ds ∧
    ∀ rest, scan c (ds ++ '\n' :: rest) = ⟨kind.written s.text, '\n' :: rest, s.kind, s.text, none⟩

theorem written_of_plain {s : Scan} (h : s.Plain) {kind : TokenKind} (hkind : s.kind = some kind) :
    kind.written s.text = s.text := by
  simp [TokenKind.written, h.quote kind hkind]

theorem again_string {c : Char} {kind : TokenKind} (hquote : kind.quote? = some c)
    {body : List Char → List Char × List Char} (hscan : ∀ cs, scan c cs = closeString kind c (body cs))
    (hagain : ∀ {cs}, (body cs).2 ≠ [] → ∀ rest, body ((body cs).1 ++ c :: rest) = ((body cs).1, c :: rest))
    {cs : List Char} (hfault : (scan c cs).fault = none) : (scan c cs).Again c := by
  intro k hk
  rw [hscan] at hfault hk ⊢
  rw [kind_closeString] at hk
  cases hk
  refine ⟨(body cs).1 ++ [c], by simp [text_closeString, TokenKind.written, hquote], fun rest => ?_⟩
  have again := closeString_again kind (hagain (closeString_closed hfault) ('\n' :: rest))
  simp [hscan, again, text_closeString, kind_closeString, TokenKind.written, hquote]

/-- A scanner that finds its own text again finds the text of a scan again. -/
theorem again_plain {c : Char} {cs : List Char} {scanner : List Char → Scan} (hscan : ∀ cs, scan c cs = scanner (c :: cs))
    (hplain : (scanner (c :: cs)).Plain) (hagain : ∀ rest, scanner ((scanner (c :: cs)).text ++ '\n' :: rest) =
      ⟨(scanner (c :: cs)).text, '\n' :: rest, (scanner (c :: cs)).kind, (scanner (c :: cs)).text, none⟩) :
    (scan c cs).Again c := by
  intro kind hkind
  rw [← hscan] at hplain
  obtain ⟨ds, hds⟩ := text_of_plain hplain
  rw [written_of_plain hplain hkind]
  refine ⟨ds, hds, fun rest => ?_⟩
  have again := hagain rest
  rw [← hscan cs, hds, List.cons_append, ← hscan] at again
  rw [hds]
  exact again

theorem again_scanParen (cs : List Char) : (scan '(' cs).Again '(' := by
  intro kind hkind
  obtain ⟨ds, htext, hagain⟩ := scanParen_again cs
  have written : kind.written (scanParen cs).text = (scanParen cs).text := by
    rw [scan_paren] at hkind
    cases hcast : castBody? cs with
    | none => exact written_of_plain (plain_scanParen hcast) hkind
    | some cast =>
        simp only [scanParen, hcast, Option.some.injEq] at hkind
        subst hkind
        rfl
  rw [scan_paren, written]
  refine ⟨ds, htext, fun rest => ?_⟩
  rw [scan_paren, hagain, htext]

theorem again_scanSign {c : Char} {cs : List Char} (hscan : scan c cs = scanSign c cs) (hfault : (scan c cs).fault = none)
    (hagain : ∀ ds rest, ds <+: cs → scan c (ds ++ '\n' :: rest) = scanSign c (ds ++ '\n' :: rest)) : (scan c cs).Again c := by
  intro kind hkind
  rw [hscan] at hfault hkind ⊢
  obtain ⟨ds, htext, hstart, again⟩ := scanSign_again hfault
  rw [written_of_plain (plain_scanSign c cs) hkind]
  refine ⟨ds, htext, fun rest => ?_⟩
  rw [hagain ds rest hstart, again, htext]

theorem head_of_start {ds cs rest : List Char} (hstart : ds <+: cs) {mark : Char} (hmark : mark ≠ '\n')
    (h : cs.head? ≠ some mark) : (ds ++ '\n' :: rest).head? ≠ some mark := by
  intro hhead
  rcases head_append hhead with hfront | hbreak
  · obtain ⟨behind, rfl⟩ := hstart
    obtain ⟨more, rfl⟩ := List.head?_eq_some_iff.mp hfront
    exact h rfl
  · exact hmark (Option.some.inj hbreak).symm

/-- A token in which nothing is wrong is found again. -/
theorem scan_again {c : Char} {cs : List Char} (hfault : (scan c cs).fault = none) : (scan c cs).Again c := by
  by_cases hline : c = '#' ∨ c = '/' ∧ cs.head? = some '/'
  · have comment : scan c cs = scanLineComment (c :: cs) := by
      rcases hline with rfl | ⟨rfl, hhead⟩
      · simp [scan]
      · simp [scan, hhead]
    rw [comment]
    simp [Scan.Again, scanLineComment]
  by_cases hblock : c = '/' ∧ cs.head? = some '*'
  · obtain ⟨rfl, hhead⟩ := hblock
    simp [Scan.Again, scan, hhead, scanBlockComment]
  by_cases hsingle : c = '\x27'
  · subst hsingle
    exact again_string rfl scan_single simpleBody_again hfault
  by_cases hdouble : c = '"'
  · subst hdouble
    exact again_string rfl scan_double templateBody_again hfault
  cases hdigit : c.isDigit with
  | true =>
      apply again_plain (scan_digit hdigit) (plain_scanNumber _)
      apply scanNumber_again
      rw [← scan_digit hdigit]
      exact hfault
  | false =>
      cases hword : CharClass.isNameStart c with
      | true => exact again_plain (scan_word hdigit hword) (plain_scanWord _) (scanWord_again _)
      | false =>
          by_cases hparen : c = '('
          · subst hparen
            exact again_scanParen cs
          · have sign {ds : List Char} (hslash : c = '/' → ds.head? ≠ some '/' ∧ ds.head? ≠ some '*') :
                scan c ds = scanSign c ds := by
              apply scan_sign hdigit hword _ hslash
              simp only [not_or] at hline
              simp [hline, hsingle, hdouble, hparen]
            have slash (hc : c = '/') : cs.head? ≠ some '/' ∧ cs.head? ≠ some '*' :=
              ⟨fun hhead => hline (.inr ⟨hc, hhead⟩), fun hhead => hblock ⟨hc, hhead⟩⟩
            apply again_scanSign (sign slash) hfault
            intro ds rest hstart
            apply sign
            intro hc
            exact ⟨head_of_start hstart (by decide) (slash hc).1, head_of_start hstart (by decide) (slash hc).2⟩

/-! ### Sources -/

end Lexer

namespace Token

/-- The characters a token is written as. -/
def written (t : Token) : List Char := t.kind.written t.text.toList

/-- What a token is, wherever it stands. -/
def lexeme (t : Token) : TokenKind × String := (t.kind, t.text)

end Token

/-- The text that has every token between line breaks of its own. -/
def Tokens.rendered (ts : List Token) : String :=
  String.ofList (ts.flatMap fun t => '\n' :: t.written ++ ['\n'])

namespace Lexer

/-- A token that is found again when it is written down in front of a line break. -/
def Refound (t : Token) : Prop :=
  ∃ c cs, t.written = c :: cs ∧ CharClass.isBlank c = false ∧
    ∀ rest, scan c (cs ++ '\n' :: rest) = ⟨t.written, '\n' :: rest, some t.kind, t.text.toList, none⟩

/-- A scan without an error gives a token that is found again. -/
theorem refound_toLexed {c : Char} {cs : List Char} (hc : CharClass.isBlank c = false) {p : Position} {t : Token}
    (htoken : ((scan c cs).toLexed p).token = some t) (herror : ((scan c cs).toLexed p).error = none) : Refound t := by
  obtain ⟨kind, hkind, rfl⟩ := Option.map_eq_some_iff.mp htoken
  have hfault : (scan c cs).fault = none := Option.map_eq_none_iff.mp herror
  obtain ⟨ds, hwritten, hscan⟩ := scan_again hfault kind hkind
  refine ⟨c, ds, by simpa [Token.written] using hwritten, hc, fun rest => ?_⟩
  simpa [Token.written, hkind] using hscan rest

/-- A walk without errors gives tokens that are found again. -/
theorem refound_run {n : Nat} {p : Position} {cs : List Char} (h : (run n p cs).filterMap Lexed.error = []) :
    ∀ t ∈ (run n p cs).filterMap Lexed.token, Refound t := by
  induction n generalizing p cs with
  | zero => simp [run]
  | succ n ih =>
      rw [run] at h ⊢
      cases hrest : (skipBlanks cs).2 with
      | nil => simp
      | cons c rest =>
          simp only [hrest] at h ⊢
          intro t ht
          obtain ⟨l, hl, htoken⟩ := List.mem_filterMap.mp ht
          rcases List.mem_cons.mp hl with rfl | hlater
          · have herror := (List.filterMap_eq_nil_iff.mp h) _ (List.mem_cons_self ..)
            exact refound_toLexed (not_isBlank_skipBlanks hrest) htoken herror
          · have later := List.filterMap_eq_nil_iff.mpr fun l hl =>
              (List.filterMap_eq_nil_iff.mp h) l (List.mem_cons_of_mem _ hl)
            exact ih later t (List.mem_filterMap.mpr ⟨l, hlater, htoken⟩)

/-- One round of a walk that comes to a token that is found again. -/
theorem run_refound {t : Token} (ht : Refound t) {blanks : List Char} (hne : blanks ≠ [])
    (hblanks : ∀ c ∈ blanks, CharClass.isBlank c = true) (n : Nat) (p : Position) (rest : List Char) :
    ∃ line p', run (n + 1) p (blanks ++ (t.written ++ '\n' :: rest)) =
      ⟨some { t with line := line }, none⟩ :: run n p' ('\n' :: rest) := by
  obtain ⟨c, cs, hwritten, hc, hscan⟩ := ht
  obtain ⟨htake, hdrop⟩ := run_again hblanks (c :: (cs ++ '\n' :: rest)) (by
    intro d hd
    obtain rfl := Option.some.inj hd
    exact hc)
  have skip : skipBlanks (blanks ++ (t.written ++ '\n' :: rest)) = (blanks, c :: (cs ++ '\n' :: rest)) := by
    obtain ⟨b, bs, rfl⟩ := List.exists_cons_of_ne_nil hne
    have mark : b ≠ CharClass.byteOrderMark := by
      rintro rfl
      exact absurd (hblanks _ (List.mem_cons_self ..)) (by decide)
    rw [hwritten]
    simp only [List.cons_append] at htake hdrop ⊢
    simp only [skipBlanks, mark, if_false, htake, hdrop]
  rw [run]
  simp only [skip, hscan]
  refine ⟨(p.advance blanks).line, ((p.advance blanks).advance t.written), ?_⟩
  simp [Scan.toLexed]

/-- The walk over tokens that are written down, behind a line break or at the start, finds them and nothing wrong. -/
theorem run_rendered {ts : List Token} (hts : ∀ t ∈ ts, Refound t) {front : List Char} (hfront : front = [] ∨ front = ['\n'])
    {n : Nat} (hn : front.length + (Tokens.rendered ts).toList.length ≤ n) (p : Position) :
    (run n p (front ++ (Tokens.rendered ts).toList)).filterMap Lexed.error = [] ∧
      ((run n p (front ++ (Tokens.rendered ts).toList)).filterMap Lexed.token).map Token.lexeme = ts.map Token.lexeme := by
  induction ts generalizing front n p with
  | nil =>
      have skip : (skipBlanks front).2 = [] := by
        rcases hfront with rfl | rfl <;> decide
      cases n <;> simp [Tokens.rendered, run, skip]
  | cons t ts ih =>
      have first : (Tokens.rendered (t :: ts)).toList = '\n' :: (t.written ++ '\n' :: (Tokens.rendered ts).toList) := by
        simp [Tokens.rendered]
      rw [first, List.length_cons, List.length_append, List.length_cons] at hn
      obtain ⟨n, rfl⟩ : ∃ m, n = m + 1 := ⟨n - 1, by omega⟩
      have blanks : ∀ c ∈ front ++ ['\n'], CharClass.isBlank c = true := by
        intro c hc
        obtain rfl : c = '\n' := by rcases hfront with rfl | rfl <;> simpa using hc
        decide
      obtain ⟨line, p', round⟩ := run_refound (hts t (List.mem_cons_self ..)) (by simp) blanks n p (Tokens.rendered ts).toList
      have later := ih (fun t ht => hts t (List.mem_cons_of_mem _ ht)) (.inr rfl) (n := n)
        (by simp only [List.length_cons, List.length_nil]; omega) p'
      rw [List.append_assoc, List.singleton_append] at round
      rw [first, round]
      simpa [Token.lexeme] using later

end Lexer

/-- The tokens of a source without errors, each written between line breaks of its own, are read back: the same kinds
and texts in the same order, and no error. -/
theorem Tokens.ofSource_rendered {source : String} {line : Nat} (h : (Tokens.ofSource source line).errors = [])
    (line' : Nat) :
    (Tokens.ofSource (Tokens.rendered (Tokens.ofSource source line).tokens) line').errors = [] ∧
      (Tokens.ofSource (Tokens.rendered (Tokens.ofSource source line).tokens) line').tokens.map Token.lexeme =
        (Tokens.ofSource source line).tokens.map Token.lexeme := by
  have refound : ∀ t ∈ (Tokens.ofSource source line).tokens, Lexer.Refound t := Lexer.refound_run h
  generalize (Tokens.ofSource source line).tokens = ts at refound
  have walk := Lexer.run_rendered refound (.inl rfl) (Nat.le_of_eq (Nat.zero_add _)) ⟨line', 1⟩
  rw [List.nil_append] at walk
  simp only [Tokens.ofSource, Tokens.ofLexemes, Lexer.lexemes]
  exact walk

/-- A template with a quote in its group, a cast with blanks, and a comment in front of a marked number. -/
theorem Tokens.ofSource_rendered_template :
    (Tokens.ofSource "\"\x7b$a[\"k\"]\x7d\" <=( int )/* */0x1F" 1).errors = [] ∧
      (Tokens.ofSource (Tokens.rendered (Tokens.ofSource "\"\x7b$a[\"k\"]\x7d\" <=( int )/* */0x1F" 1).tokens) 5).tokens.map
        Token.lexeme = [(.template, "\x7b$a[\"k\"]\x7d"), (.operator .le, "<="), (.operator (.cast .int), "(int)"),
          (.integer, "0x1F")] := by
  have errors : (Tokens.ofSource "\"\x7b$a[\"k\"]\x7d\" <=( int )/* */0x1F" 1).errors = [] := by decide +kernel
  refine ⟨errors, (Tokens.ofSource_rendered errors 5).2.trans ?_⟩
  decide +kernel

end StackScript
