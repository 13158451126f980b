/-
The lexemes of a source are a partition of it.

A source is blanks and comments between the lexemes of its tokens, and nothing else.  The walk shows it round by
round: a scan that finds a comment adds to what stands in front of the next lexeme, and a scan that finds a token
splits off its lexeme.  A token is on the line on which its lexeme starts, as its position is that of the text in
front of it.
-/
import StackScript.Proofs.Lexing.Scan

namespace StackScript

/-- The quote around the text of a string. -/
def TokenKind.quote? : TokenKind → Option Char
  | .simpleString => some '\x27'
  | .template => some '"'
  | _ => none

namespace Lexer

/-! ### Gaps -/

/-- Blanks, byte order marks and comments with `behind` following them.  A comment on a line ends in front of a
line break or with the text; only a block comment with nothing behind it may lack its end. -/
inductive Gap (behind : List Char) : List Char → Prop
  | nil : Gap behind []
  | blank {c : Char} {cs : List Char} (hc : CharClass.isBlank c = true) (h : Gap behind cs) : Gap behind (c :: cs)
  | mark {cs : List Char} (h : Gap behind cs) : Gap behind (CharClass.byteOrderMark :: cs)
  | lineComment {opening body cs : List Char} (hopening : opening = ['#'] ∨ opening = ['/', '/']) (hbody : '\n' ∉ body)
      (hends : ∀ c, (cs ++ behind).head? = some c → c = '\n') (h : Gap behind cs) : Gap behind (opening ++ body ++ cs)
  | blockComment {body cs : List Char} (hbody : Unclosed body) (h : Gap behind cs) :
      Gap behind ('/' :: '*' :: body ++ ['*', '/'] ++ cs)
  | openComment {body : List Char} (hbody : Unclosed body) (hbehind : behind = []) : Gap behind ('/' :: '*' :: body)

/-- Blanks in front of a gap belong to it. -/
theorem Gap.blanks {behind cs : List Char} (h : Gap behind cs) {blanks : List Char}
    (hblanks : ∀ c ∈ blanks, CharClass.isBlank c = true) : Gap behind (blanks ++ cs) := by
  induction blanks with
  | nil => exact h
  | cons c blanks ih =>
      apply Gap.blank (hblanks c (List.mem_cons_self ..))
      exact ih fun d hd => hblanks d (List.mem_cons_of_mem c hd)

theorem skipBlanks_split (cs : List Char) : (skipBlanks cs).1 ++ (skipBlanks cs).2 = cs := by
  unfold skipBlanks
  split
  · rfl
  · split <;> simp

/-- What is skipped in front of a text belongs to the gap. -/
theorem Gap.skipBlanks {behind gap : List Char} (h : Gap behind gap) (cs : List Char) :
    Gap behind ((Lexer.skipBlanks cs).1 ++ gap) := by
  have blank {ds : List Char} (c : Char) (hc : c ∈ ds.takeWhile CharClass.isBlank) : CharClass.isBlank c = true :=
    List.all_eq_true.mp List.all_takeWhile c hc
  unfold Lexer.skipBlanks
  split
  · exact h
  · split
    · rename_i hmark
      subst hmark
      exact .mark (h.blanks blank)
    · exact h.blanks blank

/-- What is left behind blanks does not start with one. -/
theorem not_isBlank_skipBlanks {cs ds : List Char} {c : Char} (h : (skipBlanks cs).2 = c :: ds) :
    CharClass.isBlank c = false := by
  unfold skipBlanks at h
  split at h
  · cases h
  · split at h <;> exact head_dropWhile h

/-- A scan that finds no token adds to the gap in front of the next one. -/
def Scan.Widens (s : Scan) : Prop :=
  s.kind = none → ∀ {behind gap : List Char}, s.rest = gap ++ behind → Gap behind gap → Gap behind (s.raw ++ gap)

theorem Scan.Widens.of_kind {s : Scan} (h : s.kind ≠ none) : s.Widens := fun hnone => absurd hnone h

theorem widens_scanLineComment {opening : List Char} (hopening : opening = ['#'] ∨ opening = ['/', '/'])
    (cs : List Char) : (scanLineComment (opening ++ cs)).Widens := by
  intro _ behind gap hrest h
  have split : (opening ++ cs).takeWhile (· != '\n') = opening ++ cs.takeWhile (· != '\n') ∧
      (opening ++ cs).dropWhile (· != '\n') = cs.dropWhile (· != '\n') := by
    rcases hopening with rfl | rfl <;> simp
  simp only [scanLineComment, split] at hrest ⊢
  apply Gap.lineComment hopening _ _ h
  · intro hmem
    simpa using List.all_eq_true.mp List.all_takeWhile _ hmem
  · intro d hd
    cases hbehind : gap ++ behind with
    | nil => simp [hbehind] at hd
    | cons e es =>
        obtain rfl : e = d := by simpa [hbehind] using hd
        simpa using head_dropWhile (hrest.trans hbehind)

theorem widens_scanBlockComment (cs : List Char) : (scanBlockComment cs).Widens := by
  intro _ behind gap hrest h
  cases hclosed : (commentBody cs).2.2 with
  | true =>
      obtain ⟨inside, hinside, hunclosed⟩ := commentBody_closed hclosed
      simp only [scanBlockComment, hinside]
      exact .blockComment hunclosed h
  | false =>
      obtain ⟨hend, hunclosed⟩ := commentBody_open hclosed
      have hempty : gap ++ behind = [] := hrest.symm.trans hend
      obtain ⟨rfl, rfl⟩ := List.append_eq_nil_iff.mp hempty
      rw [List.append_nil]
      exact .openComment hunclosed rfl

theorem kind_closeString (kind : TokenKind) (quote : Char) (body : List Char × List Char) :
    (closeString kind quote body).kind = some kind := by
  unfold closeString
  split <;> rfl

/-- What opens no comment is a token. -/
theorem kind_scan {c : Char} {cs : List Char} (hhash : c ≠ '#') (hline : ¬(c = '/' ∧ cs.head? = some '/'))
    (hblock : ¬(c = '/' ∧ cs.head? = some '*')) : (scan c cs).kind ≠ none := by
  rw [scan, if_neg hhash, if_neg hline, if_neg hblock]
  split
  · simp [kind_closeString]
  split
  · simp [kind_closeString]
  split
  · unfold scanNumber
    split
    · split
      · simp [scanMarked]
      · split <;> simp [scanMarked, scanDecimal]
    · simp [scanDecimal]
  split
  · simp [scanWord, scanWhile]
  split
  · unfold scanParen
    split <;> simp
  · simp [scanSign]

theorem widens_scan (c : Char) (cs : List Char) : (scan c cs).Widens := by
  by_cases hhash : c = '#'
  · subst hhash
    exact widens_scanLineComment (.inl rfl) cs
  by_cases hline : c = '/' ∧ cs.head? = some '/'
  · rw [scan, if_neg hhash, if_pos hline]
    obtain ⟨rfl, hhead⟩ := hline
    obtain ⟨ds, rfl⟩ := List.head?_eq_some_iff.mp hhead
    exact widens_scanLineComment (.inr rfl) ds
  by_cases hblock : c = '/' ∧ cs.head? = some '*'
  · rw [scan, if_neg hhash, if_neg hline, if_pos hblock]
    exact widens_scanBlockComment _
  exact .of_kind (kind_scan hhash hline hblock)

/-! ### Lexemes -/

/-- A token is spelled as its text, a string as its text between quotes, and a cast as its type between blanks and
parentheses. -/
inductive Spells (t : Token) : List Char → Prop
  | plain (hquote : t.kind.quote? = none) (hcast : ∀ type, t.kind ≠ .operator (.cast type)) : Spells t t.text.toList
  | string {quote : Char} (hquote : t.kind.quote? = some quote) : Spells t (quote :: t.text.toList ++ [quote])
  | cast {type : CastType} {before word behind : List Char} (hkind : t.kind = .operator (.cast type))
      (htext : t.text.toList = '(' :: word ++ [')']) (hspelling : t.text = type.spelling)
      (hbefore : ∀ c ∈ before, c = ' ' ∨ c = '\t') (hbehind : ∀ c ∈ behind, c = ' ' ∨ c = '\t') :
      Spells t ('(' :: before ++ word ++ behind ++ [')'])

/-- A token that is found is spelled by what is covered, or a string whose closing quote is missing at the end of the
text, and then that is what is wrong. -/
def Scan.Spelled (s : Scan) : Prop :=
  ∀ (kind : TokenKind) (line : Nat), s.kind = some kind → Spells ⟨kind, String.ofList s.text, line⟩ s.raw ∨
    ∃ quote, kind.quote? = some quote ∧ s.raw = quote :: s.text ∧ s.rest = [] ∧ s.fault = some .unterminatedString

/-- What a scan covers is the text of a token, and the token is neither a string nor a cast. -/
structure Scan.Plain (s : Scan) : Prop where
  raw : s.raw = s.text
  quote : ∀ kind, s.kind = some kind → kind.quote? = none
  cast : ∀ kind, s.kind = some kind → ∀ type, kind ≠ .operator (.cast type)

theorem Scan.Plain.spelled {s : Scan} (h : s.Plain) : s.Spelled := by
  intro kind line hk
  have plain := Spells.plain (t := ⟨kind, String.ofList s.text, line⟩) (h.quote kind hk) (h.cast kind hk)
  rw [String.toList_ofList] at plain
  rw [h.raw]
  exact .inl plain

theorem Scan.Spelled.of_comment {s : Scan} (h : s.kind = none) : s.Spelled := by
  intro kind line hk
  rw [h] at hk
  cases hk

theorem spelled_closeString {kind : TokenKind} {quote : Char} (hquote : kind.quote? = some quote)
    (body : List Char × List Char) : (closeString kind quote body).Spelled := by
  unfold closeString
  split
  · intro k line hk
    cases hk
    exact .inr ⟨quote, hquote, rfl, rfl, rfl⟩
  · intro k line hk
    cases hk
    have string := Spells.string (t := ⟨kind, String.ofList body.1, line⟩) hquote
    rw [String.toList_ofList] at string
    exact .inl string

theorem plain_scanDecimal (cs : List Char) : (scanDecimal cs).Plain := by
  refine ⟨rfl, fun kind hk => ?_, fun kind hk type => ?_⟩
  all_goals
    simp only [scanDecimal, Option.some.injEq] at hk
    subst hk
    split <;> simp [TokenKind.quote?]

theorem plain_scanMarked (mark : Char) (isDigit : Char → Bool) (fault : LexFault) (cs : List Char) :
    (scanMarked mark isDigit fault cs).Plain := by
  refine ⟨rfl, fun kind hk => ?_, fun kind hk type => ?_⟩
  all_goals
    cases hk
    simp [TokenKind.quote?]

theorem plain_scanNumber (cs : List Char) : (scanNumber cs).Plain := by
  unfold scanNumber
  split
  · split
    · exact plain_scanMarked _ _ _ _
    · split
      · exact plain_scanMarked _ _ _ _
      · exact plain_scanDecimal _
  · exact plain_scanDecimal _

theorem plain_scanWord (cs : List Char) : (scanWord cs).Plain := by
  refine ⟨rfl, fun kind hk => ?_, fun kind hk type => ?_⟩
  all_goals
    simp only [scanWord, scanWhile, Option.some.injEq] at hk
    subst hk
    unfold wordKind
    split
    · simp [TokenKind.quote?]
    · split <;> simp [TokenKind.quote?]

/-- No sign is a cast. -/
theorem ofSymbol?_ne_cast {text : String} {op : Operator} (h : Operator.ofSymbol? text = some op) (type : CastType) :
    op ≠ .cast type := by
  have signs : ∀ entry ∈ Operator.table, (match entry.2 with | .cast _ => true | _ => false) = false := by decide
  rintro rfl
  exact Bool.noConfusion (signs (text, .cast type) (mem_of_lookup h))

theorem plain_signKind (text : String) :
    (signKind text).quote? = none ∧ ∀ type, signKind text ≠ .operator (.cast type) := by
  unfold signKind
  split
  · rename_i kind hlookup
    have signs : ∀ entry ∈ signTable, entry.2.quote? = none ∧ (match entry.2 with | .operator _ => true | _ => false) = false := by
      decide
    obtain ⟨unquoted, marked⟩ := signs _ (mem_of_lookup hlookup)
    refine ⟨unquoted, fun type => ?_⟩
    rintro rfl
    exact Bool.noConfusion marked
  · split
    · rename_i op hop
      simpa [TokenKind.quote?] using ofSymbol?_ne_cast hop
    · simp [TokenKind.quote?]

theorem plain_scanSign (c : Char) (cs : List Char) : (scanSign c cs).Plain := by
  refine ⟨rfl, fun kind hk => ?_, fun kind hk => ?_⟩
  all_goals
    simp only [scanSign, Option.some.injEq] at hk
    subst hk
  · exact (plain_signKind _).1
  · exact (plain_signKind _).2

theorem plain_scanParen {cs : List Char} (h : castBody? cs = none) : (scanParen cs).Plain := by
  refine ⟨?_, fun kind hk => ?_, fun kind hk type => ?_⟩
  · simp [scanParen, h]
  all_goals
    simp only [scanParen, h, Option.some.injEq] at hk
    subst hk
    simp [TokenKind.quote?]

theorem spelled_scanParen (cs : List Char) : (scanParen cs).Spelled := by
  cases hcast : castBody? cs with
  | none => exact (plain_scanParen hcast).spelled
  | some cast =>
      obtain ⟨type, body⟩ := cast
      intro kind line hk
      simp only [scanParen, hcast, Option.some.injEq] at hk ⊢
      subst hk
      obtain ⟨before, word, behind, rfl, -, hspelling, hbefore, hbehind⟩ := castBody?_spec hcast
      have spelled := Spells.cast (t := ⟨.operator (.cast type), String.ofList type.spelling.toList, line⟩) rfl
        (by simpa using hspelling) (by simp) hbefore hbehind
      exact .inl (by simpa using spelled)

theorem spelled_scan (c : Char) (cs : List Char) : (scan c cs).Spelled := by
  refine scan_cases (fun _ => .of_comment rfl) (fun _ => .of_comment rfl) ?simple ?template
    (fun _ => (plain_scanNumber _).spelled) (fun _ => (plain_scanWord _).spelled) (fun _ => spelled_scanParen cs)
    (fun _ _ _ => (plain_scanSign c cs).spelled)
  case simple =>
    rintro rfl
    exact spelled_closeString rfl _
  case template =>
    rintro rfl
    exact spelled_closeString rfl _

/-- A token with its lexeme and the gap in front of it. -/
structure Piece where
  gap : List Char
  lexeme : List Char
  token : Token

/-- The text that pieces make up. -/
def Piece.written (pieces : List Piece) : List Char := pieces.flatMap fun piece => piece.gap ++ piece.lexeme

/-- What a piece is between what is written in front of it, from position `p` on, and what is written behind it. -/
structure Piece.Fits (errors : List LexError) (p : Position) (piece : Piece) (before behind : List Char) : Prop where
  gap : Gap (piece.lexeme ++ behind) piece.gap
  filled : piece.lexeme ≠ []
  line : piece.token.line = p.line + (before ++ piece.gap).count '\n'
  spells : Spells piece.token piece.lexeme ∨
    ∃ quote, piece.token.kind.quote? = some quote ∧ piece.lexeme = quote :: piece.token.text.toList ∧ behind = [] ∧
      ⟨.unterminatedString, (p.advance (before ++ piece.gap)).span 1⟩ ∈ errors

/-! ### The walk -/

/-- A text from a position on that is cut into gaps and the lexemes of tokens.  The token of a lexeme is on the line on
which the lexeme starts; a string that lacks its closing quote ends the text and is among the errors. -/
inductive Cut (errors : List LexError) : Position → List Char → List Token → Prop
  | tail {p : Position} {gap : List Char} (hgap : Gap [] gap) : Cut errors p gap []
  | token {p : Position} {gap lexeme rest : List Char} {t : Token} {ts : List Token} (hgap : Gap (lexeme ++ rest) gap)
      (hfilled : lexeme ≠ []) (hline : t.line = (p.advance gap).line)
      (hspells : Spells t lexeme ∨ ∃ quote, t.kind.quote? = some quote ∧ lexeme = quote :: t.text.toList ∧ rest = [] ∧
        ⟨.unterminatedString, (p.advance gap).span 1⟩ ∈ errors)
      (h : Cut errors (p.advance (gap ++ lexeme)) rest ts) : Cut errors p (gap ++ (lexeme ++ rest)) (t :: ts)

namespace Cut

variable {errors : List LexError} {p : Position} {cs : List Char} {ts : List Token}

theorem mono (h : Cut errors p cs ts) {errors' : List LexError} (hsub : errors ⊆ errors') : Cut errors' p cs ts := by
  induction h with
  | tail hgap => exact .tail hgap
  | token hgap hfilled hline hspells _ ih =>
      refine .token hgap hfilled hline (hspells.imp_right ?_) ih
      rintro ⟨quote, hquote, hlexeme, hrest, herror⟩
      exact ⟨quote, hquote, hlexeme, hrest, hsub herror⟩

/-- Text that widens every gap in front of which it stands belongs to the first gap. -/
theorem widen {front : List Char} (h : Cut errors (p.advance front) cs ts)
    (hfront : ∀ {behind gap : List Char}, cs = gap ++ behind → Gap behind gap → Gap behind (front ++ gap)) :
    Cut errors p (front ++ cs) ts := by
  cases h with
  | tail hgap => exact .tail (hfront (List.append_nil _).symm hgap)
  | token hgap hfilled hline hspells hrest =>
      rw [← Position.advance_append] at hline hrest hspells
      rw [← List.append_assoc] at hrest ⊢
      exact .token (hfront rfl hgap) hfilled hline hspells hrest

/-- The pieces of a text that is cut. -/
theorem pieces (h : Cut errors p cs ts) : ∃ pieces tail, cs = Piece.written pieces ++ tail ∧ ts = pieces.map Piece.token ∧
    Gap [] tail ∧ ∀ before piece behind, pieces = before ++ piece :: behind →
      piece.Fits errors p (Piece.written before) (Piece.written behind ++ tail) := by
  induction h with
  | @tail p gap hgap =>
      refine ⟨[], gap, rfl, rfl, hgap, fun before piece behind h => ?_⟩
      simp at h
  | @token p gap lexeme rest t ts hgap hfilled hline hspells _ ih =>
      obtain ⟨pieces, tail, hrest, hts, htail, hpieces⟩ := ih
      refine ⟨⟨gap, lexeme, t⟩ :: pieces, tail, by simp [Piece.written, hrest], by simp [hts], htail, ?_⟩
      intro before piece behind h
      cases before with
      | nil =>
          obtain ⟨rfl, rfl⟩ := List.cons.inj h
          rw [← hrest]
          exact ⟨hgap, hfilled, by rw [hline, Position.line_advance]; rfl, hspells⟩
      | cons first before =>
          obtain ⟨rfl, hbehind⟩ := List.cons.inj h
          have fits := hpieces before piece behind hbehind
          refine ⟨fits.gap, fits.filled, ?_, ?_⟩
          · rw [fits.line, Position.line_advance]
            simp only [Piece.written, List.flatMap_cons, List.count_append]
            omega
          · have front : Piece.written (⟨gap, lexeme, t⟩ :: before) ++ piece.gap =
                (gap ++ lexeme) ++ (Piece.written before ++ piece.gap) := by
              simp [Piece.written]
            rw [front, Position.advance_append]
            exact fits.spells

end Cut

theorem errors_cons (l : Lexed) (ls : List Lexed) : ls.filterMap Lexed.error ⊆ (l :: ls).filterMap Lexed.error := by
  intro e he
  obtain ⟨l', hl', he'⟩ := List.mem_filterMap.mp he
  exact List.mem_filterMap.mpr ⟨l', List.mem_cons_of_mem l hl', he'⟩

/-- One round of the walk. -/
theorem Cut.round {p : Position} {cs blanks rest : List Char} {c : Char} (hblanks : skipBlanks cs = (blanks, c :: rest))
    {ls : List Lexed} (h : Cut (ls.filterMap Lexed.error) ((p.advance blanks).advance (scan c rest).raw)
      (scan c rest).rest (ls.filterMap Lexed.token)) :
    Cut (((scan c rest).toLexed (p.advance blanks) :: ls).filterMap Lexed.error) p cs
      (((scan c rest).toLexed (p.advance blanks) :: ls).filterMap Lexed.token) := by
  obtain ⟨hsplit, hfilled⟩ := splits_scan c rest
  have whole : blanks ++ ((scan c rest).raw ++ (scan c rest).rest) = cs := by
    rw [hsplit]
    simpa [hblanks] using skipBlanks_split cs
  have skipped {behind gap : List Char} (hgap : Gap behind gap) : Gap behind (blanks ++ gap) := by
    simpa [hblanks] using hgap.skipBlanks cs
  rw [← Position.advance_append] at h
  have later := h.mono (errors_cons ((scan c rest).toLexed (p.advance blanks)) ls)
  rw [← whole]
  cases hkind : (scan c rest).kind with
  | none =>
      have token : ((scan c rest).toLexed (p.advance blanks)).token = none := by simp [Scan.toLexed, hkind]
      rw [List.filterMap_cons_none token, ← List.append_assoc]
      refine later.widen fun hgap gap => ?_
      rw [List.append_assoc]
      exact skipped (widens_scan c rest hkind hgap gap)
  | some kind =>
      have token : ((scan c rest).toLexed (p.advance blanks)).token =
          some ⟨kind, String.ofList (scan c rest).text, (p.advance blanks).line⟩ := by
        simp [Scan.toLexed, hkind]
      rw [List.filterMap_cons_some token]
      have gap := skipped (Gap.nil : Gap ((scan c rest).raw ++ (scan c rest).rest) [])
      rw [List.append_nil] at gap
      refine .token gap hfilled rfl ((spelled_scan c rest kind (p.advance blanks).line hkind).imp_right ?_) later
      rintro ⟨quote, hquote, hraw, hend, hfault⟩
      refine ⟨quote, hquote, by simpa using hraw, hend, ?_⟩
      have error : ((scan c rest).toLexed (p.advance blanks)).error =
          some ⟨.unterminatedString, (p.advance blanks).span 1⟩ := by
        simp [Scan.toLexed, hfault, LexFault.width]
      rw [List.filterMap_cons_some error]
      exact List.mem_cons_self ..

theorem cut_run {n : Nat} {p : Position} {cs : List Char} (hn : cs.length ≤ n) :
    Cut ((run n p cs).filterMap Lexed.error) p cs ((run n p cs).filterMap Lexed.token) := by
  induction n generalizing p cs with
  | zero =>
      obtain rfl := List.length_eq_zero_iff.mp (Nat.le_zero.mp hn)
      exact .tail .nil
  | succ n ih =>
      have whole := skipBlanks_split cs
      rw [run]
      cases hrest : (skipBlanks cs).2 with
      | nil =>
          have gap := (Gap.nil : Gap [] []).skipBlanks cs
          rw [hrest] at whole
          rw [whole] at gap
          exact .tail gap
      | cons c rest =>
          obtain ⟨hsplit, hfilled⟩ := splits_scan c rest
          refine Cut.round (Prod.ext rfl hrest) (ih ?_)
          have raw := List.length_pos_iff.mpr hfilled
          have all := congrArg List.length whole
          have front := congrArg List.length hsplit
          simp only [hrest, List.length_append, List.length_cons] at all front
          omega

end Lexer

/-- A source is partitioned by the lexemes of its tokens, in order, and gaps of blanks, byte order marks and comments.
Every token is on the line on which its lexeme starts, and spelled by it; only a string at the end of the source may
lack its closing quote, and is then reported. -/
theorem Tokens.ofSource_partition (source : String) (line : Nat) :
    ∃ (pieces : List Lexer.Piece) (tail : List Char), source.toList = Lexer.Piece.written pieces ++ tail ∧
      (Tokens.ofSource source line).tokens = pieces.map Lexer.Piece.token ∧ Lexer.Gap [] tail ∧
      ∀ before piece behind, pieces = before ++ piece :: behind →
        piece.Fits (Tokens.ofSource source line).errors ⟨line, 1⟩ (Lexer.Piece.written before)
          (Lexer.Piece.written behind ++ tail) :=
  (Lexer.cut_run (Nat.le_refl _)).pieces

end StackScript
