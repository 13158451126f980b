/-
Where an island ends, and what the lexer says of it.

The splitter looks for comments on its own, and it does not know strings: a character that opens a comment opens one
for it inside a string as well.  Everywhere else the two agree.  Outside strings no lexeme but a comment holds the
characters that open one, so as long as no string holds them either, the walk of the splitter is inside a comment
exactly where the lexer is, and an island ends at the first closing tag outside the comments of the lexer.  A string
that does hold them, as an address in it does, can hide the closing tag behind it.
-/
import StackScript.Proofs.Document.Slices

namespace StackScript

namespace Lexer

/-- What the lexer takes a character for: a part of a comment, of a string, or of neither. -/
inductive Cover where
  | comment | string | plain
deriving DecidableEq

def Scan.cover (s : Scan) : Cover :=
  match s.kind with
  | none => .comment
  | some kind => if kind.quote?.isSome then .string else .plain

/-- What the lexer takes the characters of a text for, round by round. -/
def covers : Nat → List Char → List Cover
  | 0, _ => []
  | n + 1, cs =>
    List.replicate (skipBlanks cs).1.length .plain ++
      match (skipBlanks cs).2 with
      | [] => []
      | c :: rest => List.replicate (scan c rest).raw.length (scan c rest).cover ++ covers n (scan c rest).rest

/-- What the lexer takes the character at an offset of a text for. -/
def cover? (cs : List Char) (offset : Nat) : Option Cover := (covers cs.length cs)[offset]?

theorem getElem?_replicate_append {k m : Nat} (h : k < m) (cover : Cover) (more : List Cover) :
    (List.replicate m cover ++ more)[k]? = some cover := by
  rw [List.getElem?_append_left (by simpa using h), List.getElem?_replicate_of_lt h]

theorem getElem?_replicate_append_add (k m : Nat) (cover : Cover) (more : List Cover) :
    (List.replicate m cover ++ more)[m + k]? = more[k]? := by
  rw [List.getElem?_append_right (by simp)]
  simp

theorem mem_skipBlanks {cs : List Char} {c : Char} (h : c ∈ (skipBlanks cs).1) :
    CharClass.isBlank c = true ∨ c = CharClass.byteOrderMark := by
  have blank {ds : List Char} (hc : c ∈ ds.takeWhile CharClass.isBlank) : CharClass.isBlank c = true :=
    List.all_eq_true.mp List.all_takeWhile c hc
  unfold skipBlanks at h
  split at h
  · cases h
  · split at h
    · rename_i hmark
      rcases List.mem_cons.mp h with rfl | hc
      · exact .inr hmark
      · exact .inl (blank hc)
    · exact .inl (blank h)

end Lexer

namespace Document

open Lexer

/-! ### The walk of the splitter -/

theorem Within.walk_append (w : Within) (rest xs ys : List Char) :
    w.walk rest (xs ++ ys) = (w.walk (ys ++ rest) xs).walk rest ys := by
  induction xs generalizing w with
  | nil => rfl
  | cons x xs ih =>
      rw [List.cons_append, Within.walk, Within.walk, ih, List.append_assoc]

/-- No comment opens in a text with `rest` behind it. -/
def Silent (text rest : List Char) : Prop :=
  ∀ front c back, text = front ++ c :: back → Within.code.next c (back ++ rest).head? = .code

theorem Silent.tail {c : Char} {text rest : List Char} (h : Silent (c :: text) rest) : Silent text rest := by
  intro front d back htext
  exact h (c :: front) d back (congrArg (c :: ·) htext)

theorem Silent.left {xs ys rest : List Char} (h : Silent (xs ++ ys) rest) : Silent xs (ys ++ rest) := by
  intro front c back hxs
  have := h front c (back ++ ys) (by rw [hxs, List.append_assoc, List.cons_append])
  rwa [List.append_assoc] at this

theorem Silent.walk {text rest : List Char} (h : Silent text rest) : Within.code.walk rest text = .code := by
  induction text with
  | nil => rfl
  | cons c text ih =>
      rw [Within.walk, h [] c text rfl]
      exact ih h.tail

/-- A character that opens no comment, whatever follows it. -/
def Harmless (c : Char) : Prop := c ≠ '#' ∧ c ≠ '/'

instance : DecidablePred Harmless := fun c => inferInstanceAs (Decidable (c ≠ '#' ∧ c ≠ '/'))

theorem Harmless.next {c : Char} (h : Harmless c) (d : Option Char) : Within.code.next c d = .code := by
  simp [Within.next, h.1, h.2]

theorem silent_of_harmless {text : List Char} (h : ∀ c ∈ text, Harmless c) (rest : List Char) : Silent text rest := by
  rintro front c back rfl
  exact (h c (List.mem_append_right front (List.mem_cons_self ..))).next _

/-! ### Lexemes without comments -/

theorem harmless_of_class {p : Char → Bool} (hhash : p '#' = false) (hslash : p '/' = false) {c : Char} (h : p c = true) :
    Harmless c := by
  constructor <;> rintro rfl <;> simp_all

theorem harmless_takeWhile {p : Char → Bool} (hhash : p '#' = false) (hslash : p '/' = false) {cs : List Char} {c : Char}
    (h : c ∈ cs.takeWhile p) : Harmless c :=
  harmless_of_class hhash hslash (List.all_eq_true.mp List.all_takeWhile c h)

theorem harmless_digits {cs : List Char} {c : Char} (h : c ∈ cs.takeWhile Char.isDigit) : Harmless c :=
  harmless_takeWhile (by decide) (by decide) h

theorem harmless_takeFraction {cs : List Char} {c : Char} (h : c ∈ (takeFraction cs).1) : Harmless c := by
  unfold takeFraction at h
  split at h
  · split at h
    · rename_i hd
      rcases List.mem_cons.mp h with rfl | h
      · decide
      rcases List.mem_cons.mp h with rfl | h
      · exact harmless_of_class (by decide) (by decide) hd
      · exact harmless_digits h
    · cases h
  · cases h

theorem harmless_takeExponent {cs : List Char} {c : Char} (h : c ∈ (takeExponent cs).1) : Harmless c := by
  unfold takeExponent at h
  split at h
  · split at h
    · rename_i e ds hmark
      have mark : Harmless e := by rcases hmark with rfl | rfl <;> decide
      split at h
      · split at h
        · rename_i hd
          rcases List.mem_cons.mp h with rfl | h
          · exact mark
          rcases List.mem_cons.mp h with rfl | h
          · exact harmless_of_class (by decide) (by decide) hd
          · exact harmless_digits h
        · split at h
          · rename_i hsign
            rcases List.mem_cons.mp h with rfl | h
            · exact mark
            rcases List.mem_cons.mp h with rfl | h
            · rcases hsign.1 with rfl | rfl <;> decide
            · exact harmless_digits h
          · cases h
      · cases h
    · cases h
  · cases h

theorem harmless_scanDecimal {cs : List Char} {c : Char} (h : c ∈ (scanDecimal cs).raw) : Harmless c := by
  rcases List.mem_append.mp h with h | h
  · rcases List.mem_append.mp h with h | h
    · exact harmless_digits h
    · exact harmless_takeFraction h
  · exact harmless_takeExponent h

theorem harmless_scanMarked {mark : Char} (hmark : Harmless mark) {p : Char → Bool} (hhash : p '#' = false)
    (hslash : p '/' = false) {fault : LexFault} {cs : List Char} {c : Char}
    (h : c ∈ (scanMarked mark p fault cs).raw) : Harmless c := by
  rcases List.mem_cons.mp h with rfl | h
  · decide
  rcases List.mem_cons.mp h with rfl | h
  · exact hmark
  · exact harmless_takeWhile hhash hslash h

theorem harmless_scanNumber {cs : List Char} {c : Char} (h : c ∈ (scanNumber cs).raw) : Harmless c := by
  unfold scanNumber at h
  split at h
  · split at h
    · rename_i hmark
      exact harmless_scanMarked (by rcases hmark with rfl | rfl <;> decide) (by decide) (by decide) h
    · split at h
      · rename_i hmark
        exact harmless_scanMarked (by rcases hmark with rfl | rfl <;> decide) (by decide) (by decide) h
      · exact harmless_scanDecimal h
  · exact harmless_scanDecimal h

theorem harmless_scanParen {cs : List Char} {c : Char} (h : c ∈ (scanParen cs).raw) : Harmless c := by
  cases hcast : castBody? cs with
  | none =>
      simp only [scanParen, hcast, List.mem_singleton] at h
      subst h
      decide
  | some cast =>
      obtain ⟨type, body⟩ := cast
      obtain ⟨before, word, behind, rfl, -, hspelling, hbefore, hbehind⟩ := castBody?_spec hcast
      have blank {d : Char} (hd : d = ' ' ∨ d = '\t') : Harmless d := by rcases hd with rfl | rfl <;> decide
      have spelled : type.spelling.toList.all (decide <| Harmless ·) = true := by cases type <;> rfl
      rw [hspelling, List.all_eq_true] at spelled
      simp only [scanParen, hcast, List.mem_cons, List.mem_append, List.not_mem_nil, or_false] at h
      rcases h with rfl | ((h | h) | h) | rfl
      · decide
      · exact blank (hbefore c h)
      · exact of_decide_eq_true (spelled c (by simp [h]))
      · exact blank (hbehind c h)
      · decide

theorem harmless_signTails {c d : Char} {tail : List Char} (h : tail ∈ signTails c) (hd : d ∈ tail) : Harmless d := by
  have signs : (signTails c).all (·.all (decide <| Harmless ·)) = true := by
    unfold signTails
    split <;> rfl
  exact of_decide_eq_true (List.all_eq_true.mp (List.all_eq_true.mp signs tail h) d hd)

/-- A stroke is a sign when no comment opens with it. -/
theorem silent_scanSign {c : Char} {cs : List Char} (hnext : Within.code.next c cs.head? = .code) :
    Silent (scanSign c cs).raw (scanSign c cs).rest := by
  have whole := (splits_scanSign c cs).whole
  intro front d back hraw
  rw [hraw] at whole
  cases front with
  | nil =>
      obtain ⟨rfl, htail⟩ := List.cons.inj whole
      rw [← htail] at hnext
      exact hnext
  | cons e front =>
      have tail := (List.cons.inj hraw).2
      cases hfound : (signTails c).find? fun t => t.isPrefixOf cs with
      | none => simp [hfound] at tail
      | some found =>
          have hd : d ∈ found := by
            have : found = front ++ d :: back := by simpa [hfound] using tail
            simp [this]
          exact (harmless_signTails (List.mem_of_find?_eq_some hfound) hd).next _

/-- Outside strings only a comment holds the characters that open one. -/
theorem silent_scan {c : Char} {cs : List Char} (h : (scan c cs).cover = .plain) :
    Silent (scan c cs).raw (scan c cs).rest := by
  have comment {s : Scan} (hs : s.kind = none) : s.cover ≠ .plain := by simp [Scan.cover, hs]
  have string {kind : TokenKind} {quote : Char} {body : List Char × List Char} (hkind : kind.quote?.isSome = true) :
      (closeString kind quote body).cover ≠ .plain := by
    simp [Scan.cover, kind_closeString, hkind]
  refine scan_cases (motive := fun s => s.cover = .plain → Silent s.raw s.rest) (fun _ h => absurd h (comment rfl))
    (fun _ h => absurd h (comment rfl)) (fun _ h => absurd h (string rfl)) (fun _ h => absurd h (string rfl))
    (fun _ _ => silent_of_harmless (fun d hd => harmless_scanNumber hd) _)
    (fun _ _ => silent_of_harmless (fun d hd => harmless_takeWhile (by decide) (by decide) hd) _)
    (fun _ _ => silent_of_harmless (fun d hd => harmless_scanParen hd) _) (fun hhash hline hblock _ => ?_) h
  exact silent_scanSign (by simp [Within.next, hhash, hline, hblock])

/-! ### Comments -/

theorem walk_lineComment {text : List Char} (h : '\n' ∉ text) (rest : List Char) :
    Within.lineComment.walk rest text = .lineComment := by
  induction text with
  | nil => rfl
  | cons c text ih =>
      obtain ⟨hc, htext⟩ := not_or.mp (mt List.mem_cons.mpr h)
      rw [Within.walk, Within.next, if_neg (Ne.symm hc)]
      exact ih htext

/-- Inside a block comment the walk is in no code, and it is in code again behind the characters that close it. -/
theorem walk_commentBody (cs : List Char) :
    (∀ front back, (commentBody cs).1 = front ++ back → back ≠ [] →
      Within.blockComment.walk (back ++ (commentBody cs).2.1) front ≠ .code) ∧
    ((commentBody cs).2.2 = true → Within.blockComment.walk (commentBody cs).2.1 (commentBody cs).1 = .code) := by
  fun_induction commentBody cs with
  | case1 => exact ⟨fun front back h hback => by simp_all, fun h => absurd h Bool.false_ne_true⟩
  | case2 rest =>
      refine ⟨fun front back h hback => ?_, fun _ => rfl⟩
      cases front with
      | nil => rw [Within.walk]; decide
      | cons c front =>
          obtain ⟨rfl, htail⟩ := List.cons.inj h
          cases front with
          | nil =>
              subst htail
              simp [Within.walk, Within.next]
          | cons d front => simp_all
  | case3 c cs hother ih =>
      obtain ⟨inside, closed⟩ := ih
      have whole := commentBody_split cs
      have next : Within.blockComment.next c cs.head? = .blockComment := by
        rw [Within.next, if_neg]
        rintro ⟨rfl, hhead⟩
        obtain ⟨ds, rfl⟩ := List.head?_eq_some_iff.mp hhead
        exact hother ds rfl rfl
      refine ⟨fun front back h hback => ?_, fun h => ?_⟩
      · cases front with
        | nil => rw [Within.walk]; decide
        | cons d front =>
            obtain ⟨rfl, (htail : (commentBody cs).1 = front ++ back)⟩ := List.cons.inj h
            rw [Within.walk, ← List.append_assoc, ← htail, whole, next]
            exact inside front back htail hback
      · rw [Within.walk, whole, next]
        exact closed h

/-- Inside a comment of the lexer the walk of the splitter is in no code.  Behind it, it is in code again, at the latest
with the line break that ends a comment on a line. -/
structure Commented (s : Scan) : Prop where
  inside : ∀ front back, s.raw = front ++ back → front ≠ [] → back ≠ [] →
    Within.code.walk (back ++ s.rest) front ≠ .code
  behind : Within.code.walk s.rest s.raw = .code ∨
    Within.code.walk s.rest s.raw = .lineComment ∧ s.rest.head? = some '\n' ∨ s.rest = []

theorem commented_scanLineComment {c : Char} {cs : List Char} (hc : c ≠ '\n')
    (hnext : Within.code.next c cs.head? = .lineComment) : Commented (scanLineComment (c :: cs)) := by
  have whole : (c :: cs).takeWhile (· != '\n') ++ (c :: cs).dropWhile (· != '\n') = c :: cs :=
    List.takeWhile_append_dropWhile
  have line {front back : List Char} (h : (c :: cs).takeWhile (· != '\n') = front ++ back) (hfront : front ≠ []) :
      Within.code.walk (back ++ (c :: cs).dropWhile (· != '\n')) front = .lineComment := by
    have free : '\n' ∉ front := fun hmem => by
      have := List.all_eq_true.mp List.all_takeWhile '\n' (h ▸ List.mem_append_left back hmem)
      simp at this
    rw [h] at whole
    cases front with
    | nil => exact absurd rfl hfront
    | cons d front =>
        obtain ⟨rfl, (htail : front ++ back ++ _ = cs)⟩ := List.cons.inj whole
        rw [Within.walk, ← List.append_assoc, htail, hnext]
        exact walk_lineComment (fun hmem => free (List.mem_cons_of_mem _ hmem)) _
  refine ⟨fun front back h hfront _ => ?_, ?_⟩
  · simp only [scanLineComment] at h ⊢
    rw [line h hfront]
    decide
  · have filled : (c :: cs).takeWhile (· != '\n') ≠ [] := by simp [hc]
    refine .inr ?_
    simp only [scanLineComment]
    cases hrest : (c :: cs).dropWhile (· != '\n') with
    | nil => exact .inr rfl
    | cons d ds =>
        have hd : d = '\n' := by simpa using head_dropWhile hrest
        have := line (List.append_nil _).symm filled
        rw [hrest] at this
        exact .inl ⟨this, congrArg some hd⟩

theorem commented_scanBlockComment (cs : List Char) : Commented (scanBlockComment cs) := by
  obtain ⟨inside, closed⟩ := walk_commentBody cs
  have opened (rest text : List Char) :
      Within.code.walk rest ('/' :: '*' :: text) = Within.blockComment.walk rest text := rfl
  refine ⟨fun front back h hfront hback => ?_, ?_⟩
  · simp only [scanBlockComment] at h ⊢
    cases front with
    | nil => exact absurd rfl hfront
    | cons c front =>
        obtain ⟨rfl, htail⟩ := List.cons.inj h
        cases front with
        | nil =>
            subst htail
            simp [Within.walk, Within.next]
        | cons d front =>
            obtain ⟨rfl, hbody⟩ := List.cons.inj htail
            rw [opened]
            exact inside front back hbody hback
  · simp only [scanBlockComment]
    cases hclosed : (commentBody cs).2.2 with
    | true => exact .inl (closed hclosed)
    | false => exact .inr (.inr (commentBody_open hclosed).1)

theorem commented_scan {c : Char} {cs : List Char} (h : (scan c cs).cover = .comment) :
    Commented (scan c cs) ∧ (c = '#' ∨ c = '/') := by
  by_cases hhash : c = '#'
  · rw [scan, if_pos hhash]
    exact ⟨commented_scanLineComment (by simp [hhash]) (by simp [Within.next, hhash]), .inl hhash⟩
  by_cases hline : c = '/' ∧ cs.head? = some '/'
  · rw [scan, if_neg hhash, if_pos hline]
    exact ⟨commented_scanLineComment (by simp [hline.1]) (by simp [Within.next, hline]), .inr hline.1⟩
  by_cases hblock : c = '/' ∧ cs.head? = some '*'
  · rw [scan, if_neg hhash, if_neg hline, if_pos hblock]
    exact ⟨commented_scanBlockComment _, .inr hblock.1⟩
  · obtain ⟨kind, hkind⟩ := Option.ne_none_iff_exists'.mp (kind_scan hhash hline hblock)
    unfold Scan.cover at h
    rw [hkind] at h
    dsimp only at h
    split at h <;> cases h

/-! ### The two walks together -/

/-- The characters that open a comment stand in front of a text. -/
def Opener (cs : List Char) : Prop := ['#'] <+: cs ∨ ['/', '/'] <+: cs ∨ ['/', '*'] <+: cs

instance : DecidablePred Opener := fun _ => inferInstanceAs (Decidable (_ ∨ _ ∨ _))

theorem next_of_not_opener {c : Char} {cs : List Char} (h : ¬ Opener (c :: cs)) : Within.code.next c cs.head? = .code := by
  have hhash : c ≠ '#' := fun hc => h (.inl (by simp [hc]))
  have stroke {d : Char} (hc : c = '/') (hd : cs.head? = some d) : ['/', d] <+: c :: cs := by
    obtain ⟨ds, rfl⟩ := List.head?_eq_some_iff.mp hd
    exact ⟨ds, by rw [hc]; rfl⟩
  have hline : ¬(c = '/' ∧ cs.head? = some '/') := fun hc => h (.inr (.inl (stroke hc.1 hc.2)))
  have hblock : ¬(c = '/' ∧ cs.head? = some '*') := fun hc => h (.inr (.inr (stroke hc.1 hc.2)))
  simp [Within.next, hhash, hline, hblock]

/-- A mark that is not in the first part of a text is in the second one. -/
theorem exists_behind {xs ys front rest : List Char} {mark : Char} (h : xs ++ ys = front ++ mark :: rest)
    (hxs : xs.length ≤ front.length) : ∃ front', front = xs ++ front' ∧ ys = front' ++ mark :: rest := by
  obtain ⟨front', rfl⟩ := List.prefix_of_prefix_length_le ⟨ys, h⟩ ⟨_, rfl⟩ hxs
  rw [List.append_assoc] at h
  exact ⟨front', rfl, List.append_cancel_left h⟩

/-- Behind a lexeme the walk of the splitter goes on as if it started there. -/
theorem walk_lexeme {c mark : Char} {cs front rest : List Char} (hmark : mark ≠ '\n')
    (hrest : (scan c cs).rest = front ++ mark :: rest)
    (hstring : (scan c cs).cover = .string → Silent (scan c cs).raw (scan c cs).rest) :
    Within.code.walk (mark :: rest) ((scan c cs).raw ++ front) = Within.code.walk (mark :: rest) front := by
  rw [Within.walk_append, ← hrest]
  have silent (h : Silent (scan c cs).raw (scan c cs).rest) :
      Within.walk (mark :: rest) (Within.code.walk (scan c cs).rest (scan c cs).raw) front =
        Within.code.walk (mark :: rest) front := by rw [h.walk]
  cases hcover : (scan c cs).cover with
  | plain => exact silent (silent_scan hcover)
  | string => exact silent (hstring hcover)
  | comment =>
      obtain hcode | ⟨hline, hhead⟩ | hnil := (commented_scan hcover).1.behind
      · rw [hcode]
      · -- The line break that ends the comment belongs to what follows, and it leads back into code.
        rw [hrest] at hhead
        cases front with
        | nil => exact absurd (Option.some.inj hhead) hmark
        | cons d front =>
            obtain rfl : d = '\n' := Option.some.inj hhead
            rw [hline]
            rfl
      · rw [hrest] at hnil
        simp at hnil

/-- One lexeme: a question mark is inside it, or behind it, where what follows decides. -/
theorem walk_code_iff_lexeme {c : Char} {tail front rest : List Char} {more : List Cover}
    (htail : c :: tail = front ++ '?' :: rest)
    (hstrings : ∀ k < front.length, Opener ((c :: tail).drop k) →
      (List.replicate (scan c tail).raw.length (scan c tail).cover ++ more)[k]? ≠ some .string)
    (hmore : ∀ front', (scan c tail).rest = front' ++ '?' :: rest →
      (∀ k < front'.length, Opener ((scan c tail).rest.drop k) → more[k]? ≠ some .string) →
      (Within.code.walk ('?' :: rest) front' = .code ↔ more[front'.length]? ≠ some .comment)) :
    Within.code.walk ('?' :: rest) front = .code ↔
      (List.replicate (scan c tail).raw.length (scan c tail).cover ++ more)[front.length]? ≠ some .comment := by
  obtain ⟨hsplit, hfilled⟩ := splits_scan c tail
  -- In a string, as far as it stands in front of the mark, nothing opens a comment.
  have inString {text back : List Char} (hcover : (scan c tail).cover = .string) (hraw : (scan c tail).raw = text ++ back)
      (htext : text.length ≤ front.length) : Silent text (back ++ (scan c tail).rest) := by
    rintro before d behind rfl
    have hlt : before.length < (scan c tail).raw.length := by simp [hraw]
    have hdrop : (c :: tail).drop before.length = d :: (behind ++ (back ++ (scan c tail).rest)) := by
      rw [← hsplit, hraw]
      simp
    have hquoted := hstrings before.length (Nat.lt_of_lt_of_le (by simp) htext)
    rw [getElem?_replicate_append hlt, hcover, hdrop] at hquoted
    exact next_of_not_opener fun hopener => hquoted hopener rfl
  by_cases hinside : front.length < (scan c tail).raw.length
  · rw [getElem?_replicate_append hinside]
    obtain ⟨back, hback⟩ : front <+: (scan c tail).raw :=
      List.prefix_of_prefix_length_le ⟨_, htail.symm⟩ ⟨_, hsplit⟩ (Nat.le_of_lt hinside)
    have behind : back ++ (scan c tail).rest = '?' :: rest := by
      rw [htail, ← hback, List.append_assoc] at hsplit
      exact List.append_cancel_left hsplit
    rw [← behind]
    cases hcover : (scan c tail).cover with
    | plain =>
        have silent := silent_scan hcover
        rw [← hback] at silent
        exact iff_of_true silent.left.walk nofun
    | string => exact iff_of_true (inString hcover hback.symm (Nat.le_refl _)).walk nofun
    | comment =>
        obtain ⟨commented, hopening⟩ := commented_scan hcover
        refine iff_of_false (commented.inside front back hback.symm ?_ ?_) fun h => h rfl
        · rintro rfl
          obtain ⟨rfl, -⟩ := List.cons.inj htail
          revert hopening
          decide
        · rintro rfl
          rw [← hback, List.append_nil] at hinside
          exact absurd hinside (Nat.lt_irrefl _)
  · obtain ⟨front, rfl, hrest⟩ := exists_behind (hsplit.trans htail) (Nat.le_of_not_lt hinside)
    have whole (hcover : (scan c tail).cover = .string) : Silent (scan c tail).raw (scan c tail).rest := by
      have := inString hcover (List.append_nil _).symm (by simp)
      simpa using this
    rw [walk_lexeme (by decide) hrest whole, List.length_append, getElem?_replicate_append_add]
    refine hmore front hrest fun k hk hopener => ?_
    have hquoted := hstrings ((scan c tail).raw.length + k) (by rw [List.length_append]; omega)
    rw [getElem?_replicate_append_add, ← hsplit, List.drop_length_add_append] at hquoted
    exact hquoted hopener

/-- As long as no string holds the characters that open a comment, the walk of the splitter is in code at a question
mark exactly when the lexer is in no comment there. -/
theorem walk_code_iff {n : Nat} {cs front rest : List Char} (hn : cs.length ≤ n) (hcs : cs = front ++ '?' :: rest)
    (hstrings : ∀ k < front.length, Opener (cs.drop k) → (covers n cs)[k]? ≠ some .string) :
    Within.code.walk ('?' :: rest) front = .code ↔ (covers n cs)[front.length]? ≠ some .comment := by
  induction n generalizing cs front with
  | zero => simp [hcs] at hn
  | succ n ih =>
      have whole := skipBlanks_split cs
      have blank (c : Char) (hc : c ∈ (skipBlanks cs).1) : Harmless c ∧ c ≠ '?' := by
        obtain hblank | rfl := mem_skipBlanks hc
        · exact ⟨harmless_of_class (by decide) (by decide) hblank, fun h => by simp [h, CharClass.isBlank] at hblank⟩
        · decide
      rw [covers] at hstrings ⊢
      generalize skipBlanks cs = skipped at whole blank hstrings ⊢
      obtain ⟨blanks, tail⟩ := skipped
      dsimp only at whole blank hstrings ⊢
      have hblanks : blanks.length ≤ front.length := by
        refine Nat.le_of_not_lt fun hlt => ?_
        have mark : (blanks ++ tail)[front.length]? = some '?' := by simp [whole, hcs]
        rw [List.getElem?_append_left hlt] at mark
        exact (blank '?' (List.mem_of_getElem? mark)).2 rfl
      obtain ⟨front, rfl, htail⟩ := exists_behind (whole.trans hcs) hblanks
      have silent : Silent blanks (front ++ '?' :: rest) := silent_of_harmless (fun d hd => (blank d hd).1) _
      rw [Within.walk_append, silent.walk, List.length_append, getElem?_replicate_append_add]
      cases tail with
      | nil => simp at htail
      | cons c tail =>
          obtain ⟨hsplit, hfilled⟩ := splits_scan c tail
          refine walk_code_iff_lexeme htail (fun k hk hopener => ?_) fun front' hrest hlater => ih ?_ hrest hlater
          · have hquoted := hstrings (blanks.length + k) (by rw [List.length_append]; omega)
            rw [getElem?_replicate_append_add, ← whole, List.drop_length_add_append] at hquoted
            exact hquoted hopener
          · have raw := List.length_pos_iff.mpr hfilled
            have all := congrArg List.length whole
            have lexeme := congrArg List.length hsplit
            simp only [List.length_append, List.length_cons] at all lexeme
            omega

/-! ### Closing tags -/

/-- The first closing tag that the lexer does not read as a part of a comment stands behind `front`. -/
structure Meets (cs front behind : List Char) : Prop where
  whole : cs = front ++ '?' :: '>' :: behind
  outside : cover? cs front.length ≠ some .comment
  first : ∀ k < front.length, ['?', '>'] <+: cs.drop k → cover? cs k = some .comment

theorem island_iff_meets {cs front behind : List Char}
    (hstrings : ∀ k < front.length, Opener (cs.drop k) → cover? cs k ≠ some .string) :
    Island .code cs front (some behind) ↔ Meets cs front behind := by
  have agree {front' behind' : List Char} (hcs : cs = front' ++ '?' :: '>' :: behind')
      (hlength : front'.length ≤ front.length) :
      Within.code.walk ('?' :: '>' :: behind') front' = .code ↔ cover? cs front'.length ≠ some .comment :=
    walk_code_iff (Nat.le_refl _) hcs fun k hk => hstrings k (Nat.lt_of_lt_of_le hk hlength)
  constructor
  · rintro ⟨whole, closes, first⟩
    refine ⟨whole, (agree whole (Nat.le_refl _)).mp (closes rfl), fun k hk htag => ?_⟩
    obtain ⟨behind', hbehind⟩ := htag
    have hk' : k ≤ cs.length := by rw [whole, List.length_append]; omega
    have hcs : cs = cs.take k ++ '?' :: '>' :: behind' :=
      (List.take_append_drop k cs).symm.trans (congrArg (cs.take k ++ ·) hbehind.symm)
    have length : (cs.take k).length = k := List.length_take_of_le hk'
    have commented := mt (agree hcs (by omega)).mpr (first _ behind' hcs (by omega))
    rw [length] at commented
    exact Classical.not_not.mp commented
  · rintro ⟨whole, outside, first⟩
    refine ⟨whole, fun _ => (agree whole (Nat.le_refl _)).mpr outside, fun front' behind' hcs hlt hcode => ?_⟩
    refine (agree hcs (Nat.le_of_lt hlt)).mp hcode (first front'.length hlt ?_)
    rw [hcs, List.drop_left]
    exact ⟨behind', rfl⟩

/-- An island of a document: it opens at a tag that the reading of the document comes to, its code and the space behind
it start with the first character that is no blank, and the `rest` is what stands behind its closing tag. -/
def HasIsland (source : String) (code trailing : List Char) (rest : Option (List Char)) : Prop :=
  ∃ behind name blanks, Reaches source.toList behind ∧ Opened behind name blanks code trailing rest

/-- An island ends at the first closing tag outside the comments of the lexer, and only there, unless a string in front of
that tag holds the characters that open a comment. -/
theorem island_ends_outside_comments {source : String} {code trailing : List Char} {rest : Option (List Char)}
    (h : HasIsland source code trailing rest) (front after : List Char)
    (hstrings : ∀ k < front.length, Opener ((code ++ trailing ++ closing rest).drop k) →
      cover? (code ++ trailing ++ closing rest) k ≠ some .string) :
    (code ++ trailing = front ∧ rest = some after) ↔ Meets (code ++ trailing ++ closing rest) front after := by
  obtain ⟨behind, name, blanks, -, opened⟩ := h
  rw [← island_iff_meets hstrings]
  constructor
  · rintro ⟨rfl, rfl⟩
    exact opened.island
  · intro island
    exact opened.island.unique island

theorem untagged_nil : Untagged [] := fun front behind h => by simp at h

/-- A closing tag inside a comment is passed over, and the one behind a string without strokes is found.  The strokes of
an address in a string hide a closing tag that the lexer reads in no comment. -/
theorem island_runs_over_address :
    (HasIsland "<?aer/* ?> */ $a = \"?\"; ?>b" "/* ?> */ $a = \"?\";".toList [' '] (some ['b']) ∧
      Meets ("/* ?> */ $a = \"?\";".toList ++ [' '] ++ closing (some ['b'])) "/* ?> */ $a = \"?\"; ".toList ['b']) ∧
    (split "<?aer $a = \"http://x\"; ?>tail" = some [⟨true, "$a = \"http://x\"; ?>tail", 1⟩] ∧
      Meets "$a = \"http://x\"; ?>tail".toList "$a = \"http://x\"; ".toList "tail".toList) := by
  have island : HasIsland "<?aer/* ?> */ $a = \"?\"; ?>b" "/* ?> */ $a = \"?\";".toList [' '] (some ['b']) := by
    refine ⟨"aer/* ?> */ $a = \"?\"; ?>b".toList, "aer".toList, [], .first untagged_nil, ?_⟩
    exact {
      whole := rfl
      read := fun h => absurd (dropTagName_eq_none_iff.mpr h) (by decide)
      tag := .inl ⟨by unfold IsTagName; decide, by decide⟩
      blank := nofun
      flush := fun c hc => by cases hc; decide
      space := fun c hc => by obtain rfl := List.mem_singleton.mp hc; decide
      trimmed := fun c hc => by cases hc; decide
      island := takeIsland_eq_iff.mp (by decide) }
  refine ⟨⟨island, ?_⟩, by decide +kernel, by decide, by decide +kernel, by decide +kernel⟩
  exact (island_ends_outside_comments island _ ['b'] (by decide +kernel)).mp ⟨by decide, rfl⟩

end Document

end StackScript
