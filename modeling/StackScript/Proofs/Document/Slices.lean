/-
A document is cut into slices.

Raw text, an opening tag, the blanks behind it, the code of the island, the space at its end and the closing tag
follow one another, and together they are the document.  The chunks are the slices of raw text and of code, each on
the line on which it starts, and the tokens of a document are those of its chunks on the lines on which they start.
A document has no chunks at all when one of the tags its reading reaches cannot be read.
-/
import StackScript.Document
import StackScript.Proofs.Lexing.Partition

namespace StackScript

namespace Document

/-! ### Islands -/

/-- Where the walk through an island is behind `cs`, with `rest` following. -/
def Within.walk (rest : List Char) : Within → List Char → Within
  | w, [] => w
  | w, c :: cs => (w.next c (cs ++ rest).head?).walk rest cs

/-- What is left of a text from a closing tag on. -/
def closing : Option (List Char) → List Char
  | none => []
  | some rest => '?' :: '>' :: rest

/-- The text of an island that the walk enters at `w`: up to the first closing tag outside comments, or to the end
when there is none. -/
structure Island (w : Within) (cs text : List Char) (rest : Option (List Char)) : Prop where
  whole : cs = text ++ closing rest
  closes : rest.isSome = true → w.walk (closing rest) text = .code
  first : ∀ front behind, cs = front ++ '?' :: '>' :: behind → front.length < text.length →
    w.walk ('?' :: '>' :: behind) front ≠ .code

theorem island_takeIsland (w : Within) (cs : List Char) : Island w cs (takeIsland w cs).1 (takeIsland w cs).2 := by
  induction cs generalizing w with
  | nil => exact ⟨rfl, nofun, fun front behind _ hlt => absurd hlt (Nat.not_lt_zero _)⟩
  | cons c cs ih =>
      rw [takeIsland]
      split
      · rename_i hclosing
        obtain ⟨hw, rfl, hhead⟩ := hclosing
        obtain ⟨rest, rfl⟩ := List.head?_eq_some_iff.mp hhead
        exact ⟨rfl, fun _ => hw, fun front behind _ hlt => absurd hlt (Nat.not_lt_zero _)⟩
      · rename_i hopen
        obtain ⟨whole, closes, first⟩ := ih (w.next c cs.head?)
        refine ⟨?_, fun hclosed => ?_, fun front behind hcs hlt => ?_⟩
        · rw [List.cons_append, ← whole]
        · rw [Within.walk, ← whole]
          exact closes hclosed
        · cases front with
          | nil =>
              obtain ⟨rfl, rfl⟩ := List.cons.inj hcs
              exact fun hw => hopen ⟨hw, rfl, rfl⟩
          | cons d front =>
              obtain ⟨rfl, rfl⟩ := List.cons.inj hcs
              exact first front behind rfl (Nat.lt_of_succ_lt_succ hlt)

/-- An island does not go on behind a closing tag that another one ends at. -/
theorem Island.length_le {w : Within} {cs text text' : List Char} {rest rest' : Option (List Char)}
    (h : Island w cs text rest) (h' : Island w cs text' rest') : text'.length ≤ text.length := by
  cases rest with
  | none =>
      have whole := congrArg List.length (h.whole.symm.trans h'.whole)
      simp only [closing, List.append_nil, List.length_append] at whole
      omega
  | some rest =>
      refine Nat.le_of_not_lt fun hlt => ?_
      exact h'.first text rest h.whole hlt (h.closes rfl)

theorem closing_inj {rest rest' : Option (List Char)} (h : closing rest = closing rest') : rest = rest' := by
  cases rest <;> cases rest' <;> simp_all [closing]

theorem Island.unique {w : Within} {cs text text' : List Char} {rest rest' : Option (List Char)}
    (h : Island w cs text rest) (h' : Island w cs text' rest') : text = text' ∧ rest = rest' := by
  have length := Nat.le_antisymm (h'.length_le h) (h.length_le h')
  obtain ⟨htext, hrest⟩ := List.append_inj (h.whole.symm.trans h'.whole) length
  exact ⟨htext, closing_inj hrest⟩

theorem takeIsland_eq_iff {w : Within} {cs text : List Char} {rest : Option (List Char)} :
    takeIsland w cs = (text, rest) ↔ Island w cs text rest := by
  constructor
  · intro h
    have := island_takeIsland w cs
    rwa [h] at this
  · intro h
    obtain ⟨htext, hrest⟩ := h.unique (island_takeIsland w cs)
    exact Prod.ext htext.symm hrest.symm

/-! ### Tags and blanks -/

/-- Text without an opening tag. -/
def Untagged (raw : List Char) : Prop := ∀ front behind, raw ≠ front ++ '<' :: '?' :: behind

/-- The letters of an opening tag, in any case. -/
def IsTagName (name : List Char) : Prop := name.map Char.toLower = ['a', 'e', 'r']

/-- At least three bytes follow and the third one does not end a character. -/
def Straddles (behind : List Char) : Prop :=
  3 ≤ (String.ofList behind).utf8ByteSize ∧
    ∀ front rest, behind = front ++ rest → (String.ofList front).utf8ByteSize ≠ 3

theorem takeRaw_none {cs : List Char} (h : (takeRaw cs).2 = none) : (takeRaw cs).1 = cs ∧ Untagged cs := by
  fun_induction takeRaw cs with
  | case1 => exact ⟨rfl, fun front behind h => by simp at h⟩
  | case2 => cases h
  | case3 c cs hc ih =>
      obtain ⟨whole, untagged⟩ := ih h
      refine ⟨congrArg (c :: ·) whole, fun front behind hcs => ?_⟩
      cases front with
      | nil =>
          obtain ⟨rfl, rfl⟩ := List.cons.inj hcs
          exact hc _ rfl rfl
      | cons d front => exact untagged front behind (List.cons.inj hcs).2

theorem takeRaw_some {cs behind : List Char} (h : (takeRaw cs).2 = some behind) :
    cs = (takeRaw cs).1 ++ '<' :: '?' :: behind ∧ Untagged (takeRaw cs).1 := by
  fun_induction takeRaw cs with
  | case1 => cases h
  | case2 rest =>
      cases h
      exact ⟨rfl, fun front behind h => by simp at h⟩
  | case3 c cs hc ih =>
      obtain ⟨whole, untagged⟩ := ih h
      refine ⟨congrArg (c :: ·) whole, fun front behind' hraw => ?_⟩
      cases front with
      | nil =>
          obtain ⟨rfl, hrest⟩ := List.cons.inj hraw
          rw [hrest] at whole
          exact hc _ rfl whole
      | cons d front => exact untagged front behind' (List.cons.inj hraw).2

/-- An opening tag stands behind the longest text without one. -/
theorem takeRaw_eq {raw behind : List Char} (h : Untagged raw) :
    takeRaw (raw ++ '<' :: '?' :: behind) = (raw, some behind) := by
  induction raw with
  | nil => rfl
  | cons c raw ih =>
      have later : Untagged raw := fun front behind hraw => h (c :: front) behind (congrArg (c :: ·) hraw)
      rw [List.cons_append, takeRaw]
      · rw [ih later]
      · rintro rest rfl hrest
        cases raw with
        | nil => simp at hrest
        | cons d raw =>
            obtain ⟨rfl, -⟩ := List.cons.inj hrest
            exact h [] raw rfl

theorem utf8ByteSize_ofList_cons (c : Char) (cs : List Char) :
    (String.ofList (c :: cs)).utf8ByteSize = c.utf8Size + (String.ofList cs).utf8ByteSize := by
  have single : (String.ofList [c]).utf8ByteSize = c.utf8Size := by simp
  rw [← List.singleton_append, String.ofList_append, String.utf8ByteSize_append, single]

theorem utf8Length_eq (cs : List Char) : utf8Length cs = (String.ofList cs).utf8ByteSize := by
  induction cs with
  | nil => rfl
  | cons c cs ih =>
      rw [utf8ByteSize_ofList_cons, ← ih]
      rfl

/-- The first characters that fill some bytes, in a text that is long enough. -/
theorem charsOfBytes_spec {bytes : Nat} {cs : List Char} (h : bytes ≤ (String.ofList cs).utf8ByteSize) :
    (∀ n, charsOfBytes bytes cs = some n → (String.ofList (cs.take n)).utf8ByteSize = bytes) ∧
    (charsOfBytes bytes cs = none →
      ∀ front rest, cs = front ++ rest → (String.ofList front).utf8ByteSize ≠ bytes) := by
  induction cs generalizing bytes with
  | nil =>
      obtain rfl : bytes = 0 := Nat.le_zero.mp h
      refine ⟨fun n hn => ?_, fun hn => ?_⟩
      · rw [List.take_nil]
        rfl
      · simp [charsOfBytes] at hn
  | cons c cs ih =>
      have hc := c.utf8Size_pos
      rw [utf8ByteSize_ofList_cons] at h
      cases bytes with
      | zero =>
          refine ⟨fun n hn => ?_, fun hn => ?_⟩
          · simp only [charsOfBytes, Option.some.injEq] at hn
            subst hn
            rfl
          · simp [charsOfBytes] at hn
      | succ bytes =>
          rw [charsOfBytes.eq_3 _ _ _ (Nat.succ_ne_zero bytes)]
          by_cases hfits : c.utf8Size ≤ bytes + 1
          · rw [if_pos hfits]
            obtain ⟨found, missing⟩ := ih (show bytes + 1 - c.utf8Size ≤ _ by omega)
            refine ⟨fun n hn => ?_, fun hn front rest hcs => ?_⟩
            · obtain ⟨m, hm, rfl⟩ := Option.map_eq_some_iff.mp hn
              rw [List.take_succ_cons, utf8ByteSize_ofList_cons, found m hm]
              omega
            · cases front with
              | nil => exact fun hzero => by simp at hzero
              | cons d front =>
                  obtain ⟨rfl, rfl⟩ := List.cons.inj hcs
                  have := missing (Option.map_eq_none_iff.mp hn) front rest rfl
                  rw [utf8ByteSize_ofList_cons]
                  omega
          · rw [if_neg hfits]
            refine ⟨nofun, fun _ front rest hcs => ?_⟩
            cases front with
            | nil => exact fun hzero => by simp at hzero
            | cons d front =>
                obtain ⟨rfl, -⟩ := List.cons.inj hcs
                rw [utf8ByteSize_ofList_cons]
                omega

/-- A tag cannot be read exactly when a character straddles the end of its letters. -/
theorem dropTagName_eq_none_iff {behind : List Char} : dropTagName behind = none ↔ Straddles behind := by
  unfold dropTagName
  rw [utf8Length_eq]
  by_cases hshort : (String.ofList behind).utf8ByteSize < 3
  · rw [if_pos hshort]
    refine ⟨nofun, fun h => ?_⟩
    have := h.1
    omega
  · rw [if_neg hshort, Option.map_eq_none_iff]
    have long : 3 ≤ (String.ofList behind).utf8ByteSize := Nat.le_of_not_lt hshort
    obtain ⟨found, missing⟩ := charsOfBytes_spec long
    refine ⟨fun h => ⟨long, missing h⟩, fun h => Option.eq_none_iff_forall_ne_some.mpr fun n hn => ?_⟩
    exact h.2 _ _ (List.take_append_drop n behind).symm (found n hn)

theorem utf8Size_of_toLower {c : Char} (h : c.toLower.utf8Size = 1) : c.utf8Size = 1 := by
  unfold Char.toLower at h
  split at h
  · rename_i hupper
    have ascii : c.val ≤ 0x7f := UInt32.le_trans hupper.2 (by decide)
    simp [Char.utf8Size, ascii]
  · exact h

theorem IsTagName.letters {name : List Char} (h : IsTagName name) :
    ∃ a e r : Char, name = [a, e, r] ∧ a.toLower = 'a' ∧ e.toLower = 'e' ∧ r.toLower = 'r' := by
  obtain ⟨a, rest, rfl, ha, hrest⟩ := List.map_eq_cons_iff.mp h
  obtain ⟨e, rest, rfl, he, hrest⟩ := List.map_eq_cons_iff.mp hrest
  obtain ⟨r, rest, rfl, hr, hrest⟩ := List.map_eq_cons_iff.mp hrest
  obtain rfl := List.map_eq_nil_iff.mp hrest
  exact ⟨a, e, r, rfl, ha, he, hr⟩

/-- The letters of a tag fill the three bytes that are looked at. -/
theorem IsTagName.charsOfBytes {name : List Char} (h : IsTagName name) (inside : List Char) :
    Document.charsOfBytes 3 (name ++ inside) = some name.length := by
  obtain ⟨a, e, r, rfl, ha, he, hr⟩ := h.letters
  have ha := utf8Size_of_toLower (c := a) (by rw [ha]; rfl)
  have he := utf8Size_of_toLower (c := e) (by rw [he]; rfl)
  have hr := utf8Size_of_toLower (c := r) (by rw [hr]; rfl)
  simp [Document.charsOfBytes, ha, he, hr]

theorem IsTagName.count_newline {name : List Char} (h : IsTagName name) : name.count '\n' = 0 := by
  have newline : ∀ c : Char, c.toLower ≠ '\n' → c ≠ '\n' := fun c hc hnewline => hc (by rw [hnewline]; decide)
  obtain ⟨a, e, r, rfl, ha, he, hr⟩ := h.letters
  have ha := newline a (by rw [ha]; decide)
  have he := newline e (by rw [he]; decide)
  have hr := newline r (by rw [hr]; decide)
  simp [ha, he, hr]

/-- The letters behind an opening tag, none of them when they are not all there. -/
def TagName (name behind : List Char) : Prop :=
  IsTagName name ∧ name <+: behind ∨ name = [] ∧ ∀ front, front <+: behind → ¬ IsTagName front

theorem TagName.count_newline {name behind : List Char} (h : TagName name behind) : name.count '\n' = 0 := by
  obtain ⟨hname, -⟩ | ⟨rfl, -⟩ := h
  · exact hname.count_newline
  · rfl

theorem exists_tagName (behind : List Char) : ∃ name inside, behind = name ++ inside ∧ TagName name behind := by
  by_cases h : ∃ name, name <+: behind ∧ IsTagName name
  · obtain ⟨name, ⟨inside, rfl⟩, hname⟩ := h
    exact ⟨name, inside, rfl, .inl ⟨hname, List.prefix_append ..⟩⟩
  · refine ⟨[], behind, rfl, .inr ⟨rfl, fun front hfront hname => h ⟨front, hfront, hname⟩⟩⟩

/-- A tag that can be read is followed by what stands behind its letters. -/
theorem dropTagName_append {name inside : List Char} (hread : ¬ Straddles (name ++ inside))
    (h : TagName name (name ++ inside)) : dropTagName (name ++ inside) = some inside := by
  obtain ⟨hname, -⟩ | ⟨rfl, hnone⟩ := h
  · have letters := hname.charsOfBytes inside
    obtain ⟨a, e, r, rfl, -, -, -⟩ := hname.letters
    have long : ¬ utf8Length ([a, e, r] ++ inside) < 3 := by
      have ha := a.utf8Size_pos
      have he := e.utf8Size_pos
      have hr := r.utf8Size_pos
      simp only [utf8Length_eq, List.cons_append, List.nil_append, utf8ByteSize_ofList_cons]
      omega
    rw [dropTagName, if_neg long, letters]
    exact congrArg some (if_pos hname)
  · rw [List.nil_append] at hread hnone ⊢
    have found : dropTagName inside ≠ none := fun hdrop => hread (dropTagName_eq_none_iff.mp hdrop)
    unfold dropTagName at found ⊢
    split
    · rfl
    · rename_i hlong
      rw [if_neg hlong] at found
      obtain ⟨n, hn⟩ := Option.ne_none_iff_exists'.mp fun hchars => found (Option.map_eq_none_iff.mpr hchars)
      rw [hn]
      exact congrArg some (if_neg (hnone _ (List.take_prefix n inside)))

/-- Space at the end is cut off, up to the last character that is none. -/
theorem trimEnd_append {code trailing : List Char} (htrailing : ∀ c ∈ trailing, CharClass.isSpace c = true)
    (hcode : ∀ c, code.getLast? = some c → CharClass.isSpace c = false) : trimEnd (code ++ trailing) = code := by
  have space : trailing.reverse.all CharClass.isSpace = true := by
    rw [List.all_reverse]
    exact List.all_eq_true.mpr htrailing
  have last : code.reverse.dropWhile CharClass.isSpace = code.reverse := by
    cases hreverse : code.reverse with
    | nil => rfl
    | cons c cs =>
        have hc := hcode c (by rw [← List.head?_reverse, hreverse]; rfl)
        rw [List.dropWhile_cons_of_neg (by simp [hc])]
  rw [trimEnd, List.reverse_append, List.dropWhile_append_of_pos (List.all_eq_true.mp space), last, List.reverse_reverse]

theorem exists_trimmed (text : List Char) : ∃ code trailing, text = code ++ trailing ∧
    (∀ c ∈ trailing, CharClass.isSpace c = true) ∧ ∀ c, code.getLast? = some c → CharClass.isSpace c = false := by
  refine ⟨trimEnd text, (text.reverse.takeWhile CharClass.isSpace).reverse, ?_, fun c hc => ?_, fun c hc => ?_⟩
  · rw [trimEnd, ← List.reverse_append, List.takeWhile_append_dropWhile, List.reverse_reverse]
  · exact List.all_eq_true.mp List.all_takeWhile c (List.mem_reverse.mp hc)
  · rw [trimEnd, List.getLast?_reverse] at hc
    obtain ⟨cs, hcs⟩ := List.head?_eq_some_iff.mp hc
    exact Lexer.head_dropWhile hcs

/-! ### Rounds -/

/-- What stands behind an opening tag: its letters, blanks, the code of the island with the space at its end, and from
the closing tag on the `rest`. -/
structure Opened (behind name blanks code trailing : List Char) (rest : Option (List Char)) : Prop where
  whole : behind = name ++ (blanks ++ (code ++ trailing ++ closing rest))
  read : ¬ Straddles behind
  tag : TagName name behind
  blank : ∀ c ∈ blanks, CharClass.isBlank c = true
  flush : ∀ c, (code ++ trailing ++ closing rest).head? = some c → CharClass.isBlank c = false
  space : ∀ c ∈ trailing, CharClass.isSpace c = true
  trimmed : ∀ c, code.getLast? = some c → CharClass.isSpace c = false
  island : Island .code (code ++ trailing ++ closing rest) (code ++ trailing) rest

theorem exists_opened {behind : List Char} (h : ¬ Straddles behind) :
    ∃ name blanks code trailing rest, Opened behind name blanks code trailing rest := by
  obtain ⟨name, inside, hbehind, htag⟩ := exists_tagName behind
  have island := island_takeIsland .code (inside.dropWhile CharClass.isBlank)
  generalize takeIsland .code (inside.dropWhile CharClass.isBlank) = split at island
  obtain ⟨text, rest⟩ := split
  obtain ⟨code, trailing, rfl, hspace, htrimmed⟩ := exists_trimmed text
  have whole := island.whole
  rw [whole] at island
  refine ⟨name, inside.takeWhile CharClass.isBlank, code, trailing, rest, ?_, h, htag, fun c hc => ?_, fun c hc => ?_,
    hspace, htrimmed, island⟩
  · rw [hbehind, ← whole, List.takeWhile_append_dropWhile]
  · exact List.all_eq_true.mp List.all_takeWhile c hc
  · rw [← whole] at hc
    obtain ⟨cs, hcs⟩ := List.head?_eq_some_iff.mp hc
    exact Lexer.head_dropWhile hcs

variable {raw behind name blanks code trailing : List Char} {rest : Option (List Char)}

/-- One round takes the raw text in front of an opening tag and the island behind it. -/
theorem splitFrom_opened (hraw : Untagged raw) (h : Opened behind name blanks code trailing rest) (n line : Nat) :
    splitFrom (n + 1) line (raw ++ '<' :: '?' :: behind) =
      let codeLine := line + raw.count '\n' + blanks.count '\n'
      (rest.elim (some []) (splitFrom n (codeLine + (code ++ trailing).count '\n'))).map
        ((chunk false raw line ++ chunk true code codeLine) ++ ·) := by
  have tag : dropTagName behind = some (blanks ++ (code ++ trailing ++ closing rest)) := by
    have read := h.read
    have named := h.tag
    rw [h.whole] at read named ⊢
    exact dropTagName_append read named
  have unblanked : (code ++ trailing ++ closing rest).takeWhile CharClass.isBlank = [] ∧
      (code ++ trailing ++ closing rest).dropWhile CharClass.isBlank = code ++ trailing ++ closing rest := by
    cases hinside : code ++ trailing ++ closing rest with
    | nil => exact ⟨rfl, rfl⟩
    | cons c cs =>
        have hc := h.flush c (by rw [hinside]; rfl)
        exact ⟨List.takeWhile_cons_of_neg (by simp [hc]), List.dropWhile_cons_of_neg (by simp [hc])⟩
  have gap : (blanks ++ (code ++ trailing ++ closing rest)).takeWhile CharClass.isBlank = blanks := by
    rw [List.takeWhile_append_of_pos h.blank, unblanked.1, List.append_nil]
  have inside : (blanks ++ (code ++ trailing ++ closing rest)).dropWhile CharClass.isBlank =
      code ++ trailing ++ closing rest := by
    rw [List.dropWhile_append_of_pos h.blank, unblanked.2]
  rw [splitFrom, takeRaw_eq hraw]
  simp only [tag, gap, inside, takeIsland_eq_iff.mpr h.island, trimEnd_append h.space h.trimmed]
  cases rest with
  | none => simp
  | some rest => rfl

/-! ### Slices -/

inductive SliceKind where
  | raw | opening | blanks | code | trailing | closing
deriving DecidableEq

/-- A piece of a document and what it is there. -/
structure Slice where
  kind : SliceKind
  text : List Char

/-- The slices of raw text and of the island behind it, without a closing tag. -/
def Slice.round (raw name blanks code trailing : List Char) : List Slice :=
  [⟨.raw, raw⟩, ⟨.opening, '<' :: '?' :: name⟩, ⟨.blanks, blanks⟩, ⟨.code, code⟩, ⟨.trailing, trailing⟩]

/-- A document and its slices. -/
inductive Sliced : List Char → List Slice → Prop
  | text {raw : List Char} (hraw : Untagged raw) : Sliced raw [⟨.raw, raw⟩]
  | unclosed {raw behind name blanks code trailing : List Char} (hraw : Untagged raw)
      (h : Opened behind name blanks code trailing none) :
      Sliced (raw ++ '<' :: '?' :: behind) (Slice.round raw name blanks code trailing)
  | closed {raw behind name blanks code trailing rest : List Char} {slices : List Slice} (hraw : Untagged raw)
      (h : Opened behind name blanks code trailing (some rest)) (hrest : Sliced rest slices) :
      Sliced (raw ++ '<' :: '?' :: behind)
        (Slice.round raw name blanks code trailing ++ ⟨.closing, ['?', '>']⟩ :: slices)

/-- The text behind an opening tag that the reading of a document comes to outside of the islands in front of it. -/
inductive Reaches : List Char → List Char → Prop
  | first {raw behind : List Char} (hraw : Untagged raw) : Reaches (raw ++ '<' :: '?' :: behind) behind
  | later {raw front name blanks code trailing rest behind : List Char} (hraw : Untagged raw)
      (h : Opened front name blanks code trailing (some rest)) (hrest : Reaches rest behind) :
      Reaches (raw ++ '<' :: '?' :: front) behind

/-- The slices are all of a document. -/
theorem Sliced.text_eq {cs : List Char} {slices : List Slice} (h : Sliced cs slices) :
    slices.flatMap Slice.text = cs := by
  induction h with
  | text => simp
  | unclosed _ h => simp [Slice.round, h.whole, closing]
  | closed _ h _ ih => simp [Slice.round, h.whole, closing, ih]

/-- The chunks of slices with the text `before` in front of them: the raw text and the code that is not empty, on the
line on which it starts. -/
def Slice.chunks (before : List Char) : List Slice → List Chunk
  | [] => []
  | s :: slices =>
    let line := 1 + before.count '\n'
    let here :=
      match s.kind with
      | .raw => chunk false s.text line
      | .code => chunk true s.text line
      | _ => []
    here ++ chunks (before ++ s.text) slices

theorem Opened.length_lt {rest : List Char} (h : Opened behind name blanks code trailing (some rest)) :
    rest.length < behind.length := by
  rw [h.whole]
  simp only [closing, List.length_append, List.length_cons]
  omega

theorem Slice.chunks_round (raw : List Char) (h : Opened behind name blanks code trailing rest) (before : List Char)
    (slices : List Slice) :
    Slice.chunks before (Slice.round raw name blanks code trailing ++ slices) =
      chunk false raw (1 + before.count '\n') ++
        chunk true code (1 + before.count '\n' + raw.count '\n' + blanks.count '\n') ++
          Slice.chunks (before ++ raw ++ '<' :: '?' :: name ++ blanks ++ code ++ trailing) slices := by
  simp [Slice.round, Slice.chunks, h.tag.count_newline, Nat.add_assoc]

/-- A reading that comes to a tag that cannot be read fails. -/
theorem splitFrom_straddles {cs : List Char} (h : Reaches cs behind) (hstraddles : Straddles behind) {n : Nat}
    (hn : cs.length < n) (line : Nat) : splitFrom n line cs = none := by
  induction h generalizing n line with
  | @first raw behind hraw =>
      obtain ⟨n, rfl⟩ := Nat.exists_eq_succ_of_ne_zero (Nat.ne_zero_of_lt hn)
      rw [splitFrom, takeRaw_eq hraw]
      simp only [dropTagName_eq_none_iff.mpr hstraddles]
  | @later raw front name blanks code trailing rest behind hraw h _ ih =>
      obtain ⟨n, rfl⟩ := Nat.exists_eq_succ_of_ne_zero (Nat.ne_zero_of_lt hn)
      have shorter := h.length_lt
      simp only [List.length_append, List.length_cons] at hn
      rw [splitFrom_opened hraw h]
      simp only [Option.elim, ih hstraddles (show rest.length < n by omega), Option.map_none]

/-- A document has a tag that cannot be read, or slices that its chunks are taken from. -/
theorem splitFrom_sliced {n : Nat} {cs : List Char} (hn : cs.length < n) (before : List Char) :
    (∃ behind, Reaches cs behind ∧ Straddles behind) ∨
      ∃ slices, Sliced cs slices ∧ splitFrom n (1 + before.count '\n') cs = some (Slice.chunks before slices) := by
  induction n generalizing cs before with
  | zero => exact absurd hn (Nat.not_lt_zero _)
  | succ n ih =>
      cases hopened : (takeRaw cs).2 with
      | none =>
          obtain ⟨whole, untagged⟩ := takeRaw_none hopened
          refine .inr ⟨_, .text untagged, ?_⟩
          rw [splitFrom]
          simp [hopened, whole, Slice.chunks]
      | some behind =>
          obtain ⟨whole, untagged⟩ := takeRaw_some hopened
          generalize (takeRaw cs).1 = raw at whole untagged
          subst whole
          by_cases hread : Straddles behind
          · exact .inl ⟨behind, .first untagged, hread⟩
          obtain ⟨name, blanks, code, trailing, rest, h⟩ := exists_opened hread
          rw [splitFrom_opened untagged h]
          cases rest with
          | none =>
              have chunks := Slice.chunks_round raw h before []
              refine .inr ⟨_, .unclosed untagged h, ?_⟩
              rw [List.append_nil] at chunks
              simp [chunks, Slice.chunks]
          | some rest =>
              have shorter := h.length_lt
              simp only [List.length_append, List.length_cons] at hn
              -- The rest starts behind the closing tag, and neither tag holds a line break.
              have later := ih (show rest.length < n by omega)
                (before ++ raw ++ '<' :: '?' :: name ++ blanks ++ code ++ trailing ++ ['?', '>'])
              obtain ⟨behind', hreaches, hstraddles⟩ | ⟨slices, hsliced, hchunks⟩ := later
              · exact .inl ⟨behind', .later untagged h hreaches, hstraddles⟩
              · refine .inr ⟨_, .closed untagged h hsliced, ?_⟩
                have line : 1 + (before ++ raw ++ '<' :: '?' :: name ++ blanks ++ code ++ trailing ++ ['?', '>']).count
                    '\n' = 1 + before.count '\n' + raw.count '\n' + blanks.count '\n' + (code ++ trailing).count '\n' := by
                  simp [h.tag.count_newline, Nat.add_assoc]
                rw [line] at hchunks
                simp only [Option.elim, hchunks, Option.map_some, Slice.chunks_round raw h]
                rfl

/-! ### Tokens -/

/-- The tokens of slices with the text `before` in front of them: each stretch of raw text is one token on the line on
which it starts, the tokens of code are on the lines on which they start, and a semicolon ends either. -/
inductive Tokenized (errors : List LexError) : List Char → List Slice → List Token → Prop
  | nil {before : List Char} : Tokenized errors before [] []
  | skipped {before : List Char} {s : Slice} {slices : List Slice} {ts : List Token}
      (hs : s.kind ≠ .raw ∧ s.kind ≠ .code ∨ s.text = []) (h : Tokenized errors (before ++ s.text) slices ts) :
      Tokenized errors before (s :: slices) ts
  | raw {before text : List Char} {slices : List Slice} {ts : List Token} {line : Nat} (htext : text ≠ [])
      (h : Tokenized errors (before ++ text) slices ts) :
      Tokenized errors before (⟨.raw, text⟩ :: slices)
        (⟨.raw, String.ofList text, 1 + before.count '\n'⟩ :: ⟨.semicolon, ";", line⟩ :: ts)
  | code {before text : List Char} {slices : List Slice} {here ts : List Token} {line : Nat} (htext : text ≠ [])
      (hhere : Lexer.Cut errors ⟨1 + before.count '\n', 1⟩ text here)
      (h : Tokenized errors (before ++ text) slices ts) :
      Tokenized errors before (⟨.code, text⟩ :: slices) (here ++ ⟨.semicolon, ";", line⟩ :: ts)

theorem tokenized_joinChunks (before : List Char) (slices : List Slice) (last : Option Nat) {errors : List LexError}
    (herrors : (joinChunks last (Slice.chunks before slices)).errors ⊆ errors) :
    Tokenized errors before slices (joinChunks last (Slice.chunks before slices)).tokens := by
  induction slices generalizing before last with
  | nil => exact .nil
  | cons s slices ih =>
      obtain ⟨kind, text⟩ := s
      by_cases hskipped : kind ≠ .raw ∧ kind ≠ .code ∨ text = []
      · have none : Slice.chunks before (⟨kind, text⟩ :: slices) = Slice.chunks (before ++ text) slices := by
          cases kind <;> simp_all [Slice.chunks, chunk]
        rw [none] at herrors ⊢
        exact .skipped hskipped (ih _ _ herrors)
      · obtain ⟨hkind, htext⟩ := not_or.mp hskipped
        by_cases hraw : kind = .raw
        · subst hraw
          have first : Slice.chunks before (⟨.raw, text⟩ :: slices) =
              ⟨false, String.ofList text, 1 + before.count '\n'⟩ :: Slice.chunks (before ++ text) slices := by
            simp [Slice.chunks, chunk, htext]
          rw [first, joinChunks] at herrors ⊢
          exact .raw htext (ih _ _ herrors)
        · obtain rfl : kind = .code := Classical.byContradiction fun hcode => hkind ⟨hraw, hcode⟩
          have first : Slice.chunks before (⟨.code, text⟩ :: slices) =
              ⟨true, String.ofList text, 1 + before.count '\n'⟩ :: Slice.chunks (before ++ text) slices := by
            simp [Slice.chunks, chunk, htext]
          rw [first, joinChunks] at herrors ⊢
          obtain ⟨here, later⟩ := List.append_subset.mp herrors
          have cut : Lexer.Cut (Tokens.ofSource (String.ofList text) (1 + before.count '\n')).errors
              ⟨1 + before.count '\n', 1⟩ (String.ofList text).toList
              (Tokens.ofSource (String.ofList text) (1 + before.count '\n')).tokens := Lexer.cut_run (Nat.le_refl _)
          rw [String.toList_ofList] at cut
          exact .code htext (cut.mono here) (ih _ _ later)

/-- The chunks of a document are slices of it, and what lies between them is the opening tags with the blanks behind
them and the closing tags with the space in front of them.  Every chunk is on the line on which it starts, and so is
every token, apart from the semicolons between the chunks.  Only an opening tag whose letters end inside a character
makes the splitting fail. -/
theorem split_faithful (source : String) :
    (split source = none ↔ ∃ behind, Reaches source.toList behind ∧ Straddles behind) ∧
    ∀ chunks, split source = some chunks → ∃ slices, Sliced source.toList slices ∧
      slices.flatMap Slice.text = source.toList ∧ chunks = Slice.chunks [] slices ∧
        ∃ read, tokens source = some read ∧ Tokenized read.errors [] slices read.tokens := by
  have reading := splitFrom_sliced (Nat.lt_succ_self source.toList.length) []
  have failing {behind : List Char} (hreaches : Reaches source.toList behind) (hstraddles : Straddles behind) :
      split source = none := splitFrom_straddles hreaches hstraddles (Nat.lt_succ_self _) 1
  refine ⟨⟨fun h => ?_, fun ⟨behind, hreaches, hstraddles⟩ => failing hreaches hstraddles⟩, fun chunks h => ?_⟩
  · obtain hfails | ⟨slices, -, hchunks⟩ := reading
    · exact hfails
    · exact absurd (hchunks.symm.trans h) (Option.some_ne_none _)
  · obtain ⟨behind, hreaches, hstraddles⟩ | ⟨slices, hsliced, hchunks⟩ := reading
    · exact absurd (h.symm.trans (failing hreaches hstraddles)) (Option.some_ne_none _)
    · obtain rfl : Slice.chunks [] slices = chunks := Option.some.inj (hchunks.symm.trans h)
      refine ⟨slices, hsliced, hsliced.text_eq, rfl, _, congrArg (Option.map _) h, ?_⟩
      exact tokenized_joinChunks [] slices none (List.Subset.refl _)

/-- Tags in any case, blanks with line breaks, and a second island that is left open. -/
theorem split_faithful_islands :
    split "a\n<?AER\n $a; // ?>\n\n?>é<? $b" = some [⟨false, "a\n", 1⟩, ⟨true, "$a; // ?>", 3⟩, ⟨false, "é", 5⟩,
      ⟨true, "$b", 5⟩] ∧
    ∃ slices, Sliced "a\n<?AER\n $a; // ?>\n\n?>é<? $b".toList slices ∧
      slices.flatMap Slice.text = "a\n<?AER\n $a; // ?>\n\n?>é<? $b".toList ∧
      [⟨false, "a\n", 1⟩, ⟨true, "$a; // ?>", 3⟩, ⟨false, "é", 5⟩, ⟨true, "$b", 5⟩] = Slice.chunks [] slices ∧
        ∃ read, tokens "a\n<?AER\n $a; // ?>\n\n?>é<? $b" = some read ∧
          Tokenized read.errors [] slices read.tokens := by
  have chunks : split "a\n<?AER\n $a; // ?>\n\n?>é<? $b" = some [⟨false, "a\n", 1⟩, ⟨true, "$a; // ?>", 3⟩,
      ⟨false, "é", 5⟩, ⟨true, "$b", 5⟩] := by
    decide +kernel
  exact ⟨chunks, (split_faithful _).2 _ chunks⟩

example : split "text <?aeé ?>" = none := by decide +kernel

end Document

end StackScript
