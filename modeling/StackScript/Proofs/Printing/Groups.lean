/-
Searching nested tokens.

The searches of the builder keep count of the open groups.  Over nested tokens the count comes back to what it was,
and nothing is found on the way: a search for the end of a group finds the bracket behind them, and a list of
arguments is cut at the commas between them.
-/
import Mathlib.Data.List.Forall2
import StackScript.Proofs.Printing.Lexemes
import StackScript.Tree.Builder

namespace StackScript

/-! ### Tokens that are written somewhere -/

/-- The tokens `[i, j)` of a buffer have these lexemes. -/
inductive Spelled (tokens : Array Token) : Nat → List Lexeme → Nat → Prop
  | nil (i : Nat) : Spelled tokens i [] i
  | cons {i j : Nat} {t : Token} {xs : List Lexeme} (ht : tokens[i]? = some t) (h : Spelled tokens (i + 1) xs j) :
      Spelled tokens i (t.lexeme :: xs) j

namespace Spelled

variable {tokens : Array Token} {i j : Nat} {x : Lexeme} {xs ys : List Lexeme}

theorem length (h : Spelled tokens i xs j) : j = i + xs.length := by
  induction h with
  | nil => rfl
  | cons _ _ ih => rw [ih, List.length_cons]; omega

theorem of_cons (h : Spelled tokens i (x :: xs) j) : ∃ t, tokens[i]? = some t ∧ t.lexeme = x ∧ Spelled tokens (i + 1) xs j := by
  cases h with
  | cons ht h => exact ⟨_, ht, rfl, h⟩

theorem of_append (h : Spelled tokens i (xs ++ ys) j) : ∃ m, Spelled tokens i xs m ∧ Spelled tokens m ys j := by
  induction xs generalizing i with
  | nil => exact ⟨i, .nil i, h⟩
  | cons x xs ih =>
      obtain ⟨t, ht, rfl, hrest⟩ := of_cons h
      obtain ⟨m, hxs, hys⟩ := ih hrest
      exact ⟨m, .cons ht hxs, hys⟩

/-- The lexemes are those of the tokens between the ends. -/
theorem extract (h : Spelled tokens i xs j) : (tokens.extract i j).toList.map Token.lexeme = xs := by
  induction h with
  | nil => simp
  | @cons i j t xs ht h ih =>
      have hj := h.length
      obtain ⟨hi, rfl⟩ := Array.getElem?_eq_some_iff.mp ht
      have first : (tokens.extract i j).toList = tokens[i] :: (tokens.extract (i + 1) j).toList := by
        simp only [Array.toList_extract, List.extract_eq_take_drop]
        rw [List.drop_eq_getElem_cons hi, show j - i = j - (i + 1) + 1 by omega, List.take_succ_cons]
        rfl
      rw [first, List.map_cons, ih]

/-- A whole buffer has the lexemes of its tokens. -/
theorem whole (tokens : Array Token) : Spelled tokens 0 (tokens.toList.map Token.lexeme) tokens.size := by
  have behind (n i : Nat) (h : i + n = tokens.size) :
      Spelled tokens i ((tokens.toList.drop i).map Token.lexeme) tokens.size := by
    induction n generalizing i with
    | zero => 
        obtain rfl : i = tokens.size := h
        rw [List.drop_of_length_le (Nat.le_of_eq Array.length_toList)]
        exact .nil _
    | succ n ih =>
        have hi : i < tokens.toList.length := by simp; omega
        rw [List.drop_eq_getElem_cons hi, List.map_cons]
        exact .cons (by simp) (ih (i + 1) (by omega))
  exact behind tokens.size 0 (Nat.zero_add _)

end Spelled

namespace Scan

variable {tokens : Array Token} {β : Type}

/-! ### Brackets -/

theorem isAny_of_kind {t : Token} {kind : TokenKind} (h : t.kind = kind) (cs : List TokenClass) :
    t.isAny cs = cs.any fun c => kind.classes.contains c := by
  subst h
  rfl

theorem isAny_plain {t : Token} (h : t.kind.isBracket = false) : t.isAny openers = false ∧ t.isAny closers = false := by
  rw [isAny_of_kind rfl, isAny_of_kind rfl]
  cases hkind : t.kind <;> simp [hkind, TokenKind.isBracket] at h <;> simp [openers, closers, TokenKind.classes]

/-- The kinds of the brackets of a group and their classes. -/
inductive Brackets : TokenKind → TokenKind → TokenClass → TokenClass → Prop
  | round : Brackets .openParen .closeParen .openParen .closeParen
  | square : Brackets .openBracket .closeBracket .openBracket .closeBracket

namespace Brackets

variable {opening closing opening' closing' : TokenKind} {openClass closeClass openClass' closeClass' : TokenClass}
  {t : Token}

theorem plain (h : Brackets opening closing openClass closeClass) (hkind : t.kind.isBracket = false) :
    t.isAny [openClass] = false ∧ t.isAny [closeClass] = false := by
  obtain ⟨hopen, hclose⟩ := isAny_plain hkind
  cases h <;> simp_all [Token.isAny, openers, closers]

theorem opens (h : Brackets opening closing openClass closeClass) (hkind : t.kind = opening) :
    t.isAny [openClass] = true ∧ t.isAny [closeClass] = false := by
  cases h <;> simp [isAny_of_kind hkind, TokenKind.classes]

theorem closes (h : Brackets opening closing openClass closeClass) (hkind : t.kind = closing) :
    t.isAny [openClass] = false ∧ t.isAny [closeClass] = true := by
  cases h <;> simp [isAny_of_kind hkind, TokenKind.classes]

/-- Brackets of the other kind are no brackets of the group. -/
theorem other (h : Brackets opening closing openClass closeClass) (h' : Brackets opening' closing' openClass' closeClass')
    (hne : opening' ≠ opening) (hkind : t.kind = opening' ∨ t.kind = closing') :
    t.isAny [openClass] = false ∧ t.isAny [closeClass] = false := by
  rcases hkind with hkind | hkind
  all_goals cases h <;> cases h' <;> simp [isAny_of_kind hkind, TokenKind.classes] at hne ⊢

theorem same (h : Brackets opening closing openClass closeClass) (h' : Brackets opening closing' openClass' closeClass') :
    closing' = closing := by
  cases h <;> cases h' <;> rfl

end Brackets

/-! ### Walks -/

/-- A walk over tokens from some depth on that keeps count of groups: tokens outside groups are stepped over, and what
an opening bracket adds to the depth the closing one takes away. -/
structure Counts (tokens : Array Token) (walk : Nat → Nat → Int → β) (low : Int) : Prop where
  plain {n i : Nat} {depth : Int} {t : Token} (ht : tokens[i]? = some t) (hkind : t.kind.isBracket = false)
    (hdepth : low ≤ depth) : walk (n + 1) i depth = walk n (i + 1) depth
  group {opening closing : TokenKind} {openClass closeClass : TokenClass}
    (h : Brackets opening closing openClass closeClass) : ∃ change : Int, 0 ≤ change ∧
    (∀ {n i : Nat} {depth : Int} {t : Token}, tokens[i]? = some t → t.kind = opening → low ≤ depth →
      walk (n + 1) i depth = walk n (i + 1) (depth + change)) ∧
    ∀ {n i : Nat} {depth : Int} {t : Token}, tokens[i]? = some t → t.kind = closing → low ≤ depth →
      walk (n + 1) i (depth + change) = walk n (i + 1) depth

namespace Counts

variable {walk : Nat → Nat → Int → β} {low : Int}

/-- A walk passes over a group when it passes over what is inside. -/
theorem pass_group (hwalk : Counts tokens walk low) {opening closing : Lexeme} {openClass closeClass : TokenClass}
    (hpair : Brackets opening.1 closing.1 openClass closeClass)
    {xs : List Lexeme} (hinside : ∀ {i j : Nat}, Spelled tokens i xs j → ∀ (n : Nat) {depth : Int}, low ≤ depth →
      walk (xs.length + n) i depth = walk n j depth) {i j : Nat} (h : Spelled tokens i (opening :: (xs ++ [closing])) j)
    (n : Nat) {depth : Int} (hdepth : low ≤ depth) :
    walk ((opening :: (xs ++ [closing])).length + n) i depth = walk n j depth := by
  obtain ⟨t, ht, rfl, hbehind⟩ := h.of_cons
  obtain ⟨m, hxs, hclose⟩ := hbehind.of_append
  obtain ⟨c, hc, rfl, hend⟩ := hclose.of_cons
  obtain rfl := hend.length
  obtain ⟨change, hchange, hopening, hclosing⟩ := hwalk.group hpair
  have length : (t.lexeme :: (xs ++ [c.lexeme])).length + n = xs.length + (n + 1) + 1 := by
    simp only [List.length_cons, List.length_append, List.length_nil]
    omega
  calc walk ((t.lexeme :: (xs ++ [c.lexeme])).length + n) i depth
      = walk (xs.length + (n + 1) + 1) i depth := by rw [length]
    _ = walk (xs.length + (n + 1)) (i + 1) (depth + change) := hopening ht rfl hdepth
    _ = walk (n + 1) m (depth + change) := hinside hxs _ (by omega)
    _ = walk n (m + 1) depth := hclosing hc rfl hdepth

/-- A walk passes over nested tokens. -/
theorem pass (hwalk : Counts tokens walk low) {xs : List Lexeme} (hxs : Nested xs) {i j : Nat} (h : Spelled tokens i xs j)
    (n : Nat) {depth : Int} (hdepth : low ≤ depth) : walk (xs.length + n) i depth = walk n j depth := by
  induction hxs generalizing i j n depth with
  | nil =>
      obtain rfl := h.length
      simp
  | plain hx =>
      obtain ⟨t, ht, rfl, hend⟩ := h.of_cons
      obtain rfl := hend.length
      rw [List.length_singleton, Nat.add_comm]
      exact hwalk.plain ht hx hdepth
  | parens _ ih => exact hwalk.pass_group .round (fun h n _ hdepth => ih h n hdepth) h n hdepth
  | brackets _ ih => exact hwalk.pass_group .square (fun h n _ hdepth => ih h n hdepth) h n hdepth
  | append _ _ ih ih' =>
      obtain ⟨m, hxs, hys⟩ := h.of_append
      rw [List.length_append, Nat.add_assoc, ih hxs _ hdepth, ih' hys _ hdepth]

end Counts

/-! ### The end of a group -/

theorem findAtDepth_step {change : Token → Int} {p : Token → Int → Bool} {i : Nat} {t : Token} (ht : tokens[i]? = some t)
    {depth : Int} (hp : p t depth = false) (n : Nat) :
    findAtDepth tokens change p (n + 1) i depth = findAtDepth tokens change p n (i + 1) (depth + change t) := by
  simp [findAtDepth, ht, hp]

/-- The search for the end of a group counts groups. -/
theorem counts_findAtDepth {opening closing : TokenKind} {openClass closeClass : TokenClass}
    (h : Brackets opening closing openClass closeClass) :
    Counts tokens (findAtDepth tokens (depthChange [openClass] [closeClass])
      fun t depth => !t.isAny [openClass] && t.isAny [closeClass] && depth ≤ 1) 1 where
  plain ht hkind hdepth := by
    obtain ⟨hopen, hclose⟩ := h.plain hkind
    rw [findAtDepth_step ht (by simp [hclose])]
    simp [depthChange, hopen, hclose]
  group {opening' closing' _ _} h' := by
    by_cases hsame : opening' = opening
    · subst hsame
      obtain rfl := h.same h'
      refine ⟨1, by decide, fun ht hkind hdepth => ?_, fun ht hkind hdepth => ?_⟩
      · obtain ⟨hopen, hclose⟩ := h.opens hkind
        rw [findAtDepth_step ht (by simp [hclose])]
        simp [depthChange, hopen]
      · obtain ⟨hopen, hclose⟩ := h.closes hkind
        rw [findAtDepth_step ht (by simp; omega)]
        simp [depthChange, hopen, hclose, Int.add_neg_cancel_right]
    · refine ⟨0, by decide, fun ht hkind hdepth => ?_, fun ht hkind hdepth => ?_⟩
      · obtain ⟨hopen, hclose⟩ := h.other h' hsame (.inl hkind)
        rw [findAtDepth_step ht (by simp [hclose])]
        simp [depthChange, hopen, hclose]
      · obtain ⟨hopen, hclose⟩ := h.other h' hsame (.inr hkind)
        rw [findAtDepth_step ht (by simp [hclose])]
        simp [depthChange, hopen, hclose]

/-- Behind nested tokens stands the end of the group. -/
theorem matching?_nested {opening closing : TokenKind} {openClass closeClass : TokenClass}
    (h : Brackets opening closing openClass closeClass) {xs : List Lexeme} (hxs : Nested xs) {i j stop : Nat}
    (hspelled : Spelled tokens i xs j) {t : Token} (ht : tokens[j]? = some t) (hkind : t.kind = closing) (hj : j < stop) :
    matching? tokens [openClass] [closeClass] i stop = some j := by
  obtain ⟨m, rfl⟩ : ∃ m, stop = j + (m + 1) := ⟨stop - j - 1, by omega⟩
  have length := hspelled.length
  obtain ⟨hopen, hclose⟩ := h.closes hkind
  rw [matching?, show j + (m + 1) - i = xs.length + (m + 1) by omega,
    (counts_findAtDepth h).pass hxs hspelled _ (Int.le_refl 1)]
  simp [findAtDepth, ht, hopen, hclose]

/-! ### The arguments of a call -/

theorem commas_step {i : Nat} {t : Token} (ht : tokens[i]? = some t) {depth : Int}
    (h : t.kind ≠ .comma ∨ 1 ≤ depth) (n : Nat) :
    commas tokens (n + 1) i depth = commas tokens n (i + 1) (depth + depthChange openers closers t) := by
  have inside : (t.is .comma && decide (depth ≤ 0)) = false := by
    rcases h with hkind | hdepth
    · have no : t.is .comma = false := by
        obtain ⟨kind, text, line⟩ := t
        cases kind <;> simp [Token.is, TokenKind.classes] at hkind ⊢
      simp [no]
    · simp
      omega
  simp [commas, ht, inside]

theorem depthChange_brackets {opening closing : TokenKind} {openClass closeClass : TokenClass}
    (h : Brackets opening closing openClass closeClass) (t : Token) :
    (t.kind = opening → depthChange openers closers t = 1) ∧ (t.kind = closing → depthChange openers closers t = -1) := by
  cases h
  all_goals
    refine ⟨fun hkind => ?_, fun hkind => ?_⟩ <;>
      simp [depthChange, isAny_of_kind hkind, openers, closers, TokenKind.classes]

/-- The search for commas counts groups, and finds no comma inside one. -/
theorem counts_commas : Counts tokens (commas tokens) 1 where
  plain ht hkind hdepth := by
    obtain ⟨hopen, hclose⟩ := isAny_plain hkind
    rw [commas_step ht (.inr hdepth)]
    simp [depthChange, hopen, hclose]
  group h := by
    refine ⟨1, by decide, fun ht hkind hdepth => ?_, fun ht hkind hdepth => ?_⟩
    · rw [commas_step ht (.inr hdepth), (depthChange_brackets h _).1 hkind]
    · rw [commas_step ht (.inr (by omega)), (depthChange_brackets h _).2 hkind, Int.add_neg_cancel_right]

/-- Lexemes without a comma outside groups: plain ones, or a group. -/
inductive Solid : List Lexeme → Prop
  | plain {xs : List Lexeme} (h : ∀ x ∈ xs, x.1.isBracket = false ∧ x.1 ≠ .comma) (hne : xs ≠ []) : Solid xs
  | group {xs : List Lexeme} (h : Nested xs) : Solid (.openParen :: (xs ++ [.closeParen]))

theorem Solid.ne_nil {xs : List Lexeme} (h : Solid xs) : xs ≠ [] := by
  cases h with
  | plain _ hne => exact hne
  | group => simp

theorem commas_plain {xs : List Lexeme} (hxs : ∀ x ∈ xs, x.1.isBracket = false ∧ x.1 ≠ .comma) {i j : Nat}
    (h : Spelled tokens i xs j) (n : Nat) : commas tokens (xs.length + n) i 0 = commas tokens n j 0 := by
  induction h with
  | nil => simp
  | @cons i j t xs ht h ih =>
      obtain ⟨hkind, hcomma⟩ := hxs t.lexeme (List.mem_cons_self ..)
      obtain ⟨hopen, hclose⟩ := isAny_plain hkind
      have length : (t.lexeme :: xs).length + n = xs.length + n + 1 := by rw [List.length_cons]; omega
      rw [length, commas_step ht (.inl hcomma), ← ih fun x hx => hxs x (List.mem_cons_of_mem _ hx)]
      simp [depthChange, hopen, hclose]

theorem commas_solid {xs : List Lexeme} (hxs : Solid xs) {i j : Nat} (h : Spelled tokens i xs j) (n : Nat) :
    commas tokens (xs.length + n) i 0 = commas tokens n j 0 := by
  cases hxs with
  | plain hxs => exact commas_plain hxs h n
  | @group xs hxs =>
      obtain ⟨t, ht, hopening, hbehind⟩ := h.of_cons
      obtain ⟨m, hinside, hclose⟩ := hbehind.of_append
      obtain ⟨c, hc, hclosing, hend⟩ := hclose.of_cons
      obtain rfl := hend.length
      have opens : t.kind = .openParen := congrArg Prod.fst hopening
      have closes : c.kind = .closeParen := congrArg Prod.fst hclosing
      have length : (Lexeme.openParen :: (xs ++ [Lexeme.closeParen])).length + n = xs.length + (n + 1) + 1 := by
        simp only [List.length_cons, List.length_append, List.length_nil]
        omega
      rw [length, commas_step ht (.inl (by simp [opens])), (depthChange_brackets .round t).1 opens,
        counts_commas.pass hxs hinside _ (by decide), commas_step hc (.inl (by simp [closes])),
        (depthChange_brackets .round c).2 closes]
      rfl

/-- Between the commas stand the arguments. -/
theorem pieces_spelled {xs : List Lexeme} {rest : List (List Lexeme)} (hsolid : ∀ ys ∈ xs :: rest, Solid ys) {i j : Nat}
    (h : Spelled tokens i ([Lexeme.comma].intercalate (xs :: rest)) j) :
    List.Forall₂ (fun ys range => Spelled tokens range.1 ys range.2) (xs :: rest)
      (pieces i j (commas tokens (j - i) i 0)) := by
  have first := hsolid xs (List.mem_cons_self ..)
  induction rest generalizing xs i with
  | nil =>
      rw [List.intercalate_singleton] at h
      have length := h.length
      have none := commas_solid first h 0
      rw [show j - i = xs.length + 0 by omega, none]
      exact .cons h .nil
  | cons ys rest ih =>
      rw [List.intercalate_cons_cons, List.append_assoc, List.singleton_append] at h
      obtain ⟨m, hxs, hcomma⟩ := h.of_append
      obtain ⟨t, ht, hlexeme, hrest⟩ := hcomma.of_cons
      have comma : t.kind = .comma := congrArg Prod.fst hlexeme
      obtain ⟨hopen, hclose⟩ := isAny_plain (t := t) (by simp [comma, TokenKind.isBracket])
      have length := hxs.length
      have length' := hrest.length
      have cut : commas tokens (j - i) i 0 = m :: commas tokens (j - (m + 1)) (m + 1) 0 := by
        rw [show j - i = xs.length + (j - (m + 1) + 1) by omega, commas_solid first hxs]
        simp [commas, ht, Token.is, comma, TokenKind.classes, depthChange, hopen, hclose]
      rw [cut]
      exact .cons hxs (ih (fun zs hzs => hsolid zs (List.mem_cons_of_mem _ hzs)) hrest
        (hsolid ys (List.mem_cons_of_mem _ (List.mem_cons_self ..))))

/-- The pieces of a list of arguments are the arguments. -/
theorem splitCommas_spelled {args : List (List Lexeme)} (hsolid : ∀ ys ∈ args, Solid ys) {i j : Nat}
    (h : Spelled tokens i ([Lexeme.comma].intercalate args) j) :
    List.Forall₂ (fun ys range => Spelled tokens range.1 ys range.2) args (splitCommas tokens i j) := by
  cases args with
  | nil =>
      obtain rfl := h.length
      simp [splitCommas]
  | cons xs rest =>
      have filled : 0 < ([Lexeme.comma].intercalate (xs :: rest)).length := by
        have first := List.length_pos_iff.mpr (hsolid xs (List.mem_cons_self ..)).ne_nil
        cases rest with
        | nil => simpa using first
        | cons ys rest => simp only [List.intercalate_cons_cons, List.length_append]; omega
      have length := h.length
      rw [splitCommas, if_neg (by omega)]
      exact pieces_spelled hsolid h

end Scan

end StackScript
