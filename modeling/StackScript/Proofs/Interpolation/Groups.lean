/-
The groups of a double-quoted string, as the lexer and as the compiler see them.

The lexer takes a group that opens with a brace and a dollar sign whole, whatever it contains.  The scan for
interpolated expressions comes to the same place when the group starts a stretch, and then it takes the same group.  It
never starts a stretch in the middle of an escape of the lexer, and where it is inside a group of the lexer, because a
variable has reached into the group, it cannot take the start of another one: a run of text stops in front of every
group, an escape takes nothing that opens one, and a group inside a group ends inside it.  Only a variable can.
-/
import StackScript.Proofs.Interpolation.Bytes
import Mathlib.Logic.Relation

namespace StackScript

open Relation

/-! ### The lexer step by step -/

namespace Lexer

/-- One step of the scan of a double-quoted string, from how many braces of a group are open and what is left. -/
def templateStep : Nat × List Char → Option (Nat × List Char)
  | (_, []) => none
  | (0, c :: cs) =>
    if c = '"' then none
    else if c = '\\' then some (0, cs.drop 1)
    else if c = '\x7b' ∧ cs.head? = some '$' then some (1, cs)
    else some (0, cs)
  | (n + 1, c :: cs) => some (if c = '\x7b' then n + 2 else if c = '\x7d' then n else n + 1, cs)

/-- The scan comes from one place to another. -/
abbrev Walks : Nat × List Char → Nat × List Char → Prop := ReflTransGen fun a b => templateStep a = some b

/-- The scan comes from one place to another with more than `m` braces open all the way. -/
abbrev Inside (m : Nat) : Nat × List Char → Nat × List Char → Prop :=
  ReflTransGen fun a b => m < a.1 ∧ templateStep a = some b

/-- A group opens outside of every other one. -/
def Opens (a : Nat × List Char) : Prop := a.1 = 0 ∧ ['\x7b', '$'] <+: a.2

/-- The scan comes from one place to another without coming to a group in between. -/
abbrev Passes : Nat × List Char → Nat × List Char → Prop := ReflTransGen fun a b => ¬Opens a ∧ templateStep a = some b

/-- A backslash escapes outside of every group only. -/
theorem templateStep_escape (depth : Nat) (cs : List Char) :
    templateStep (depth, '\\' :: cs) = some (depth, if depth = 0 then cs.drop 1 else cs) := by
  cases depth <;> rfl

/-- Any other character is taken alone. -/
theorem templateStep_other {depth : Nat} {c : Char} {cs : List Char} {b : Nat × List Char}
    (hescape : depth = 0 → c ≠ '\\') (h : templateStep (depth, c :: cs) = some b) : b.2 = cs := by
  cases depth with
  | zero =>
      rw [templateStep, if_neg (hescape rfl)] at h
      split at h
      · cases h
      split at h <;> cases h <;> rfl
  | succ n =>
      cases h
      rfl

/-- What the scan takes in one step, it takes of the string. -/
theorem templateBody_step {a b : Nat × List Char} (h : templateStep a = some b) : ∃ taken, taken ≠ [] ∧
    a.2 = taken ++ b.2 ∧ templateBody a.1 a.2 = (taken ++ (templateBody b.1 b.2).1, (templateBody b.1 b.2).2) := by
  obtain ⟨depth, cs⟩ := a
  cases cs with
  | nil => cases depth <;> cases h
  | cons c cs =>
      cases depth with
      | zero =>
          rw [templateStep] at h
          split at h
          · cases h
          rename_i hquote
          split at h
          · rename_i hescape
            cases h
            subst hescape
            cases cs with
            | nil => exact ⟨['\\'], List.cons_ne_nil _ _, rfl, rfl⟩
            | cons d ds => exact ⟨['\\', d], List.cons_ne_nil _ _, rfl, templateBody_escape d ds⟩
          rename_i hescape
          split at h
          · rename_i hgroup
            cases h
            obtain ⟨rfl, hhead⟩ := hgroup
            exact ⟨['\x7b'], List.cons_ne_nil _ _, rfl, templateBody_group hhead⟩
          · rename_i hgroup
            cases h
            exact ⟨[c], List.cons_ne_nil _ _, rfl, templateBody_other hquote hescape hgroup⟩
      | succ n =>
          cases h
          exact ⟨[c], List.cons_ne_nil _ _, rfl, templateBody_inside n c cs⟩

/-- What the scan walks over is part of the string. -/
theorem Walks.templateBody {a b : Nat × List Char} (h : Walks a b) : ∃ taken, a.2 = taken ++ b.2 ∧
    templateBody a.1 a.2 = (taken ++ (templateBody b.1 b.2).1, (templateBody b.1 b.2).2) := by
  induction h using ReflTransGen.head_induction_on with
  | refl => exact ⟨[], rfl, rfl⟩
  | head hstep _ ih =>
      obtain ⟨first, -, hsplit, hbody⟩ := templateBody_step hstep
      obtain ⟨taken, hsplit', hbody'⟩ := ih
      refine ⟨first ++ taken, by rw [hsplit, hsplit', List.append_assoc], ?_⟩
      rw [hbody, hbody', List.append_assoc]

theorem Walks.length_le {a b : Nat × List Char} (h : Walks a b) : b.2.length ≤ a.2.length := by
  obtain ⟨taken, hsplit, -⟩ := h.templateBody
  rw [hsplit, List.length_append]
  omega

/-- The scan of a string that is closed comes to its closing quote, outside of every group. -/
theorem walks_closing {depth : Nat} {cs : List Char} (h : (templateBody depth cs).2 ≠ []) :
    Walks (depth, cs) (0, (templateBody depth cs).2) := by
  fun_induction templateBody depth cs with
  | case1 => exact absurd rfl h
  | case2 => exact .refl
  | case3 => exact absurd rfl h
  | case4 d ds hquote ih => exact .head (by simp [templateStep]) (ih h)
  | case5 c cs hquote hescape hgroup ih => exact .head (by simp [templateStep, hgroup]) (ih h)
  | case6 c cs hquote hescape hgroup ih => exact .head (by simp [templateStep, hquote, hescape, hgroup]) (ih h)
  | case7 n c cs depth ih => exact .head rfl (ih h)

/-- Where the scan is not at its end, it takes a step on the way there. -/
theorem Walks.step {a b : Nat × List Char} (h : Walks a b) (hlt : b.2.length < a.2.length) :
    ∃ c, templateStep a = some c ∧ Walks c b := by
  obtain rfl | ⟨c, hstep, hwalk⟩ := ReflTransGen.cases_head h
  · omega
  · exact ⟨c, hstep, hwalk⟩

/-- Every step of the scan takes something. -/
theorem Walks.eq_of_length_le {a b : Nat × List Char} (h : Walks a b) (hle : a.2.length ≤ b.2.length) : a = b := by
  obtain rfl | ⟨c, hstep, hwalk⟩ := ReflTransGen.cases_head h
  · rfl
  · obtain ⟨taken, hne, hsplit, -⟩ := templateBody_step hstep
    have := List.length_pos_iff.mpr hne
    have := Walks.length_le hwalk
    rw [hsplit, List.length_append] at hle
    omega

theorem Inside.walks {m : Nat} {a b : Nat × List Char} (h : Inside m a b) : Walks a b :=
  ReflTransGen.mono (fun _ _ h => h.2) _ _ h

/-- No group opens outside of every other one where a brace is open. -/
theorem Inside.passes {m : Nat} {a b : Nat × List Char} (h : Inside m a b) : Passes a b :=
  ReflTransGen.mono (fun _ _ h => ⟨fun hopens => absurd hopens.1 (Nat.ne_zero_of_lt h.1), h.2⟩) _ _ h

theorem Passes.walks {a b : Nat × List Char} (h : Passes a b) : Walks a b := ReflTransGen.mono (fun _ _ h => h.2) _ _ h

/-- A group that the scan comes to is not passed. -/
theorem Passes.opens {a b g : Nat × List Char} (h : Passes a b) (hwalk : Walks a g) (hopens : Opens g) : Walks b g := by
  induction h using ReflTransGen.head_induction_on with
  | refl => exact hwalk
  | head hstep _ ih =>
      obtain rfl | ⟨c, hnext, hrest⟩ := ReflTransGen.cases_head hwalk
      · exact absurd hopens hstep.1
      · obtain rfl := Option.some.inj (hstep.2.symm.trans hnext)
        exact ih hrest

/-- The scan leaves a group in one place. -/
theorem Inside.unique {a : Nat × List Char} {x y : List Char} (hx : Inside 0 a (0, x)) (hy : Inside 0 a (0, y)) : x = y := by
  induction hx using ReflTransGen.head_induction_on with
  | refl =>
      obtain heq | ⟨c, hstep, -⟩ := ReflTransGen.cases_head hy
      · exact congrArg Prod.snd heq
      · exact absurd hstep.1 (Nat.lt_irrefl 0)
  | head hstep _ ih =>
      obtain rfl | ⟨c, hnext, hrest⟩ := ReflTransGen.cases_head hy
      · exact absurd hstep.1 (Nat.lt_irrefl 0)
      · obtain rfl := Option.some.inj (hstep.2.symm.trans hnext.2)
        exact ih hrest

/-- Two places that the scan comes to lie on one way, the one with more left in front. -/
theorem Walks.between {a b c : Nat × List Char} (hb : Walks a b) (hc : Walks a c) (hle : c.2.length ≤ b.2.length) :
    Walks b c := by
  obtain h | h := ReflTransGen.total_of_right_unique (fun _ _ _ h h' => Option.some.inj (h.symm.trans h')) hb hc
  · exact h
  · rw [Walks.eq_of_length_le h hle]

/-- A character that is not escaped and opens no group is taken alone. -/
theorem passes_cons {depth : Nat} {c : Char} {cs closing : List Char} (hescape : depth = 0 → c ≠ '\\')
    (hgroup : depth = 0 → ¬(c = '\x7b' ∧ cs.head? = some '$')) (hend : Walks (depth, c :: cs) (0, closing))
    (hlen : closing.length ≤ cs.length) :
    ∃ depth', Passes (depth, c :: cs) (depth', cs) ∧ Walks (depth', cs) (0, closing) := by
  obtain ⟨⟨depth', cs'⟩, hstep, hwalk⟩ := Walks.step hend (Nat.lt_succ_of_le hlen)
  obtain rfl : cs' = cs := templateStep_other hescape hstep
  have calm : ¬Opens (depth, c :: cs') := by
    rintro ⟨hdepth, rest, hrest⟩
    obtain ⟨rfl, rfl⟩ := List.cons.inj hrest
    exact hgroup hdepth ⟨rfl, rfl⟩
  exact ⟨depth', .single ⟨calm, hstep⟩, hwalk⟩

end Lexer

/-! ### Stretches and steps -/

namespace StringLiteral

open Lexer

variable {closing : List Char}

/-- A group that is taken with braces open around it ends where the scan is back at them, or is not closed. -/
theorem takeGroup_inside (m : Nat) {k : Nat} (hk : 1 ≤ k) (cs : List Char) :
    (Inside m (m + k, cs ++ closing) (m, (takeGroup '\x7b' '\x7d' k cs).2 ++ closing) ∧
      (takeGroup '\x7b' '\x7d' k cs).1.getLast? = some '\x7d') ∨
    ((takeGroup '\x7b' '\x7d' k cs).2 = [] ∧ ∃ k', 1 ≤ k' ∧ Inside m (m + k, cs ++ closing) (m + k', closing)) := by
  induction cs generalizing k with
  | nil => exact .inr ⟨rfl, k, hk, .refl⟩
  | cons c cs ih =>
      obtain ⟨j, rfl⟩ : ∃ j, k = j + 1 := ⟨k - 1, by omega⟩
      have step (k' : Nat) (hk' : m + k' = if c = '\x7b' then m + j + 2 else if c = '\x7d' then m + j else m + j + 1) :
          m < (m + (j + 1), c :: cs ++ closing).1 ∧
            templateStep (m + (j + 1), c :: cs ++ closing) = some (m + k', cs ++ closing) :=
        ⟨by dsimp only; omega, by rw [hk']; rfl⟩
      rw [takeGroup]
      by_cases hclose : c = '\x7d' ∧ j + 1 ≤ 1
      · obtain ⟨rfl, hj⟩ := hclose
        obtain rfl : j = 0 := by omega
        rw [if_pos ⟨rfl, hj⟩]
        exact .inl ⟨.single (step 0 rfl), rfl⟩
      · rw [if_neg hclose]
        dsimp only
        generalize hdepth : (if c = '\x7b' then j + 1 + 1 else if c = '\x7d' then j + 1 - 1 else j + 1) = k'
        have hk' : 1 ≤ k' := by
          subst hdepth
          split
          · omega
          split
          · rename_i hc
            have : ¬j + 1 ≤ 1 := fun hj => hclose ⟨hc, hj⟩
            omega
          · omega
        have first := step k' (by subst hdepth; split_ifs <;> omega)
        obtain ⟨hinside, hlast⟩ | ⟨hopen, k'', hk'', hinside⟩ := ih hk'
        · refine .inl ⟨.head first hinside, ?_⟩
          rw [List.getLast?_cons, hlast]
          rfl
        · exact .inr ⟨hopen, k'', hk'', .head first hinside⟩

/-- A run of text stops in front of every group. -/
theorem takeRun_passes (hclosing : closing.head? = some '"') {depth : Nat} {cs : List Char}
    (hend : Walks (depth, cs ++ closing) (0, closing)) :
    ∃ depth', Passes (depth, cs ++ closing) (depth', (takeRun cs).2 ++ closing) := by
  induction cs generalizing depth with
  | nil => exact ⟨depth, .refl⟩
  | cons c cs ih =>
      rw [takeRun]
      split
      · rename_i hplain
        have other : ¬opensGroup c (cs ++ closing) := by
          rintro ⟨hc, hhead⟩
          refine hplain.2.1 ⟨hc, ?_⟩
          cases cs with
          | nil => exact absurd (hclosing.symm.trans hhead) (by decide)
          | cons d ds => exact hhead
        obtain ⟨next, hnext, hwalk⟩ := passes_cons (fun _ => hplain.1) (fun _ => other) hend (by simp)
        obtain ⟨last, hlast⟩ := ih hwalk
        exact ⟨last, hnext.trans hlast⟩
      · exact ⟨depth, .refl⟩

theorem digits_passes {digits : List Char} (hdigits : ∀ d ∈ digits, CharClass.isHexDigit d = true) {depth : Nat}
    {cs : List Char} (hlen : closing.length ≤ cs.length) (hend : Walks (depth, digits ++ cs) (0, closing)) :
    ∃ depth', Passes (depth, digits ++ cs) (depth', cs) := by
  induction digits generalizing depth with
  | nil => exact ⟨depth, .refl⟩
  | cons d ds ih =>
      obtain ⟨hd, hds⟩ := List.forall_mem_cons.mp hdigits
      have escape : d ≠ '\\' := by
        rintro rfl
        exact absurd hd (by decide)
      have brace : d ≠ '\x7b' := by
        rintro rfl
        exact absurd hd (by decide)
      obtain ⟨next, hnext, hwalk⟩ := passes_cons (fun _ => escape) (fun _ h => brace h.1) hend
        (by rw [List.append_eq, List.length_append]; omega)
      obtain ⟨last, hlast⟩ := ih hds hwalk
      exact ⟨last, hnext.trans hlast⟩

/-- An escape takes nothing that opens a group. -/
theorem escape_passes (hclosing : closing ≠ []) {depth : Nat} {cs : List Char}
    (hend : Walks (depth, '\\' :: cs ++ closing) (0, closing)) :
    ∃ depth', Passes (depth, '\\' :: cs ++ closing) (depth', (decodeEscape cs).2 ++ closing) := by
  rw [List.cons_append] at hend ⊢
  have calm : ¬Opens (depth, '\\' :: (cs ++ closing)) := by
    rintro ⟨-, rest, hrest⟩
    exact absurd (List.cons.inj hrest).1 (by decide)
  have step := templateStep_escape depth (cs ++ closing)
  obtain ⟨next, hnext, hwalk⟩ := Walks.step hend (by simp)
  obtain rfl := Option.some.inj (step.symm.trans hnext)
  have first : Passes (depth, '\\' :: (cs ++ closing)) _ := .single ⟨calm, step⟩
  cases cs with
  | nil =>
      by_cases hdepth : depth = 0
      · -- The closing quote would be escaped.
        have shorter := Walks.length_le hwalk
        have := List.length_pos_iff.mpr hclosing
        rw [if_pos hdepth, List.nil_append, List.length_drop] at shorter
        dsimp only at shorter
        omega
      · rw [if_neg hdepth] at first
        exact ⟨_, first⟩
  | cons c cs =>
      obtain ⟨digits, hdigits, hhex⟩ := decodeEscape_cons c cs
      generalize (decodeEscape (c :: cs)).2 = rest at hdigits ⊢
      subst hdigits
      rw [List.cons_append, List.append_assoc] at first hwalk ⊢
      by_cases hdepth : depth = 0
      · rw [if_pos hdepth, List.drop_succ_cons, List.drop_zero] at first hwalk
        obtain ⟨last, hlast⟩ := digits_passes hhex (by simp) hwalk
        exact ⟨last, first.trans hlast⟩
      · rw [if_neg hdepth] at first hwalk
        obtain ⟨next, hnext, hrest⟩ :=
          passes_cons (fun h => absurd h hdepth) (fun h => absurd h hdepth) hwalk (by simp; omega)
        obtain ⟨last, hlast⟩ := digits_passes hhex (by simp) hrest
        exact ⟨last, (first.trans hnext).trans hlast⟩

/-- Where what is taken does not end with a backslash, the scan comes to its end. -/
theorem walks_through {w rest : List Char} (hlast : w.getLast? ≠ some '\\') (hlen : closing.length ≤ rest.length)
    {depth : Nat} (hend : Walks (depth, w ++ rest) (0, closing)) : ∃ depth', Walks (depth, w ++ rest) (depth', rest) := by
  induction hw : w.length using Nat.strongRecOn generalizing w depth with
  | ind n ih =>
      cases w with
      | nil => exact ⟨depth, .refl⟩
      | cons c w =>
          rw [List.length_cons] at hw
          have later {v : List Char} (hv : v <:+ w) : v.getLast? ≠ some '\\' := by
            intro h
            obtain ⟨front, hfront⟩ := hv
            apply hlast
            rw [← hfront, List.getLast?_cons, List.getLast?_append, h]
            rfl
          obtain ⟨⟨next, left⟩, hstep, hwalk⟩ := Walks.step hend (by simp; omega)
          rw [List.cons_append] at hstep ⊢
          by_cases hescape : depth = 0 ∧ c = '\\'
          · obtain ⟨rfl, rfl⟩ := hescape
            cases w with
            | nil => exact absurd rfl hlast
            | cons d w =>
                rw [templateStep_escape] at hstep
                cases hstep
                obtain ⟨last, hwalks⟩ := ih w.length (by rw [List.length_cons] at hw; omega) (later (List.suffix_cons d w)) hwalk rfl
                exact ⟨last, .head (templateStep_escape 0 _) hwalks⟩
          · obtain rfl : left = w ++ rest := templateStep_other (fun h hc => hescape ⟨h, hc⟩) hstep
            obtain ⟨last, hwalks⟩ := ih w.length (by omega) (later (List.suffix_refl w)) hwalk rfl
            exact ⟨last, .head hstep hwalks⟩

/-! ### Variables -/

theorem getLast?_takeGroup {left right : Char} (depth : Nat) {cs : List Char}
    (h : (takeGroup left right depth cs).2 ≠ []) : (takeGroup left right depth cs).1.getLast? = some right := by
  induction cs generalizing depth with
  | nil => exact absurd rfl h
  | cons c cs ih =>
      rw [takeGroup] at h ⊢
      split
      · rename_i hclose
        rw [hclose.1]
        rfl
      · rename_i hclose
        rw [if_neg hclose] at h
        rw [List.getLast?_cons, ih _ h]
        rfl

theorem getLast?_word (cs : List Char) :
    (cs.takeWhile (· == '$') ++ (cs.dropWhile (· == '$')).takeWhile CharClass.isNameChar).getLast? ≠ some '\\' := by
  intro h
  obtain hdollar | hname := List.mem_append.mp (List.mem_of_getLast? h)
  · exact absurd (Lexer.of_takeWhile _ _ _ hdollar) (by decide)
  · exact absurd (Lexer.of_takeWhile _ _ _ hname) (by decide)

/-- A variable with something behind it does not end with a backslash. -/
theorem getLast?_takeVariable {n : Nat} {cs : List Char} (h : (takeVariable n cs).2 ≠ []) :
    (takeVariable n cs).1.getLast? ≠ some '\\' := by
  have behind {word rest : List Char} (hword : word.getLast? ≠ some '\\') (hrest : rest.getLast? ≠ some '\\') :
      (word ++ rest).getLast? ≠ some '\\' := by
    rw [List.getLast?_append]
    cases hlast : rest.getLast? with
    | none => exact hword
    | some c => rwa [hlast] at hrest
  induction n generalizing cs with
  | zero => exact nofun
  | succ n ih =>
      have hword := getLast?_word cs
      rw [takeVariable] at h ⊢
      dsimp only at h ⊢
      generalize (cs.dropWhile (· == '$')).dropWhile CharClass.isNameChar = rest at h ⊢
      split
      · refine behind hword ?_
        rw [getLast?_takeGroup 0 h]
        decide
      · refine behind hword ?_
        rw [getLast?_takeGroup 0 h]
        decide
      · have access : ['-', '>'].getLast? ≠ some '\\' := by decide
        exact behind hword (behind access (ih h))
      · have access : [':', ':'].getLast? ≠ some '\\' := by decide
        exact behind hword (behind access (ih h))
      · exact hword

/-! ### Where the scans meet -/

/-- The brace that opens a group is counted. -/
theorem takeGroup_open (cs : List Char) : takeGroup '\x7b' '\x7d' 0 ('\x7b' :: cs) =
    ('\x7b' :: (takeGroup '\x7b' '\x7d' 1 cs).1, (takeGroup '\x7b' '\x7d' 1 cs).2) := by
  rw [takeGroup, if_neg fun h => absurd h.1 (by decide)]
  rfl

/-- A group outside of every other one is closed in a string that is closed. -/
theorem takeGroup_closed {cs : List Char} (hend : Walks (1, cs ++ closing) (0, closing)) :
    Inside 0 (1, cs ++ closing) (0, (takeGroup '\x7b' '\x7d' 1 cs).2 ++ closing) ∧
      (takeGroup '\x7b' '\x7d' 1 cs).1.getLast? = some '\x7d' := by
  have taken := @takeGroup_inside closing 0 1 (Nat.le_refl 1) cs
  obtain h | ⟨-, depth, hdepth, hinside⟩ := taken
  · exact h
  · have hrest := Walks.between hinside.walks hend (Nat.le_refl _)
    have := congrArg Prod.fst (Walks.eq_of_length_le hrest (Nat.le_refl _))
    dsimp only at this
    omega

/-- A group that opens inside another one ends inside it. -/
theorem takeGroup_passes (n : Nat) (cs : List Char) : ∃ depth', Passes (n + 1, '\x7b' :: cs ++ closing)
    (depth', (takeGroup '\x7b' '\x7d' 0 ('\x7b' :: cs)).2 ++ closing) := by
  have first : Passes (n + 1, '\x7b' :: cs ++ closing) (n + 2, cs ++ closing) :=
    .single ⟨fun h => absurd h.1 (Nat.succ_ne_zero n), rfl⟩
  rw [takeGroup_open]
  have taken := @takeGroup_inside closing (n + 1) 1 (Nat.le_refl 1) cs
  obtain ⟨hinside, -⟩ | ⟨hopen, k, -, hinside⟩ := taken
  · exact ⟨_, first.trans hinside.passes⟩
  · refine ⟨n + 1 + k, ?_⟩
    dsimp only
    rw [hopen]
    exact first.trans hinside.passes

/-- The next group that the lexer comes to starts the stretch, comes behind the stretch, or starts in the middle of it,
and then the stretch is a variable. -/
theorem takeStretch_next (hclosing : closing.head? = some '"') {depth : Nat} {c : Char} {cs : List Char}
    {g : Nat × List Char} (hend : Walks (depth, c :: cs ++ closing) (0, closing))
    (hwalk : Walks (depth, c :: cs ++ closing) g) (hopens : Opens g) :
    g = (depth, c :: cs ++ closing) ∨
    (∃ depth', Walks (depth, c :: cs ++ closing) (depth', (takeStretch c cs).2 ++ closing) ∧
      Walks (depth', (takeStretch c cs).2 ++ closing) g) ∨
    ∃ chain, (takeStretch c cs).1 = .chain chain ∧ ((takeStretch c cs).2 ++ closing).length < g.2.length ∧
      g.2.length < (c :: cs ++ closing).length := by
  have passed {rest : List Char} (h : ∃ depth', Passes (depth, c :: cs ++ closing) (depth', rest ++ closing)) :
      ∃ depth', Walks (depth, c :: cs ++ closing) (depth', rest ++ closing) ∧ Walks (depth', rest ++ closing) g := by
    obtain ⟨depth', hpasses⟩ := h
    exact ⟨depth', hpasses.walks, hpasses.opens hwalk hopens⟩
  have quote : closing ≠ [] := by
    rintro rfl
    cases hclosing
  by_cases hescape : c = '\\'
  · subst hescape
    rw [takeStretch, if_pos rfl]
    exact .inr (.inl (passed (escape_passes quote hend)))
  by_cases hgroup : opensGroup c cs
  · rw [takeStretch, if_neg hescape, if_pos hgroup]
    obtain ⟨rfl, hhead⟩ := hgroup
    cases depth with
    | zero =>
        have step : templateStep (0, '\x7b' :: cs ++ closing) = some (1, cs ++ closing) := by
          simp [templateStep, List.head?_append, hhead]
        have rest {b : Nat × List Char} (h : Walks (0, '\x7b' :: cs ++ closing) b)
            (hne : (0, '\x7b' :: cs ++ closing) ≠ b) : Walks (1, cs ++ closing) b := by
          obtain heq | ⟨next, hnext, hrest⟩ := ReflTransGen.cases_head h
          · exact absurd heq hne
          · obtain rfl := Option.some.inj (step.symm.trans hnext)
            exact hrest
        by_cases hhere : g = (0, '\x7b' :: cs ++ closing)
        · exact .inl hhere
        · obtain ⟨hinside, -⟩ := takeGroup_closed (rest hend fun h => by
          have := congrArg (fun a => a.2.length) h
          simp only [List.cons_append, List.length_cons, List.length_append] at this
          omega)
          rw [takeGroup_open]
          exact .inr (.inl ⟨0, .head step hinside.walks, hinside.passes.opens (rest hwalk (Ne.symm hhere)) hopens⟩)
    | succ n => exact .inr (.inl (passed (takeGroup_passes n cs)))
  by_cases hchain : c = '$' ∧ cs.head?.any startsVariable = true
  · rw [takeStretch, if_neg hescape, if_neg hgroup, if_pos hchain]
    dsimp only
    have whole := takeVariable_split (cs.length + 1) (c :: cs)
    obtain ⟨depth', hthrough⟩ : ∃ depth', Walks (depth, c :: cs ++ closing)
        (depth', (takeVariable (cs.length + 1) (c :: cs)).2 ++ closing) := by
      by_cases hrest : (takeVariable (cs.length + 1) (c :: cs)).2 = []
      · rw [hrest]
        exact ⟨0, hend⟩
      · have last := getLast?_takeVariable hrest
        generalize takeVariable (cs.length + 1) (c :: cs) = taken at whole last ⊢
        rw [← whole, List.append_assoc] at hend ⊢
        exact walks_through last (by simp) hend
    by_cases hbehind : g.2.length ≤ ((takeVariable (cs.length + 1) (c :: cs)).2 ++ closing).length
    · exact .inr (.inl ⟨depth', hthrough, Walks.between hthrough hwalk hbehind⟩)
    · refine .inr (.inr ⟨_, rfl, Nat.not_le.mp hbehind, Nat.lt_of_le_of_ne (Walks.length_le hwalk) fun hlen => ?_⟩)
      -- A variable does not start with a brace.
      obtain rfl := Walks.eq_of_length_le hwalk (Nat.le_of_eq hlen.symm)
      obtain ⟨-, behind, hbrace⟩ := hopens
      obtain ⟨rfl, -⟩ := hchain
      exact absurd (List.cons.inj hbrace).1 (by decide)
  · have plain : isPlain c cs := ⟨hescape, hgroup, hchain⟩
    rw [takeStretch_plain plain]
    refine .inr (.inl (passed ?_))
    have run : ∃ depth', Passes (depth, c :: cs ++ closing) (depth', (takeRun (c :: cs)).2 ++ closing) :=
      takeRun_passes hclosing hend
    rwa [takeRun, if_pos plain] at run

/-- A group that the lexer comes to outside of every other one is a stretch, or starts in the middle of a variable. -/
theorem stretchesFrom_group (hclosing : closing.head? = some '"') {n : Nat} {cs : List Char} (hn : cs.length ≤ n)
    {depth : Nat} (hend : Walks (depth, cs ++ closing) (0, closing)) {inside : List Char}
    (hwalk : Walks (depth, cs ++ closing) (0, '\x7b' :: '$' :: inside ++ closing)) :
    ∃ before after,
      (covered before ++ '\x7b' :: '$' :: inside = cs ∧
        stretchesFrom n cs =
          before ++ .group (takeGroup '\x7b' '\x7d' 0 ('\x7b' :: '$' :: inside)).1 :: after ∧
        covered after = (takeGroup '\x7b' '\x7d' 0 ('\x7b' :: '$' :: inside)).2) ∨
      ∃ chain, stretchesFrom n cs = before ++ .chain chain :: after ∧ (covered after).length < inside.length + 2 ∧
        inside.length + 2 < (chain ++ covered after).length := by
  have shorter := Walks.length_le hwalk
  simp only [List.cons_append, List.length_cons, List.length_append] at shorter
  induction n generalizing cs depth with
  | zero => omega
  | succ n ih =>
      cases cs with
      | nil =>
          rw [List.length_nil] at shorter
          omega
      | cons c cs =>
          have hrest := length_takeStretch c cs
          rw [List.length_cons] at hn
          obtain heq | ⟨depth', hnext, hlater⟩ | ⟨chain, hchain, hbehind, hfront⟩ :=
            takeStretch_next hclosing hend hwalk ⟨rfl, _, rfl⟩
          · have here : '\x7b' :: '$' :: inside = c :: cs := List.append_cancel_right (congrArg Prod.snd heq)
            obtain ⟨rfl, rfl⟩ := List.cons.inj here
            have taken : takeStretch '\x7b' ('$' :: inside) =
                (.group (takeGroup '\x7b' '\x7d' 0 ('\x7b' :: '$' :: inside)).1,
                  (takeGroup '\x7b' '\x7d' 0 ('\x7b' :: '$' :: inside)).2) := by
              rw [takeStretch, if_neg (by decide), if_pos ⟨rfl, rfl⟩]
            refine ⟨[], stretchesFrom n (takeStretch '\x7b' ('$' :: inside)).2, .inl ⟨rfl, ?_, ?_⟩⟩
            · rw [stretchesFrom, taken]
              rfl
            · rw [covered_stretchesFrom (Nat.le_trans hrest (Nat.le_of_succ_le_succ hn)), taken]
          · have left := Walks.length_le hlater
            simp only [List.cons_append, List.length_cons, List.length_append] at left
            obtain ⟨before, after, h⟩ := ih (Nat.le_trans hrest (Nat.le_of_succ_le_succ hn))
              (Walks.between hnext hend (by simp)) hlater left
            refine ⟨(takeStretch c cs).1 :: before, after, ?_⟩
            obtain ⟨hcovered, hstretches, hafter⟩ | ⟨chain, hstretches, hchain⟩ := h
            · refine .inl ⟨?_, ?_, hafter⟩
              · rw [covered, List.flatMap_cons, List.append_assoc]
                rw [covered] at hcovered
                rw [hcovered, takeStretch_split]
              · rw [stretchesFrom, hstretches]
                rfl
            · refine .inr ⟨chain, ?_, hchain⟩
              rw [stretchesFrom, hstretches]
              rfl
          · refine ⟨[], stretchesFrom n (takeStretch c cs).2, .inr ⟨chain, ?_, ?_, ?_⟩⟩
            · rw [stretchesFrom, hchain]
              rfl
            · rw [covered_stretchesFrom (Nat.le_trans hrest (Nat.le_of_succ_le_succ hn))]
              simp only [List.length_append, List.length_cons, List.cons_append] at hbehind
              omega
            · have whole := congrArg List.length (takeStretch_split c cs)
              rw [hchain] at whole
              rw [covered_stretchesFrom (Nat.le_trans hrest (Nat.le_of_succ_le_succ hn))]
              simp only [List.length_append, List.length_cons, List.cons_append, Stretch.raw] at hfront whole ⊢
              omega

end StringLiteral

/-! ### Strings -/

/-- The scan of a double-quoted string, from behind its opening quote, comes to a group outside of every other one and
takes it whole. -/
structure Lexer.TakesGroup (source pre group behind : List Char) : Prop where
  split : source = pre ++ (group ++ behind)
  opens : ['\x7b', '$'] <+: group
  comes : Lexer.Walks (0, source) (0, group ++ behind)
  takes : Lexer.Inside 0 (1, group.tail ++ behind) (0, behind)

/-- The string goes on behind the group, up to its closing quote. -/
theorem Lexer.TakesGroup.text {source pre group behind : List Char} (h : Lexer.TakesGroup source pre group behind)
    (hclosed : (Lexer.templateBody 0 source).2 ≠ []) :
    ∃ rest, behind = rest ++ (Lexer.templateBody 0 source).2 ∧ (Lexer.templateBody 0 source).1 = pre ++ (group ++ rest) := by
  obtain ⟨inside, hgroup⟩ := h.opens
  have step : Lexer.templateStep (0, group ++ behind) = some (1, group.tail ++ behind) := by
    rw [← hgroup]
    rfl
  have walk : Lexer.Walks (0, source) (0, behind) := h.comes.trans (.head step h.takes.walks)
  have finish := Lexer.walks_closing hclosed
  obtain ⟨quote, hquote⟩ := List.head?_eq_some_iff.mp ((Lexer.head_templateBody 0 source).resolve_left hclosed)
  -- The scan takes no step from the closing quote.
  have long : (Lexer.templateBody 0 source).2.length ≤ behind.length := by
    by_contra hshort
    obtain ⟨next, hnext, -⟩ := Lexer.Walks.step (Lexer.Walks.between finish walk (by dsimp only; omega))
      (Nat.not_le.mp hshort)
    rw [hquote] at hnext
    cases hnext
  obtain ⟨rest, hrest, -⟩ := Lexer.Walks.templateBody (Lexer.Walks.between walk finish long)
  dsimp only at hrest
  have split : (Lexer.templateBody 0 source).1 ++ (Lexer.templateBody 0 source).2 =
      pre ++ (group ++ rest) ++ (Lexer.templateBody 0 source).2 := by
    rw [Lexer.templateBody_split, List.append_assoc, List.append_assoc, ← hrest]
    exact h.split
  exact ⟨rest, hrest, List.append_cancel_right split⟩

/-- Both scans take the same group, with its braces. -/
theorem Lexer.TakesGroup.taken {source pre group rest closing : List Char}
    (h : Lexer.TakesGroup source pre group (rest ++ closing)) (hend : Lexer.Walks (0, source) (0, closing)) :
    ∃ inside, group = '\x7b' :: inside ++ ['\x7d'] ∧ StringLiteral.takeGroup '\x7b' '\x7d' 0 (group ++ rest) = (group, rest) := by
  obtain ⟨inside, rfl⟩ := h.opens
  have takes : Lexer.Inside 0 (1, '$' :: inside ++ rest ++ closing) (0, rest ++ closing) := by
    rw [List.append_assoc]
    exact h.takes
  have start : Lexer.Walks (0, source) (1, '$' :: inside ++ rest ++ closing) := by
    rw [List.append_assoc]
    exact h.comes.tail rfl
  have closed : Lexer.Walks (1, '$' :: inside ++ rest ++ closing) (0, closing) :=
    Lexer.Walks.between start hend (by simp; omega)
  obtain ⟨inside', last⟩ := StringLiteral.takeGroup_closed closed
  have same := StringLiteral.takeGroup_split '\x7b' '\x7d' 1 ('$' :: inside ++ rest)
  have open_ := StringLiteral.takeGroup_open ('$' :: inside ++ rest)
  generalize StringLiteral.takeGroup '\x7b' '\x7d' 1 ('$' :: inside ++ rest) = taken at inside' last same open_
  obtain ⟨first, second⟩ := taken
  obtain rfl : second = rest := List.append_cancel_right (inside'.unique takes)
  obtain rfl : first = '$' :: inside := List.append_cancel_right same
  obtain ⟨front, hfront⟩ := List.getLast?_eq_some_iff.mp last
  exact ⟨front, congrArg ('\x7b' :: ·) hfront, open_⟩

/-- A group that the lexer takes is a stretch, or starts in the middle of a variable. -/
theorem Lexer.TakesGroup.stretch {source pre group behind : List Char} (h : Lexer.TakesGroup source pre group behind)
    (hclosed : (Lexer.templateBody 0 source).2 ≠ []) :
    ∃ before after,
      (∃ inside, StringLiteral.stretches (Lexer.templateBody 0 source).1 = before ++ .group group :: after ∧
        StringLiteral.covered before = pre ∧ group = '\x7b' :: inside ++ ['\x7d']) ∨
      ∃ chain, StringLiteral.stretches (Lexer.templateBody 0 source).1 = before ++ .chain chain :: after ∧
        (StringLiteral.covered before).length < pre.length ∧
        pre.length < (StringLiteral.covered before ++ chain).length := by
  obtain ⟨rest, rfl, htext⟩ := h.text hclosed
  have finish := Lexer.walks_closing hclosed
  have quote := (Lexer.head_templateBody 0 source).resolve_left hclosed
  have whole := Lexer.templateBody_split 0 source
  generalize (Lexer.templateBody 0 source).2 = closing at *
  generalize (Lexer.templateBody 0 source).1 = text at *
  obtain ⟨inside, hgroup, htaken⟩ := h.taken finish
  obtain ⟨ds, hopens⟩ := h.opens
  have front : group ++ rest = '\x7b' :: '$' :: (ds ++ rest) := by
    rw [← hopens]
    rfl
  have comes : Lexer.Walks (0, text ++ closing) (0, '\x7b' :: '$' :: (ds ++ rest) ++ closing) := by
    rw [whole, ← front, List.append_assoc]
    exact h.comes
  obtain ⟨before, after, h⟩ := StringLiteral.stretchesFrom_group quote (Nat.le_refl text.length) (whole ▸ finish) comes
  refine ⟨before, after, ?_⟩
  rw [← front, htaken] at h
  have text_eq : StringLiteral.covered (StringLiteral.stretches text) = text :=
    StringLiteral.covered_stretchesFrom (Nat.le_refl _)
  obtain ⟨hbefore, hstretches, -⟩ | ⟨chain, hstretches, hbehind, hchain⟩ := h
  · exact .inl ⟨inside, hstretches, List.append_cancel_right (hbefore.trans htext), hgroup⟩
  · refine .inr ⟨chain, hstretches, ?_⟩
    have lengths := congrArg List.length (text_eq.trans htext)
    rw [StringLiteral.stretches, hstretches, front] at lengths
    simp only [StringLiteral.covered, List.flatMap_append, List.flatMap_cons, List.length_append, List.length_cons,
      StringLiteral.Stretch.raw] at lengths hbehind hchain ⊢
    omega

namespace Parse

open StringLiteral

/-- A string with a part has the pieces of its parts. -/
theorem template_of_parts (r : Readers) {t : Token} (h : parts t.text.toList ≠ []) :
    ∃ p ps, template r t = .template p ps ∧ p :: ps = (parts t.text.toList).map (piece r t.line) := by
  unfold template
  cases hparts : parts t.text.toList with
  | nil => exact absurd hparts h
  | cons part parts => exact ⟨_, _, rfl, rfl⟩

/-- In a double-quoted string that is closed, the stretches of the scan for interpolated expressions cover the text
exactly once, and the scan over the bytes of the text cuts out their encodings.  Every group that the lexer takes whole
outside of every other one is one interpolated expression, the text between its braces, unless it starts in the middle
of what belongs to a variable that starts in front of it. -/
theorem template_groups {source : List Char} (hclosed : (Lexer.scan '"' source).fault = none) (line : Nat) (r : Readers) :
    let text := (Lexer.scan '"' source).text
    covered (stretches text) = text ∧
    ByteScan.cuts (utf8 text) = (stretches text).map (fun s => ⟨utf8 s.raw, s.splice?.map utf8⟩) ∧
    ∀ pre group behind, Lexer.TakesGroup source pre group behind →
      ∃ before after,
        (∃ inside p ps, stretches text = before ++ .group group :: after ∧ covered before = pre ∧
          group = '\x7b' :: inside ++ ['\x7d'] ∧
          template r ⟨.template, String.ofList text, line⟩ = .template p ps ∧
          p :: ps = (join none before).map (piece r line) ++
            piece r line (.splice inside) :: (join none after).map (piece r line)) ∨
        ∃ chain, stretches text = before ++ .chain chain :: after ∧ (covered before).length < pre.length ∧
          pre.length < (covered before ++ chain).length := by
  intro text
  rw [Lexer.scan_double] at hclosed
  have htext : text = (Lexer.templateBody 0 source).1 := by
    show (Lexer.scan '"' source).text = _
    rw [Lexer.scan_double, Lexer.text_closeString]
  refine ⟨covered_stretchesFrom (Nat.le_refl _), ByteScan.cuts_utf8 text, fun pre group behind h => ?_⟩
  obtain ⟨before, after, ⟨inside, hstretches, hbefore, hgroup⟩ | hchain⟩ := h.stretch (Lexer.closeString_closed hclosed)
  · rw [← htext] at hstretches
    have splice : (Stretch.group group).splice? = some inside := by
      simp [Stretch.splice?, groupInside, hgroup]
    have hparts : parts text = join none before ++ .splice inside :: join none after := by
      rw [parts_eq_join, hstretches, join_splice none before after splice]
    obtain ⟨p, ps, htemplate, hpieces⟩ := template_of_parts r (t := ⟨.template, String.ofList text, line⟩) (by
      rw [String.toList_ofList, hparts]
      simp)
    refine ⟨before, after, .inl ⟨inside, p, ps, hstretches, hbefore, hgroup, htemplate, ?_⟩⟩
    rw [hpieces, String.toList_ofList, hparts, List.map_append, List.map_cons]
  · rw [← htext] at hchain
    exact ⟨before, after, .inr hchain⟩

/-- A variable directly in front of a group takes the group with it. -/
theorem template_groups_behind_variable :
    (Lexer.scan '"' ['$', 'a', '\x7b', '$', 'b', '\x7d', '"']).fault = none ∧
    Lexer.TakesGroup ['$', 'a', '\x7b', '$', 'b', '\x7d', '"'] ['$', 'a'] ['\x7b', '$', 'b', '\x7d'] ['"'] ∧
    ∃ before chain after, stretches ['$', 'a', '\x7b', '$', 'b', '\x7d'] = before ++ .chain chain :: after ∧
      (covered before).length < 2 ∧ 2 < (covered before ++ chain).length := by
  have closed : (Lexer.scan '"' ['$', 'a', '\x7b', '$', 'b', '\x7d', '"']).fault = none := by decide
  have takes : Lexer.TakesGroup ['$', 'a', '\x7b', '$', 'b', '\x7d', '"'] ['$', 'a'] ['\x7b', '$', 'b', '\x7d'] ['"'] := {
    split := rfl
    opens := ⟨['b', '\x7d'], rfl⟩
    comes := .head rfl (.head rfl .refl)
    takes := .head ⟨by decide, rfl⟩ (.head ⟨by decide, rfl⟩ (.head ⟨by decide, rfl⟩ .refl)) }
  have text : (Lexer.scan '"' ['$', 'a', '\x7b', '$', 'b', '\x7d', '"']).text = ['$', 'a', '\x7b', '$', 'b', '\x7d'] := by
    decide
  have cut : stretches ['$', 'a', '\x7b', '$', 'b', '\x7d'] = [.chain ['$', 'a', '\x7b', '$', 'b', '\x7d']] := by decide
  obtain ⟨-, -, groups⟩ := template_groups closed 1 (Parse.readers 0)
  rw [text] at groups
  obtain ⟨before, after, ⟨_, _, _, hstretches, -⟩ | ⟨chain, hchain⟩⟩ := groups _ _ _ takes
  · have member : Stretch.group ['\x7b', '$', 'b', '\x7d'] ∈ stretches ['$', 'a', '\x7b', '$', 'b', '\x7d'] := by
      rw [hstretches]
      exact List.mem_append_right _ (List.mem_cons_self ..)
    rw [cut] at member
    exact absurd member (by decide)
  · exact ⟨closed, takes, before, chain, after, hchain⟩

end Parse

end StackScript
