/-
What the head of a class says.

A class starts with a word and a name, and behind it may stand the names of its bases and, for a class that is no
interface, of its interfaces, each list behind a word of its own.  `Header` says so of a list of tokens.  The reader of
a class comes to one exactly if the window starts with such tokens, a brace follows them, and the brace is closed inside
the window; it then goes on behind the brace that closes the body, whatever the body is.
-/
import StackScript.Parser.Class
import StackScript.Proofs.Ranges.Brackets

namespace StackScript

/-! ### Heads -/

/-- Names with a comma between any two of them. -/
inductive IsNames : List String → List Token → Prop
  | last {t : Token} (ht : t.is .name = true) : IsNames [t.text] [t]
  | more {t comma : Token} {names : List String} {ts : List Token} (ht : t.is .name = true)
      (hcomma : comma.is .comma = true) (hts : IsNames names ts) : IsNames (t.text :: names) (t :: comma :: ts)

/-- Names behind a word, or nothing at all. -/
inductive Listed (word : Keyword) : List String → List Token → Prop
  | absent : Listed word [] []
  | names {t : Token} {names : List String} {ts : List Token} (ht : t.isKeyword word = true) (hts : IsNames names ts) :
      Listed word names (t :: ts)

/-- What can be declared: a class that is marked in some way, or an interface. -/
inductive ClassKind where
  | class_ (flags : ClassFlags)
  | interface

namespace ClassKind

def flags : ClassKind → ClassFlags
  | class_ flags => flags
  | interface => { isInterface := true }

/-- The reader of a declaration, with the cursor on its word. -/
def read (r : Readers) : ClassKind → Parse Stmt
  | class_ flags => Parse.classDeclaration r flags
  | interface => Parse.interfaceDeclaration r

/-- The tokens are the head of a declaration that starts on a line, from its word on, and this is what they say. -/
inductive Header (line : Nat) : ClassKind → ClassHead → List Token → Prop
  | class_ {word name : Token} {flags : ClassFlags} {bases interfaces : List String} {ts us : List Token}
      (hname : name.is .name = true) (hbases : Listed .extends_ bases ts)
      (hinterfaces : Listed .implements interfaces us) :
      Header line (class_ flags) ⟨name.text, line, flags, bases, interfaces⟩ (word :: name :: (ts ++ us))
  | interface {word name : Token} {bases : List String} {ts : List Token} (hname : name.is .name = true)
      (hbases : Listed .extends_ bases ts) :
      Header line interface ⟨name.text, line, { isInterface := true }, bases, []⟩ (word :: name :: ts)

end ClassKind

/-! ### What stands in a window -/

namespace TokenStream

variable {s : TokenStream} {t : Token} {ts us : List Token}

/-- The stream some tokens further on. -/
def skip (s : TokenStream) (n : Nat) : TokenStream := { s with pos := s.pos + n }

/-- The window starts with these tokens. -/
def Shows : TokenStream → List Token → Prop
  | _, [] => True
  | s, t :: ts => s.peek = some t ∧ (s.skip 1).Shows ts

theorem skip_skip (m n : Nat) : (s.skip m).skip n = s.skip (m + n) := by
  rw [skip, skip, skip, Nat.add_assoc]

theorem skip_cons (t : Token) (ts : List Token) : (s.skip 1).skip ts.length = s.skip (t :: ts).length := by
  rw [skip_skip, List.length_cons, Nat.add_comm]

theorem skip_append (ts us : List Token) : (s.skip ts.length).skip us.length = s.skip (ts ++ us).length := by
  rw [skip_skip, List.length_append]

theorem lt_of_peek (h : s.peek = some t) : s.pos < s.stop ∧ s.tokens[s.pos]? = some t := by
  unfold peek peekNth at h
  split at h
  · exact ⟨by assumption, h⟩
  · cases h

theorem advance_of_peek (h : s.peek = some t) : s.advance = s.skip 1 := if_pos (lt_of_peek h).1

theorem shows_append : s.Shows (ts ++ us) ↔ s.Shows ts ∧ (s.skip ts.length).Shows us := by
  induction ts generalizing s with
  | nil => exact ⟨fun h => ⟨trivial, h⟩, fun h => h.2⟩
  | cons t ts ih => rw [List.cons_append, Shows, Shows, ih, skip_skip, List.length_cons, Nat.add_comm 1, and_assoc]

theorem Shows.length_le (h : s.Shows ts) : ts.length ≤ s.remaining := by
  induction ts generalizing s with
  | nil => exact Nat.zero_le _
  | cons t ts ih =>
      have inside := (lt_of_peek h.1).1
      have rest : ts.length ≤ s.stop - (s.pos + 1) := ih h.2
      rw [List.length_cons, remaining]
      omega

end TokenStream

namespace Parse

open TokenStream

variable {s s' : TokenStream} {names : List String} {ts : List Token} {word : Keyword}

/-! ### Names -/

theorem run_nameList?_succ (n : Nat) (s : TokenStream) : (nameList? (n + 1)).run s =
    match s.peek.filter (·.is .name) with
    | none => (none, s)
    | some t =>
      if s.advance.check [.comma] then
        (((nameList? n).run (s.advance.skip 1)).1.map (t.text :: ·), ((nameList? n).run (s.advance.skip 1)).2)
      else (some [t.text], s.advance) := by
  cases hname : s.peek.filter (·.is .name) with
  | none =>
      simp [nameList?, peek, hname]
      rfl
  | some t =>
      by_cases hcomma : s.advance.check [.comma] = true
      · obtain ⟨names, s', hrest⟩ : ∃ names s', (nameList? n).run (s.advance.skip 1) = (names, s') := ⟨_, _, rfl⟩
        have here : (nameList? n).run ⟨s.advance.tokens, s.advance.pos + 1, s.advance.stop⟩ = (names, s') := hrest
        simp [nameList?, peek, advance, eat, TokenStream.eat, hname, hcomma, here, hrest]
        cases names <;> rfl
      · simp [nameList?, peek, advance, eat, TokenStream.eat, hname, hcomma]
        rfl

/-- Names that stand in the window are read, up to what is no comma. -/
theorem run_nameList? (hnames : IsNames names ts) {n : Nat} (hn : ts.length ≤ n) (hshows : s.Shows ts)
    (hend : (s.skip ts.length).check [.comma] = false) :
    (nameList? n).run s = (some names, s.skip ts.length) := by
  induction hnames generalizing s n with
  | last ht =>
      obtain ⟨n, rfl⟩ : ∃ m, n = m + 1 := Nat.exists_eq_add_of_le' hn
      rw [run_nameList?_succ, hshows.1, Option.filter_some, if_pos ht]
      dsimp only
      rw [advance_of_peek hshows.1, if_neg (by simpa using hend)]
      rfl
  | @more t comma names ts ht hcomma _ ih =>
      obtain ⟨hpeek, hbehind, hrest⟩ := hshows
      obtain ⟨n, rfl⟩ : ∃ m, n = m + 1 := Nat.exists_eq_add_of_le' (Nat.le_trans (Nat.le_add_left 1 _) hn)
      rw [← skip_cons t, ← skip_cons comma] at hend ⊢
      rw [run_nameList?_succ, hpeek, Option.filter_some, if_pos ht]
      dsimp only
      rw [advance_of_peek hpeek, check_of_peek hbehind, if_pos (by simpa [Token.isAny] using hcomma),
        ih (Nat.le_of_succ_le_succ (Nat.le_of_succ_le hn)) hrest hend]
      rfl

/-- Names that are read stand in the window. -/
theorem shows_nameList? {n : Nat} (h : (nameList? n).run s = (some names, s')) :
    ∃ ts, IsNames names ts ∧ s.Shows ts ∧ s' = s.skip ts.length := by
  induction n generalizing s s' names with
  | zero => cases h
  | succ n ih =>
      rw [run_nameList?_succ] at h
      cases hname : s.peek.filter (·.is .name) with
      | none =>
          rw [hname] at h
          cases h
      | some t =>
          obtain ⟨hpeek, ht⟩ := Option.filter_eq_some_iff.mp hname
          rw [hname] at h
          dsimp only at h
          rw [advance_of_peek hpeek] at h
          split at h
          · rename_i hcomma
            obtain ⟨comma, hbehind, hcomma⟩ := (Option.any_eq_true _ _).mp hcomma
            obtain ⟨rest, hrest, hnames⟩ := Option.map_eq_some_iff.mp (congrArg Prod.fst h)
            obtain ⟨ts, hts, hshows, hlast⟩ := ih (Prod.ext hrest rfl)
            have hnames : IsNames names (t :: comma :: ts) :=
              hnames ▸ .more ht (by simpa [Token.isAny] using hcomma) hts
            refine ⟨t :: comma :: ts, hnames, ⟨hpeek, hbehind, hshows⟩, ?_⟩
            have behind : s' = ((s.skip 1).skip 1).skip ts.length := (congrArg Prod.snd h).symm.trans hlast
            rw [behind, skip_cons comma, skip_cons t]
          · cases h
            exact ⟨[t], .last ht, ⟨hpeek, trivial⟩, rfl⟩

/-! ### Lists behind a word -/

theorem run_namesBehind?_eq (word : Keyword) (s : TokenStream) : (namesBehind? word).run s =
    if s.checkKeyword word then (nameList? (s.skip 1).remaining).run (s.skip 1) else (some [], s) := by
  by_cases hword : s.checkKeyword word = true
  · simp [namesBehind?, eatKeyword, TokenStream.eatKeyword, hword]
    rfl
  · simp [namesBehind?, eatKeyword, TokenStream.eatKeyword, hword]
    rfl

/-- A list that stands in the window is read, up to what neither continues nor begins it. -/
theorem run_namesBehind? (hlisted : Listed word names ts) (hshows : s.Shows ts)
    (hend : (s.skip ts.length).check [.comma] = false) (hnone : (s.skip ts.length).checkKeyword word = false) :
    (namesBehind? word).run s = (some names, s.skip ts.length) := by
  rw [run_namesBehind?_eq]
  cases hlisted with
  | absent =>
      have none : s.checkKeyword word = false := hnone
      rw [none]
      rfl
  | @names t _ ts ht hts =>
      rw [← skip_cons t] at hend ⊢
      rw [if_pos (show s.checkKeyword word = true by rw [TokenStream.checkKeyword, hshows.1]; exact ht)]
      exact run_nameList? hts hshows.2.length_le hshows.2 hend

/-- A list that is read stands in the window. -/
theorem shows_namesBehind? (h : (namesBehind? word).run s = (some names, s')) :
    ∃ ts, Listed word names ts ∧ s.Shows ts ∧ s' = s.skip ts.length := by
  rw [run_namesBehind?_eq] at h
  split at h
  · rename_i hword
    obtain ⟨t, hpeek, ht⟩ := (Option.any_eq_true _ _).mp hword
    obtain ⟨ts, hts, hshows, rfl⟩ := shows_nameList? h
    exact ⟨t :: ts, .names ht hts, ⟨hpeek, hshows⟩, skip_cons t ts⟩
  · cases h
    exact ⟨[], .absent, trivial, rfl⟩

/-! ### Bodies -/

/-- A body that is closed is read up to its brace. -/
theorem run_classBody (r : Readers) (head : ClassHead) (withoutBrace unclosed : Problem)
    (hbrace : s.check [.openBrace] = true) {j : Nat}
    (hclose : Scan.matching? s.tokens [.openBrace] [.closeBrace] (s.pos + 1) s.stop = some j) :
    ∃ items fault, (classBody r head withoutBrace unclosed).run s = (.class_ head items fault, s.setPos (j + 1)) := by
  have closed : s.delimit (s.pos + 1) [.openBrace] [.closeBrace] = j := by rw [delimit, hclose, Option.getD_some]
  have inside : j < s.stop := (Scan.matching?_bounds hclose).2
  simp [classBody, check, braceGroup?, group?, within, setPos, hbrace, closed, inside]
  exact ⟨_, _, rfl⟩

/-- Without a body that is closed there is only an error. -/
theorem run_classBody_broken (r : Readers) (head : ClassHead) (withoutBrace unclosed : Problem)
    (h : s.check [.openBrace] = true →
      Scan.matching? s.tokens [.openBrace] [.closeBrace] (s.pos + 1) s.stop = none) :
    ((classBody r head withoutBrace unclosed).run s).1 = .report ⟨head.line, withoutBrace⟩ ∨
      ((classBody r head withoutBrace unclosed).run s).1 = .report ⟨head.line, unclosed⟩ := by
  by_cases hbrace : s.check [.openBrace] = true
  · have open_ : s.delimit (s.pos + 1) [.openBrace] [.closeBrace] = s.stop := by
      rw [delimit, h hbrace, Option.getD_none]
    refine .inr ?_
    simp [classBody, check, braceGroup?, group?, hbrace, open_]
    rfl
  · refine .inl ?_
    simp [classBody, check, dropped, hbrace]
    rfl

/-! ### Declarations -/

variable {name : Token} {bases interfaces : List String} {s₁ s₂ : TokenStream}

theorem run_classDeclaration (r : Readers) (flags : ClassFlags)
    (hname : s.advance.peek.filter (·.is .name) = some name)
    (hbases : (namesBehind? .extends_).run s.advance.advance = (some bases, s₁))
    (hinterfaces : (namesBehind? .implements).run s₁ = (some interfaces, s₂)) :
    (classDeclaration r flags).run s =
      (classBody r ⟨name.text, s.line, flags, bases, interfaces⟩ (.classWithoutBrace name.text)
        (.unclosedClass name.text)).run s₂ := by
  replace hbases : (namesBehind? .extends_).run s.advance.advance = (pure (some bases, s₁) : Id _) := hbases
  replace hinterfaces : (namesBehind? .implements).run s₁ = (pure (some interfaces, s₂) : Id _) := hinterfaces
  simp [classDeclaration, line, advance, peek, hname, hbases, hinterfaces]

theorem run_interfaceDeclaration (r : Readers)
    (hname : s.advance.peek.filter (·.is .name) = some name)
    (hbases : (namesBehind? .extends_).run s.advance.advance = (some bases, s₁)) :
    (interfaceDeclaration r).run s =
      (classBody r ⟨name.text, s.line, { isInterface := true }, bases, []⟩ (.interfaceWithoutBrace name.text)
        (.unclosedInterface name.text)).run s₁ := by
  replace hbases : (namesBehind? .extends_).run s.advance.advance = (pure (some bases, s₁) : Id _) := hbases
  simp [interfaceDeclaration, line, advance, peek, hname, hbases]

/-- A class whose head cannot be read is an error. -/
theorem classDeclaration_outcome (r : Readers) (flags : ClassFlags) (s : TokenStream) :
    (∃ problem, ((classDeclaration r flags).run s).1 = .report ⟨s.line, problem⟩ ∧ problem.severity = .error) ∨
      ∃ name bases interfaces s₁ s₂, s.advance.peek.filter (·.is .name) = some name ∧
        (namesBehind? .extends_).run s.advance.advance = (some bases, s₁) ∧
        (namesBehind? .implements).run s₁ = (some interfaces, s₂) := by
  cases hname : s.advance.peek.filter (·.is .name) with
  | none =>
      refine .inl ⟨.invalidClassName, ?_, rfl⟩
      simp only [classDeclaration, line, bind_pure_comp, advance, peek, dropped, bind_map_left, StateT.run_bind,
        StateT.run_get, StateT.run_modify, pure_bind, hname, StateT.run_map]
      rfl
  | some name =>
      obtain ⟨bases?, s₁, hbases⟩ : ∃ b s₁, (namesBehind? .extends_).run s.advance.advance = (b, s₁) := ⟨_, _, rfl⟩
      cases bases? with
      | none =>
          refine .inl ⟨.missingBaseClass name.text, ?_, rfl⟩
          simp only [classDeclaration, line, bind_pure_comp, advance, peek, dropped, bind_map_left, StateT.run_bind,
            StateT.run_get, StateT.run_modify, pure_bind, hname, hbases]
          rfl
      | some bases =>
          obtain ⟨interfaces?, s₂, hinterfaces⟩ : ∃ b s₂, (namesBehind? .implements).run s₁ = (b, s₂) := ⟨_, _, rfl⟩
          cases interfaces? with
          | none =>
              refine .inl ⟨.missingInterface name.text, ?_, rfl⟩
              replace hbases : (namesBehind? .extends_).run s.advance.advance = (pure (some bases, s₁) : Id _) := hbases
              simp only [classDeclaration, line, bind_pure_comp, advance, peek, dropped, bind_map_left,
                StateT.run_bind, StateT.run_get, StateT.run_modify, pure_bind, hname, hbases, hinterfaces]
              rfl
          | some interfaces => exact .inr ⟨name, bases, interfaces, s₁, s₂, rfl, hbases, hinterfaces⟩

/-- An interface whose head cannot be read is an error. -/
theorem interfaceDeclaration_outcome (r : Readers) (s : TokenStream) :
    (∃ problem, ((interfaceDeclaration r).run s).1 = .report ⟨s.line, problem⟩ ∧ problem.severity = .error) ∨
      ∃ name bases s₁, s.advance.peek.filter (·.is .name) = some name ∧
        (namesBehind? .extends_).run s.advance.advance = (some bases, s₁) := by
  cases hname : s.advance.peek.filter (·.is .name) with
  | none =>
      refine .inl ⟨.invalidInterfaceName, ?_, rfl⟩
      simp only [interfaceDeclaration, line, bind_pure_comp, advance, peek, dropped, bind_map_left, StateT.run_bind,
        StateT.run_get, StateT.run_modify, pure_bind, hname, StateT.run_map]
      rfl
  | some name =>
      obtain ⟨bases?, s₁, hbases⟩ : ∃ b s₁, (namesBehind? .extends_).run s.advance.advance = (b, s₁) := ⟨_, _, rfl⟩
      cases bases? with
      | none =>
          refine .inl ⟨.missingBaseInterface name.text, ?_, rfl⟩
          simp only [interfaceDeclaration, line, bind_pure_comp, advance, peek, dropped, bind_map_left,
            StateT.run_bind, StateT.run_get, StateT.run_modify, pure_bind, hname, hbases]
          rfl
      | some bases => exact .inr ⟨name, bases, s₁, rfl, hbases⟩

end Parse

/-! ### Whole declarations -/

theorem Token.kind_of_openBrace {t : Token} (h : t.is .openBrace = true) : t.kind = .openBrace := by
  unfold Token.is at h
  cases hkind : t.kind <;> simp [hkind, TokenKind.classes] at h ⊢

namespace TokenStream

variable {s : TokenStream}

/-- A brace continues no list and begins none. -/
theorem behind_brace {t : Token} (hpeek : s.peek = some t) (ht : t.is .openBrace = true) :
    s.check [.openBrace] = true ∧ s.check [.comma] = false ∧ ∀ word, s.checkKeyword word = false := by
  have kind := Token.kind_of_openBrace ht
  rw [check_of_peek hpeek, check_of_peek hpeek]
  refine ⟨by simpa [Token.isAny] using ht, ?_, fun word => ?_⟩
  · simp [Token.isAny, Token.is, kind, TokenKind.classes]
  · rw [checkKeyword, hpeek, Option.any_some, Token.isKeyword, Token.keyword?, kind]
    rfl

/-- Where the bases end, the interfaces begin, or what stands behind them. -/
theorem behind_bases {interfaces : List String} {us : List Token} (hlisted : Listed .implements interfaces us)
    (hshows : s.Shows us) (hend : (s.skip us.length).check [.comma] = false)
    (hnone : (s.skip us.length).checkKeyword .extends_ = false) :
    s.check [.comma] = false ∧ s.checkKeyword .extends_ = false := by
  cases hlisted with
  | absent => exact ⟨hend, hnone⟩
  | @names t _ ts ht hts =>
      have kind : t.kind = .keyword .implements := by
        unfold Token.isKeyword Token.keyword? at ht
        cases hkind : t.kind <;> simp [hkind, TokenKind.keyword?] at ht ⊢
        exact ht
      rw [check_of_peek hshows.1, checkKeyword, hshows.1, Option.any_some, Token.isKeyword, Token.keyword?, kind]
      exact ⟨by simp [Token.isAny, Token.is, kind, TokenKind.classes], rfl⟩

end TokenStream

namespace ClassKind

open TokenStream Parse

variable {s : TokenStream} {head : ClassHead} {ts : List Token} {j : Nat}

/-- The brace in front of a body that is closed in the window. -/
theorem brace_of_matches {n : Nat} (hbody : Scan.Matches s.tokens .curly (s.pos + n) j) (hj : j < s.stop) :
    ∃ t, (s.skip n).peek = some t ∧ t.is .openBrace = true := by
  obtain ⟨t, ht, hbrace⟩ := (Option.any_eq_true _ _).mp hbody.opens
  exact ⟨t, (if_pos (Nat.lt_trans hbody.lt hj)).trans ht, hbrace⟩

/-- Reading goes on behind the brace that closes the body. -/
theorem run_body (r : Readers) (head : ClassHead) (withoutBrace unclosed : Problem) {n : Nat}
    (hbody : Scan.Matches s.tokens .curly (s.pos + n) j) (hj : j < s.stop) :
    ∃ items fault, (classBody r head withoutBrace unclosed).run (s.skip n) =
      (.class_ head items fault, { s with pos := j + 1 }) := by
  obtain ⟨t, hpeek, ht⟩ := brace_of_matches hbody hj
  obtain ⟨items, fault, hrun⟩ := run_classBody r head withoutBrace unclosed (behind_brace hpeek ht).1
    (Scan.matching?_of_matches hbody hj)
  refine ⟨items, fault, hrun.trans ?_⟩
  obtain ⟨u, hu, -⟩ := (Option.any_eq_true _ _).mp hbody.closes
  have inside : j + 1 ≤ s.tokens.size := (Array.getElem?_eq_some_iff.mp hu).1
  rw [TokenStream.setPos, skip, Nat.min_eq_left inside]

/-- A body that is not closed in the window is an error. -/
theorem body_outcome (r : Readers) (head : ClassHead) (withoutBrace unclosed : Problem)
    (hwithout : withoutBrace.severity = .error) (hunclosed : unclosed.severity = .error) (s : TokenStream) (n : Nat) :
    (∃ problem, ((classBody r head withoutBrace unclosed).run (s.skip n)).1 = .report ⟨head.line, problem⟩ ∧
        problem.severity = .error) ∨
      ∃ j items fault, Scan.Matches s.tokens .curly (s.pos + n) j ∧ j < s.stop ∧
        ((classBody r head withoutBrace unclosed).run (s.skip n)).1 = .class_ head items fault := by
  by_cases hclosed : (s.skip n).check [.openBrace] = true ∧
      ∃ j, Scan.matching? s.tokens [.openBrace] [.closeBrace] (s.pos + n + 1) s.stop = some j
  · obtain ⟨hbrace, j, hj⟩ := hclosed
    obtain ⟨t, hpeek, ht⟩ := (Option.any_eq_true _ _).mp hbrace
    have opens : s.tokens[s.pos + n]?.any (·.is Delimiter.curly.opening) = true := by
      rw [show s.tokens[s.pos + n]? = some t from (lt_of_peek hpeek).2, Option.any_some]
      show t.is .openBrace = true
      simpa [Token.isAny] using ht
    obtain ⟨items, fault, hrun⟩ := run_classBody r head withoutBrace unclosed hbrace hj
    exact .inr ⟨j, items, fault, Scan.matches_of_matching? opens hj, (Scan.matching?_bounds hj).2, congrArg Prod.fst hrun⟩
  · refine .inl ?_
    have broken (hbrace : (s.skip n).check [.openBrace] = true) :
        Scan.matching? s.tokens [.openBrace] [.closeBrace] (s.pos + n + 1) s.stop = none :=
      Option.eq_none_iff_forall_ne_some.mpr fun j hj => hclosed ⟨hbrace, j, hj⟩
    rcases run_classBody_broken r head withoutBrace unclosed (s := s.skip n) broken with h | h
    · exact ⟨_, h, hwithout⟩
    · exact ⟨_, h, hunclosed⟩

/-- In front of a token that is stepped up to there is another one. -/
theorem peek_of_advance {t : Token} (h : s.advance.peek = some t) :
    ∃ word, s.peek = some word ∧ (s.skip 1).peek = some t := by
  have inside : s.pos < s.stop := Nat.lt_of_not_le fun hle => by
    rw [TokenStream.advance, if_neg (Nat.not_lt.mpr hle)] at h
    exact absurd (lt_of_peek h).1 (Nat.not_lt.mpr hle)
  have step : s.advance = s.skip 1 := if_pos inside
  rw [step] at h
  have behind : s.pos + 1 < s.tokens.size := (Array.getElem?_eq_some_iff.mp (lt_of_peek h).2).1
  exact ⟨_, (if_pos inside).trans (Array.getElem?_eq_getElem (Nat.lt_of_succ_lt behind)), h⟩

/-- A name behind the first token is found where a declaration looks for its own. -/
theorem named_of_peek {word name : Token} (hfirst : s.peek = some word) (hsecond : (s.skip 1).peek = some name)
    (hname : name.is .name = true) :
    s.advance.peek.filter (·.is .name) = some name ∧ s.advance.advance = (s.skip 1).skip 1 := by
  rw [advance_of_peek hfirst, advance_of_peek hsecond, hsecond, Option.filter_some, if_pos hname]
  exact ⟨rfl, rfl⟩

/-- A declaration with a head and a body that is closed is read up to its brace. -/
theorem run_read (kind : ClassKind) (r : Readers) (hheader : kind.Header s.line head ts) (hshows : s.Shows ts)
    (hbody : Scan.Matches s.tokens .curly (s.pos + ts.length) j) (hj : j < s.stop) :
    ∃ items fault, (kind.read r).run s = (.class_ head items fault, { s with pos := j + 1 }) := by
  obtain ⟨brace, hpeek, hbrace⟩ := brace_of_matches hbody hj
  obtain ⟨-, hcomma, hword⟩ := behind_brace hpeek hbrace
  cases hheader with
  | @class_ word name flags bases interfaces ts us hname hbases hinterfaces =>
      obtain ⟨hfirst, hsecond, hrest⟩ := hshows
      obtain ⟨hts, hus⟩ := shows_append.mp hrest
      obtain ⟨named, step⟩ := named_of_peek hfirst hsecond hname
      rw [← skip_cons word, ← skip_cons name, ← skip_append] at hcomma hword
      have hend := behind_bases hinterfaces hus hcomma (hword _)
      have readBases := run_namesBehind? hbases hts hend.1 hend.2
      have readInterfaces := run_namesBehind? hinterfaces hus hcomma (hword _)
      rw [read, run_classDeclaration r _ named ((congrArg _ step).trans readBases) readInterfaces, skip_append, skip_cons name,
        skip_cons word]
      exact run_body r _ _ _ hbody hj
  | @interface word name bases ts hname hbases =>
      obtain ⟨hfirst, hsecond, hts⟩ := hshows
      obtain ⟨named, step⟩ := named_of_peek hfirst hsecond hname
      rw [← skip_cons word, ← skip_cons name] at hcomma hword
      have readBases := run_namesBehind? hbases hts hcomma (hword _)
      rw [read, run_interfaceDeclaration r named ((congrArg _ step).trans readBases), skip_cons name, skip_cons word]
      exact run_body r _ _ _ hbody hj

/-- The reader of a declaration comes to an error, or to a class whose head and body stand in the window. -/
theorem read_outcome (kind : ClassKind) (r : Readers) (s : TokenStream) :
    (∃ problem, ((kind.read r).run s).1 = .report ⟨s.line, problem⟩ ∧ problem.severity = .error) ∨
      ∃ head ts j items fault, kind.Header s.line head ts ∧ s.Shows ts ∧
        Scan.Matches s.tokens .curly (s.pos + ts.length) j ∧ j < s.stop ∧
        ((kind.read r).run s).1 = .class_ head items fault := by
  cases kind with
  | class_ flags =>
      rcases classDeclaration_outcome r flags s with h | ⟨name, bases, interfaces, s₁, s₂, hname, hbases, hinterfaces⟩
      · exact .inl h
      · obtain ⟨hsecond, hisName⟩ := Option.filter_eq_some_iff.mp hname
        obtain ⟨word, hfirst, hsecond⟩ := peek_of_advance hsecond
        have run := run_classDeclaration r flags hname hbases hinterfaces
        rw [advance_of_peek hfirst, advance_of_peek hsecond] at hbases
        obtain ⟨ts, hts, htshows, rfl⟩ := shows_namesBehind? hbases
        obtain ⟨us, hus, hushows, rfl⟩ := shows_namesBehind? hinterfaces
        have shows : s.Shows (word :: name :: (ts ++ us)) := ⟨hfirst, hsecond, shows_append.mpr ⟨htshows, hushows⟩⟩
        rw [read, run, skip_append, skip_cons name, skip_cons word]
        rcases body_outcome r ⟨name.text, s.line, flags, bases, interfaces⟩ (.classWithoutBrace name.text)
          (.unclosedClass name.text) rfl rfl s (word :: name :: (ts ++ us)).length with h | ⟨j, items, fault, hbody, hj, hstmt⟩
        · exact .inl h
        · exact .inr ⟨_, _, j, items, fault, .class_ hisName hts hus, shows, hbody, hj, hstmt⟩
  | interface =>
      rcases interfaceDeclaration_outcome r s with h | ⟨name, bases, s₁, hname, hbases⟩
      · exact .inl h
      · obtain ⟨hsecond, hisName⟩ := Option.filter_eq_some_iff.mp hname
        obtain ⟨word, hfirst, hsecond⟩ := peek_of_advance hsecond
        have run := run_interfaceDeclaration r hname hbases
        rw [advance_of_peek hfirst, advance_of_peek hsecond] at hbases
        obtain ⟨ts, hts, htshows, rfl⟩ := shows_namesBehind? hbases
        have shows : s.Shows (word :: name :: ts) := ⟨hfirst, hsecond, htshows⟩
        rw [read, run, skip_cons name, skip_cons word]
        rcases body_outcome r ⟨name.text, s.line, { isInterface := true }, bases, []⟩ (.interfaceWithoutBrace name.text)
          (.unclosedInterface name.text) rfl rfl s (word :: name :: ts).length with h | ⟨j, items, fault, hbody, hj, hstmt⟩
        · exact .inl h
        · exact .inr ⟨_, _, j, items, fault, .interface hisName hts, shows, hbody, hj, hstmt⟩

end ClassKind

end StackScript
