/-
Compiling comes to an end.

The definitions of the compiler carry bounds: on how deep constructs nest, on the rounds of a loop, on the levels of a
tree.  None of them is ever felt.  Each construct inside another one covers less text, each round of a loop takes a
token or is the last one, each call of the tree builder works on fewer tokens, and the source of an expression in a
string is shorter than the text the string stands in.  So what is compiled is what would be compiled without any bound.
-/
import StackScript.Proofs.Reading.Rounds
import StackScript.Proofs.Reading.Windows

namespace StackScript

open Parse

/-! ### Scanning text -/

namespace Lexer

/-- Every lexeme takes at least one character. -/
theorem run_rounds {n m : Nat} (p : Position) {cs : List Char} (hn : cs.length ≤ n) (hm : cs.length ≤ m) :
    run n p cs = run m p cs := by
  induction n generalizing m p cs with
  | zero =>
      obtain rfl : cs = [] := List.length_eq_zero_iff.mp (by omega)
      cases m <;> rfl
  | succ n ih =>
      cases m with
      | zero =>
          obtain rfl : cs = [] := List.length_eq_zero_iff.mp (by omega)
          rfl
      | succ m =>
          have blanks := length_skipBlanks cs
          rw [run, run]
          cases hskip : (skipBlanks cs).2 with
          | nil => rfl
          | cons c rest =>
              rw [hskip, List.length_cons] at blanks
              have shorter := (length_scan c rest).1
              dsimp only
              rw [ih (m := m) _ (by omega) (by omega)]

end Lexer

namespace Document

/-- Every round takes an opening tag. -/
theorem splitFrom_rounds {n m : Nat} (line : Nat) {cs : List Char} (hn : cs.length < n) (hm : cs.length < m) :
    splitFrom n line cs = splitFrom m line cs := by
  induction n generalizing m line cs with
  | zero => omega
  | succ n ih =>
      obtain ⟨m, rfl⟩ : ∃ k, m = k + 1 := ⟨m - 1, by omega⟩
      have raw := length_takeRaw cs
      rw [splitFrom, splitFrom]
      cases hopened : (takeRaw cs).2 with
      | none => simp only [hopened]
      | some behind =>
          rw [hopened] at raw
          cases htag : dropTagName behind with
          | none => simp only [hopened, htag]
          | some inside =>
              have tag := length_dropTagName htag
              have gap := Lexer.length_dropWhile_le CharClass.isBlank inside
              have island := length_takeIsland .code (inside.dropWhile CharClass.isBlank)
              simp only [Option.elim] at raw
              simp only [hopened, htag]
              cases hclosed : (takeIsland .code (inside.dropWhile CharClass.isBlank)).2 with
              | none => rfl
              | some rest =>
                  rw [hclosed] at island
                  simp only [Option.elim] at island
                  dsimp only
                  rw [ih (m := m) _ (by omega) (by omega)]

end Document

namespace StringLiteral

theorem length_takeGroup_lt (left right : Char) (depth : Nat) (c : Char) (cs : List Char) :
    (takeGroup left right depth (c :: cs)).2.length ≤ cs.length := by
  have whole := length_takeGroup left right depth (c :: cs)
  have taken : 0 < (takeGroup left right depth (c :: cs)).1.length := by
    rw [takeGroup]
    split <;> simp
  rw [List.length_cons] at whole
  omega

theorem length_takeVariable_lt (n : Nat) (cs : List Char) :
    (takeVariable (n + 1) ('$' :: cs)).2.length ≤ cs.length := by
  have whole := length_takeVariable (n + 1) ('$' :: cs)
  have taken : 0 < (takeVariable (n + 1) ('$' :: cs)).1.length := by
    unfold takeVariable
    dsimp only
    split <;> simp
  rw [List.length_cons] at whole
  omega

/-- Every round takes an arrow or two colons. -/
theorem takeVariable_rounds {n m : Nat} {cs : List Char} (hn : cs.length ≤ n) (hm : cs.length ≤ m) :
    takeVariable n cs = takeVariable m cs := by
  have none (n : Nat) : takeVariable n [] = ([], []) := by cases n <;> rfl
  induction n generalizing m cs with
  | zero =>
      obtain rfl : cs = [] := List.length_eq_zero_iff.mp (by omega)
      rw [none, none]
  | succ n ih =>
      cases m with
      | zero =>
          obtain rfl : cs = [] := List.length_eq_zero_iff.mp (by omega)
          rw [none, none]
      | succ m =>
          have dollars := Lexer.length_dropWhile_le (· == '$') cs
          have word := Lexer.length_dropWhile_le CharClass.isNameChar (cs.dropWhile (· == '$'))
          unfold takeVariable
          dsimp only
          generalize (cs.dropWhile (· == '$')).dropWhile CharClass.isNameChar = behind at word ⊢
          split
          · rfl
          · rfl
          · simp only [List.length_cons] at word
            rw [ih (m := m) (by omega) (by omega)]
          · simp only [List.length_cons] at word
            rw [ih (m := m) (by omega) (by omega)]
          · rfl

/-- Every round takes at least one character. -/
theorem partsFrom_rounds {n m : Nat} (run : Option (List Char)) {cs : List Char} (hn : cs.length ≤ n) (hm : cs.length ≤ m) :
    partsFrom n run cs = partsFrom m run cs := by
  have none (n : Nat) (run : Option (List Char)) : partsFrom n run [] = flush run := by cases n <;> rfl
  induction n generalizing m run cs with
  | zero =>
      obtain rfl : cs = [] := List.length_eq_zero_iff.mp (by omega)
      rw [none, none]
  | succ n ih =>
      cases cs with
      | nil => rw [none, none]
      | cons c cs =>
          rw [List.length_cons] at hn hm
          obtain ⟨m, rfl⟩ : ∃ k, m = k + 1 := ⟨m - 1, by omega⟩
          have escape := length_decodeEscape cs
          have group := length_takeGroup_lt '\x7b' '\x7d' 0 c cs
          rw [partsFrom, partsFrom]
          split
          · exact ih _ (by omega) (by omega)
          · split
            · dsimp only
              rw [ih (m := m) _ (by omega) (by omega)]
            · split
              · rename_i hvariable
                obtain ⟨rfl, -⟩ := hvariable
                have := length_takeVariable_lt cs.length cs
                dsimp only
                rw [ih (m := m) _ (by omega) (by omega)]
              · exact ih _ (by omega) (by omega)

/-- The source of an expression in a string is shorter than the text the string is read from. -/
theorem length_splice_lt {text : String} {line : Nat} {t : Token} {cs : List Char}
    (ht : t ∈ (Tokens.ofSource text line).tokens) (htemplate : t.is .template = true)
    (hcs : .splice cs ∈ parts t.text.toList) : cs.length < text.length := by
  have covered := Tokens.extents_ofSource text line
  have string := Token.extent_le_of_mem ht
  have shorter := length_splice hcs
  rw [Token.extent, if_pos htemplate] at string
  rw [String.length_toList] at shorter
  omega

end StringLiteral

/-! ### Names of anonymous functions -/

namespace Gen

theorem closureName_inj {n m : Nat} (h : closureName n = closureName m) : n = m := by
  have digits := congrArg String.toList h
  simp only [closureName, String.toList_append, List.append_cancel_right_eq, List.append_cancel_left_eq] at digits
  exact Nat.repr_inj.mp (String.toList_inj.mp digits)

/-- One more name than there are functions is enough to find a free one. -/
theorem exists_free (p : Program) (n : Nat) :
    ∃ i ≤ p.functions.length, (p.function? (closureName (n + i))).isSome = false := by
  by_contra hall
  push Not at hall
  let names := (List.range (p.functions.length + 1)).map fun i => closureName (n + i)
  have distinct : names.Nodup := by
    refine List.nodup_range.map fun i j hij => ?_
    have := closureName_inj hij
    omega
  have declared : names ⊆ p.functions.map (·.name) := by
    intro name hname
    obtain ⟨i, hi, rfl⟩ := List.mem_map.mp hname
    have taken := hall i (by have := List.mem_range.mp hi; omega)
    rw [ne_eq, Bool.not_eq_false, Program.function?, List.find?_isSome] at taken
    obtain ⟨f, hf, hname⟩ := taken
    exact List.mem_map.mpr ⟨f, hf, by simpa using hname⟩
  have := (distinct.subperm declared).length_le
  simp [names] at this

theorem freeClosure_eq (p : Program) {fuel n i : Nat} (hi : i ≤ fuel)
    (htaken : ∀ j < i, (p.function? (closureName (n + j))).isSome = true)
    (hfree : (p.function? (closureName (n + i))).isSome = false) : freeClosure p fuel n = n + i := by
  induction i generalizing fuel n with
  | zero =>
      cases fuel with
      | zero => rfl
      | succ fuel =>
          rw [Nat.add_zero] at hfree
          rw [freeClosure, hfree]
          rfl
  | succ i ih =>
      obtain ⟨fuel, rfl⟩ : ∃ k, fuel = k + 1 := ⟨fuel - 1, by omega⟩
      have first : (p.function? (closureName n)).isSome = true := htaken 0 (by omega)
      have later (j : Nat) : n + 1 + j = n + (j + 1) := by omega
      rw [freeClosure, if_pos first, ih (by omega) (fun j hj => by rw [later]; exact htaken _ (by omega))
        (by rwa [later]), later]

/-- The search for a free name ends within as many names as there are functions. -/
theorem freeClosure_rounds (p : Program) {fuel : Nat} (n : Nat) (hfuel : p.functions.length ≤ fuel) :
    freeClosure p fuel n = freeClosure p p.functions.length n := by
  classical
  have found := exists_free p n
  obtain ⟨hle, hfree⟩ := Nat.find_spec found
  have taken (j : Nat) (hj : j < Nat.find found) : (p.function? (closureName (n + j))).isSome = true := by
    have := Nat.find_min found hj
    simp only [not_and, Bool.not_eq_false] at this
    exact this (by omega)
  rw [freeClosure_eq p (by omega) taken hfree, freeClosure_eq p hle taken hfree]

end Gen

/-! ### Compiling -/

/-- Compiling terminates.  A source is read as without a bound on the depth, and the bound is never felt because what
is nested covers less text.  A statement moves the cursor on; every round of every loop takes a token or is the last
one; each call of the tree builder is about fewer tokens; the source of an expression in a string is shorter than the
text the string stands in; and the scans of text and the search for a free name end within the rounds they have.  What
follows recurs on the script that was read. -/
theorem compilation_terminates :
    (∀ (config : Config) (source : String) (read : Tokens), config.tokens? source = some read →
      Script.read config.mode source.utf8ByteSize read.tokens =
        ((Parse.source unbounded config.mode).run (TokenStream.ofList read.tokens)).1) ∧
    (∀ (r : Readers) (s : TokenStream), s.Bounded → r.SameBelow unbounded s →
      (∀ atComma, (Parse.expr r atComma).run s = (unbounded.expr atComma).run s) ∧
      (Parse.scope r).run s = unbounded.scope.run s ∧
      ((r.expr false).run s = (unbounded.expr false).run s → (Parse.statement r).run s = unbounded.stmt.run s)) ∧
    (∀ s : TokenStream, s.Bounded → s.pos < s.stop →
      ∃ item pos, unbounded.stmt.run s = (item, { s with pos := pos }) ∧ s.pos < pos) ∧
    (∀ (s : TokenStream) (α : Type) (loop : Nat → Parse α) (rounds : Nat), s.Bounded → Loop unbounded s loop rounds →
      TakesOrLeaves loop s ∧ ∀ n, rounds ≤ n → (loop n).run s = (loop rounds).run s) ∧
    (∀ (call : Builder.Call) (w : Builder.Window) (pos power : Nat), w.stop ≤ w.tokens.size →
      (∀ (v : Builder.Window) (start power : Nat), v.stop ≤ v.tokens.size → v.stop - start < w.stop - pos →
        call v start power = Builder.tree v start power) →
      Builder.Level.expression call w pos power = Builder.tree w pos power) ∧
    (∀ (tokens : Array Token) (start stop : Nat), Node.build tokens start stop =
      Builder.Level.enclosed Builder.tree ⟨tokens, min stop tokens.size⟩ (min start (min stop tokens.size))) ∧
    (∀ (text : String) (line : Nat) (t : Token) (cs : List Char), t ∈ (Tokens.ofSource text line).tokens →
      t.is .template = true → .splice cs ∈ StringLiteral.parts t.text.toList → cs.length < text.length) ∧
    (∀ (n : Nat) (p : Position) (cs : List Char), cs.length ≤ n → Lexer.run n p cs = Lexer.run cs.length p cs) ∧
    (∀ (n line : Nat) (cs : List Char), cs.length < n →
      Document.splitFrom n line cs = Document.splitFrom (cs.length + 1) line cs) ∧
    (∀ (n : Nat) (run : Option (List Char)) (cs : List Char), cs.length ≤ n →
      StringLiteral.takeVariable n cs = StringLiteral.takeVariable cs.length cs ∧
      StringLiteral.partsFrom n run cs = StringLiteral.partsFrom cs.length run cs) ∧
    (∀ (p : Program) (fuel n : Nat), p.functions.length ≤ fuel →
      Gen.freeClosure p fuel n = Gen.freeClosure p p.functions.length n) := by
  refine ⟨?reading, ?nesting, ?statement, ?loops, ?windows, ?build, ?splices, ?lexemes, ?chunks, ?parts, ?names⟩
  case reading => exact fun config source read h => Script.read_unbounded h
  case nesting =>
    exact fun r s hs h =>
      ⟨TokenStream.expr_below hs h, TokenStream.scope_below hs h, TokenStream.statement_below hs h⟩
  case statement =>
    intro s hs hlt
    obtain ⟨item, -, pos, ⟨-, hpos⟩, hrun, -⟩ := Passage.reads_stmt_unbounded (W := s.passage hs) ⟨rfl, rfl⟩ hlt
    exact ⟨item, pos, hrun, hpos⟩
  case loops =>
    intro s α loop rounds hs h
    have orderly : (s.passage hs).Orderly unbounded := Passage.orderly_unbounded ⟨rfl, rfl⟩
    exact ⟨h.takesOrLeaves hs orderly, fun n hn => h.enough hs orderly hn⟩
  case windows => exact fun call w pos power hw h => Builder.level_tree hw h
  case build => exact Node.build_tree
  case splices => exact fun text line t cs ht htemplate hcs => StringLiteral.length_splice_lt ht htemplate hcs
  case lexemes => exact fun n p cs hn => Lexer.run_rounds p hn (Nat.le_refl _)
  case chunks => exact fun n line cs hn => Document.splitFrom_rounds line hn (Nat.lt_succ_self _)
  case parts =>
    exact fun n run cs hn => ⟨StringLiteral.takeVariable_rounds hn (Nat.le_refl _),
      StringLiteral.partsFrom_rounds run hn (Nat.le_refl _)⟩
  case names => exact fun p fuel n hfuel => Gen.freeClosure_rounds p n hfuel

theorem compilation_terminates_interpolated :
    Script.read .script 4 (Tokens.ofSource "\"$a\"" 1).tokens =
        ((Parse.source unbounded .script).run (TokenStream.ofList (Tokens.ofSource "\"$a\"" 1).tokens)).1 ∧
      "$a".length < "\"$a\"".length := by
  obtain ⟨reading, -, -, -, -, -, splices, -⟩ := compilation_terminates
  refine ⟨reading {} "\"$a\"" _ rfl, ?_⟩
  exact splices "\"$a\"" 1 ⟨.template, "$a", 1⟩ ['$', 'a'] (by decide) (by decide) (by decide)

end StackScript
