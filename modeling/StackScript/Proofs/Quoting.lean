/-
Any text can be written as a string.

A text is written between quotes with a backslash in front of what would otherwise end the string, start an escape
or start an expression.  The lexer then finds one string that ends where the writing ends, decoding gives the text
back, and an expression that is nothing but the string loads the text as a constant.
-/
import StackScript.Proofs.Constants
import StackScript.Proofs.Delivery
import StackScript.Proofs.Lexing.Rendering
import StackScript.Proofs.Printing.Building

namespace StackScript

namespace StringLiteral

/-- A text with a backslash in front of every character that is one of `marks`. -/
def escape (marks cs : List Char) : List Char := cs.flatMap fun c => if c ∈ marks then ['\\', c] else [c]

/-- What a single-quoted string escapes. -/
def simpleMarks : List Char := ['\\', '\x27']

/-- What a double-quoted string escapes. -/
def templateMarks : List Char := ['\\', '"', '$']

/-- A text between single quotes. -/
def writeSimple (s : String) : String := String.ofList ('\x27' :: escape simpleMarks s.toList ++ ['\x27'])

/-- A text between double quotes. -/
def writeTemplate (s : String) : String := String.ofList ('"' :: escape templateMarks s.toList ++ ['"'])

theorem escape_mark {marks : List Char} {c : Char} (hc : c ∈ marks) (cs : List Char) :
    escape marks (c :: cs) = '\\' :: c :: escape marks cs := by
  simp [escape, hc]

theorem escape_other {marks : List Char} {c : Char} (hc : c ∉ marks) (cs : List Char) :
    escape marks (c :: cs) = c :: escape marks cs := by
  simp [escape, hc]

/-! ### Where the string ends -/

/-- The closing quote is the first one that is not escaped. -/
theorem simpleBody_escape_append (cs rest : List Char) :
    Lexer.simpleBody (escape simpleMarks cs ++ '\x27' :: rest) = (escape simpleMarks cs, '\x27' :: rest) := by
  induction cs with
  | nil => exact Lexer.simpleBody_quote rest
  | cons c cs ih =>
      by_cases hc : c ∈ simpleMarks
      · rw [escape_mark hc, List.cons_append, List.cons_append, Lexer.simpleBody_escape, ih]
      · have hquote : c ≠ '\x27' := fun h => hc (h ▸ by decide)
        have hescape : c ≠ '\\' := fun h => hc (h ▸ by decide)
        rw [escape_other hc, List.cons_append, Lexer.simpleBody_other hquote hescape, ih]

/-- Nothing that is escaped starts with a dollar sign. -/
theorem head_escape_append (cs rest : List Char) : (escape templateMarks cs ++ '"' :: rest).head? ≠ some '$' := by
  cases cs with
  | nil => simp [escape]
  | cons c cs =>
      by_cases hc : c ∈ templateMarks
      · simp [escape_mark hc]
      · rw [escape_other hc]
        intro h
        exact hc (Option.some.inj h ▸ by decide)

/-- No group opens, and the closing quote is the first one that is not escaped. -/
theorem templateBody_escape_append (cs rest : List Char) :
    Lexer.templateBody 0 (escape templateMarks cs ++ '"' :: rest) = (escape templateMarks cs, '"' :: rest) := by
  induction cs with
  | nil => exact Lexer.templateBody_quote rest
  | cons c cs ih =>
      by_cases hc : c ∈ templateMarks
      · rw [escape_mark hc, List.cons_append, List.cons_append, Lexer.templateBody_escape, ih]
      · have hquote : c ≠ '"' := fun h => hc (h ▸ by decide)
        have hescape : c ≠ '\\' := fun h => hc (h ▸ by decide)
        have hgroup : ¬(c = '\x7b' ∧ (escape templateMarks cs ++ '"' :: rest).head? = some '$') :=
          fun h => head_escape_append cs rest h.2
        rw [escape_other hc, List.cons_append, Lexer.templateBody_other hquote hescape hgroup, ih]

/-! ### What it stands for -/

theorem unescapeSimple_escape (cs : List Char) : unescapeSimple (escape simpleMarks cs) = cs := by
  induction cs with
  | nil => rfl
  | cons c cs ih =>
      by_cases hc : c ∈ simpleMarks
      · rw [escape_mark hc, unescapeSimple.eq_def]
        simp only [simpleMarks, List.mem_cons, List.not_mem_nil, or_false] at hc
        simp [hc, ih]
      · have hescape : c ≠ '\\' := fun h => hc (h ▸ by decide)
        rw [escape_other hc, unescapeSimple.eq_def]
        simp [hescape, ih]

theorem decodeEscape_mark {c : Char} (hc : c ∈ templateMarks) (cs : List Char) : decodeEscape (c :: cs) = ([c], cs) := by
  simp only [templateMarks, List.mem_cons, List.not_mem_nil, or_false] at hc
  rcases hc with rfl | rfl | rfl <;> rfl

/-- An escaped text goes on with the run of text that has been started. -/
theorem partsFrom_escape {n : Nat} {cs : List Char} (hn : (escape templateMarks cs).length ≤ n)
    (run : Option (List Char)) :
    partsFrom n run (escape templateMarks cs) = if cs = [] then flush run else [.text (run.getD [] ++ cs)] := by
  induction cs generalizing n run with
  | nil => cases n <;> rfl
  | cons c cs ih =>
      have later {m : Nat} (hm : (escape templateMarks cs).length ≤ m) :
          partsFrom m (some (run.getD [] ++ [c])) (escape templateMarks cs) = [.text (run.getD [] ++ c :: cs)] := by
        rw [ih hm]
        split
        · rename_i hnil
          subst hnil
          rfl
        · simp
      rw [if_neg (List.cons_ne_nil c cs)]
      by_cases hc : c ∈ templateMarks
      · rw [escape_mark hc] at hn ⊢
        obtain ⟨m, rfl⟩ : ∃ m, n = m + 1 := ⟨n - 1, by simp only [List.length_cons] at hn; omega⟩
        rw [partsFrom, if_pos rfl, decodeEscape_mark hc]
        exact later (by simp only [List.length_cons] at hn; omega)
      · rw [escape_other hc] at hn ⊢
        obtain ⟨m, rfl⟩ : ∃ m, n = m + 1 := ⟨n - 1, by simp only [List.length_cons] at hn; omega⟩
        have hescape : c ≠ '\\' := fun h => hc (h ▸ by decide)
        have hdollar : c ≠ '$' := fun h => hc (h ▸ by decide)
        have hgroup : (escape templateMarks cs).head? ≠ some '$' := by
          intro h
          apply head_escape_append cs []
          rw [List.head?_append, h]
          rfl
        rw [partsFrom, if_neg hescape, if_neg fun h => hgroup h.2, if_neg fun h => hdollar h.1]
        exact later (by simp only [List.length_cons] at hn; omega)

/-- An escaped text has one part, and none when it is empty. -/
theorem parts_escape (cs : List Char) :
    parts (escape templateMarks cs) = if cs = [] then [] else [.text cs] :=
  partsFrom_escape (Nat.le_refl _) none

end StringLiteral

/-! ### A source that is one string -/

namespace Lexer

/-- A string that is scanned to the end of the source is the only token, on the first line. -/
theorem ofSource_string {kind : TokenKind} {quote : Char} (hquote : quote = '\x27' ∨ quote = '"') {text : List Char}
    (hscan : scan quote (text ++ [quote]) = closeString kind quote (text, [quote])) (line : Nat) :
    Tokens.ofSource (String.ofList (quote :: text ++ [quote])) line = ⟨[⟨kind, String.ofList text, line⟩], []⟩ := by
  have skip : skipBlanks (quote :: (text ++ [quote])) = ([], quote :: (text ++ [quote])) := by
    rcases hquote with rfl | rfl <;> simp [skipBlanks, CharClass.byteOrderMark, CharClass.isBlank]
  have walk : lexemes (String.ofList (quote :: text ++ [quote])) line =
      [⟨some ⟨kind, String.ofList text, line⟩, none⟩] := by
    rw [lexemes, String.toList_ofList, List.cons_append, List.length_cons, run, skip]
    dsimp only
    rw [hscan]
    cases text <;> rfl
  rw [Tokens.ofSource, walk]
  rfl

end Lexer

/-- One string is built into one leaf. -/
theorem Node.build_string {t : Token} {kind : LeafKind}
    (hkind : t.kind = .simpleString ∧ kind = .simpleString ∨ t.kind = .template ∧ kind = .template) :
    Node.build #[t] 0 1 = .ok (some (.leaf ⟨0, 1, t.line⟩ kind)) := by
  obtain ⟨_, text, line⟩ := t
  rcases hkind with ⟨rfl, rfl⟩ | ⟨rfl, rfl⟩ <;> with_unfolding_all rfl

/-- One token that is a leaf is the whole expression. -/
theorem Parse.run_expr_alone (r : Readers) {t : Token} {kind : LeafKind}
    (hend : (TokenStream.ofList [t]).exprEnd 0 false = 1)
    (hbuild : Node.build #[t] 0 1 = .ok (some (.leaf ⟨0, 1, t.line⟩ kind))) :
    (Parse.expr r false).run (.ofList [t]) =
      (.tree (.leaf ⟨0, 0, t.line⟩ ((Parse.leaf r kind).run ((TokenStream.ofList [t]).window 0 1)).1),
        (TokenStream.ofList [t]).setPos 1) := by
  have stop : (TokenStream.ofList [t]).exprEnd (TokenStream.ofList [t]).pos false = 1 := hend
  have built : Node.build (TokenStream.ofList [t]).tokens (TokenStream.ofList [t]).pos 1 =
    .ok (some (.leaf ⟨0, 1, t.line⟩ kind)) := hbuild
  unfold Parse.expr
  show (if (TokenStream.ofList [t]).exprEnd 0 false ≤ 0 then _ else _ : Parse Expr).run (.ofList [t]) = _
  rw [hend, if_neg (by omega), stop, built]
  rfl

namespace Script

/-- A source that is read as one expression is read by the outermost readers. -/
theorem read_expression (bytes : Nat) (tokens : List Token) :
    read .expression bytes tokens =
      ((Parse.expr (Parse.readers (2 * bytes + 3)) false >>= fun value => do
        Parse.skipSemicolons
        return .expression value (← Parse.peek) : Parse Script).run (.ofList tokens)).1 := rfl

theorem read_simpleString (bytes : Nat) (text : String) (line : Nat) :
    read .expression bytes [⟨.simpleString, text, line⟩] =
      .expression (.tree (.leaf ⟨0, 0, line⟩ (.simpleString text))) none := by
  rw [read_expression, StateT.run_bind, Parse.run_expr_alone _ rfl (Node.build_string (.inl ⟨rfl, rfl⟩))]
  rfl

theorem read_template (bytes : Nat) (text : String) (line : Nat) :
    read .expression bytes [⟨.template, text, line⟩] =
      .expression (.tree (.leaf ⟨0, 0, line⟩
        (Parse.template (Parse.readers (2 * bytes + 3)) ⟨.template, text, line⟩))) none := by
  rw [read_expression, StateT.run_bind, Parse.run_expr_alone _ rfl (Node.build_string (.inr ⟨rfl, rfl⟩))]
  rfl

end Script

namespace Parse

theorem template_escape (r : Readers) (s : String) (line : Nat) :
    template r ⟨.template, String.ofList (StringLiteral.escape StringLiteral.templateMarks s.toList), line⟩ =
      .template (.text s) [] := by
  unfold template
  rw [String.toList_ofList, StringLiteral.parts_escape]
  split
  · rename_i hparts
    split at hparts
    · rename_i hempty
      rw [String.toList_eq_nil_iff.mp hempty]
    · cases hparts
  · rename_i part parts hparts
    split at hparts
    · cases hparts
    · cases hparts
      simp [piece]

end Parse

namespace Config

variable {config : Config}

/-- A script that loads one text and returns it. -/
theorem compile_text (hmode : config.mode = .expression) (hplain : config.embedded = false) {source s : String}
    {t : Token} {content : Leaf} (htokens : Tokens.ofSource source 1 = ⟨[t], []⟩)
    (hread : ∀ bytes, Script.read .expression bytes [t] = .expression (.tree (.leaf ⟨0, 0, 1⟩ content)) none)
    (hcontent : content.gen {} = Gen.string s) :
    ∃ k pool, config.compile source =
      ⟨[], .ok ⟨{ Program.empty pool with main := #[⟨.loadc, 0, k, .none, 1⟩, ⟨.done, 1, 1, .none, 1⟩] }, 0, 0, 0⟩⟩ ∧
      pool.get? k = some (.string s) := by
  have tokens : config.tokens? source = some ⟨[t], []⟩ := by
    rw [tokens?, hplain, htokens]
    rfl
  have generated : config.generate source.utf8ByteSize ⟨[t], []⟩ =
      Gen.after (Gen.put .done 1 1 .none) (Gen.after (content.gen {}) (GenState.initial config)) := by
    unfold generate
    rw [hmode]
    dsimp only
    rw [hread]
    rfl
  rw [hcontent] at generated
  have complete := compile_complete tokens (r := config.reporter) (by rw [generated]; rfl)
  rw [generated] at complete
  refine ⟨_, _, complete, ?_⟩
  exact ConstantPool.get?_addString (ConstantPool.literal_empty _) s

/-- Any text, written between single or double quotes with a backslash in front of what the quotes give a meaning to,
compiles without a message to code that loads the text and returns it. -/
theorem strings_written (hmode : config.mode = .expression) (hplain : config.embedded = false) (s : String) :
    ∀ source ∈ [StringLiteral.writeSimple s, StringLiteral.writeTemplate s],
      ∃ k pool, config.compile source =
        ⟨[], .ok ⟨{ Program.empty pool with main := #[⟨.loadc, 0, k, .none, 1⟩, ⟨.done, 1, 1, .none, 1⟩] }, 0, 0, 0⟩⟩ ∧
        pool.get? k = some (.string s) := by
  intro source hsource
  rcases List.mem_pair.mp hsource with rfl | rfl
  · have scan := (Lexer.scan_single _).trans
      (congrArg (Lexer.closeString .simpleString '\x27') (StringLiteral.simpleBody_escape_append s.toList []))
    refine compile_text hmode hplain (Lexer.ofSource_string (.inl rfl) scan 1)
      (fun bytes => Script.read_simpleString bytes _ 1) ?_
    show Gen.simpleString _ = _
    rw [Gen.simpleString, String.toList_ofList, StringLiteral.unescapeSimple_escape, String.ofList_toList]
  · have scan := (Lexer.scan_double _).trans
      (congrArg (Lexer.closeString .template '"') (StringLiteral.templateBody_escape_append s.toList []))
    refine compile_text hmode hplain (Lexer.ofSource_string (.inr rfl) scan 1)
      (fun bytes => (Script.read_template bytes _ 1).trans (by rw [Parse.template_escape])) ?_
    rfl

theorem strings_written_marks :
    (∃ k pool, ({ mode := .expression } : Config).compile (StringLiteral.writeSimple "a\\\x27\"$b\x7b$") =
      ⟨[], .ok ⟨{ Program.empty pool with main := #[⟨.loadc, 0, k, .none, 1⟩, ⟨.done, 1, 1, .none, 1⟩] }, 0, 0, 0⟩⟩ ∧
      pool.get? k = some (.string "a\\\x27\"$b\x7b$")) ∧
    ∃ k pool, ({ mode := .expression } : Config).compile (StringLiteral.writeTemplate "a\\\x27\"$b\x7b$") =
      ⟨[], .ok ⟨{ Program.empty pool with main := #[⟨.loadc, 0, k, .none, 1⟩, ⟨.done, 1, 1, .none, 1⟩] }, 0, 0, 0⟩⟩ ∧
      pool.get? k = some (.string "a\\\x27\"$b\x7b$") :=
  ⟨strings_written rfl rfl "a\\\x27\"$b\x7b$" _ List.mem_cons_self,
    strings_written rfl rfl "a\\\x27\"$b\x7b$" _ (List.mem_cons_of_mem _ List.mem_cons_self)⟩

end Config

end StackScript
