/-
Compilations of sources that are written out.

A string that is written out is the list of its characters by definition, but taking it apart again goes through its
bytes.  What is compiled here is the list: its tokens, its length in bytes, and the outcome.  A fact about the
compilation of one source is then decided by running the compiler on the characters.

Comparing two strings goes through their bytes as well, so a word is compared with the reserved words of its own size
instead of all of them.
-/
import StackScript.Compilation
import StackScript.Proofs.Document.Slices

namespace StackScript

/-! ### Looking words up -/

/-- What is looked up is found where only entries are left out that are not like it. -/
theorem lookup_filter {β : Type} {p : String → Bool} {key : String} (h : p key = true) (table : List (String × β)) :
    (table.filter fun entry => p entry.1).lookup key = table.lookup key := by
  induction table with
  | nil => rfl
  | cons entry table ih =>
      obtain ⟨word, value⟩ := entry
      by_cases hkey : key = word
      · subst hkey
        rw [List.filter_cons, if_pos h, List.lookup_cons_self, List.lookup_cons_self]
      · have other (rest : List (String × β)) : ((word, value) :: rest).lookup key = rest.lookup key := by
          rw [List.lookup_cons, beq_false_of_ne hkey]
        rw [List.filter_cons, other]
        split
        · rw [other, ih]
        · exact ih

/-- The operators that are spelled as words. -/
def Operator.words : List (String × Operator) := [("new", new), ("clone", clone), ("is", is)]

theorem Operator.ofSymbol?_word {c : Char} (hc : CharClass.isNameStart c = true) (cs : List Char) :
    ofSymbol? (String.ofList (c :: cs)) = words.lookup (String.ofList (c :: cs)) := by
  have others : table.filter (fun entry => entry.1.toList.head?.any CharClass.isNameStart) = words := by decide +kernel
  rw [ofSymbol?, ← others, lookup_filter (p := fun word => word.toList.head?.any CharClass.isNameStart)]
  rw [String.toList_ofList]
  exact hc

/-- The reserved words of a size in bytes. -/
def Keyword.wordsOfSize : Nat → List (String × Keyword)
  | 2 => [("if", if_), ("do", do_), ("as", as_)]
  | 3 => [("int", int), ("for", for_), ("try", try_)]
  | 4 => [("auto", auto), ("void", void), ("char", char), ("bool", bool), ("else", else_), ("elif", elseif),
      ("case", case_), ("exit", exit), ("eval", eval), ("self", self), ("list", list)]
  | 5 => [("float", float), ("mixed", mixed), ("while", while_), ("break", break_), ("catch", catch_), ("throw", throw),
      ("class", class_), ("final", final_), ("const", const_), ("using", using_), ("array", array)]
  | 6 => [("string", string), ("object", object), ("elseif", elseif), ("switch", switch), ("return", return_),
      ("static", static_), ("public", public_), ("import", import_), ("parent", parent)]
  | 7 => [("foreach", foreach), ("default", default_), ("extends", extends_), ("virtual", virtual),
      ("private", private_), ("include", include_), ("require", require)]
  | 8 => [("callback", callback), ("resource", resource), ("continue", continue_), ("function", function)]
  | 9 => [("interface", interface), ("protected", protected_), ("namespace", namespace_)]
  | 10 => [("implements", implements)]
  | _ => []

theorem Keyword.filter_table (n : Nat) : table.filter (fun entry => entry.1.utf8ByteSize == n) = wordsOfSize n := by
  by_cases hn : n < 11
  · revert n
    decide +kernel
  · have short : ∀ entry ∈ table, entry.1.utf8ByteSize < 11 := by decide +kernel
    obtain ⟨m, rfl⟩ : ∃ m, n = m + 11 := ⟨n - 11, by omega⟩
    refine List.filter_eq_nil_iff.mpr fun entry hentry hsize => ?_
    have := short entry hentry
    rw [eq_of_beq hsize] at this
    omega

theorem Keyword.ofWord?_ofList (cs : List Char) :
    ofWord? (String.ofList cs) = (wordsOfSize (Document.utf8Length cs)).lookup (String.ofList cs) := by
  rw [ofWord?, Document.utf8Length_eq, ← filter_table,
    lookup_filter (p := fun word => word.utf8ByteSize == (String.ofList cs).utf8ByteSize) (beq_self_eq_true _)]

namespace Lexer

/-- The kind of a word, which is compared with few others. -/
def wordKindBySize (word : List Char) : TokenKind :=
  match Operator.words.lookup (String.ofList word) with
  | some op => .wordOperator op
  | none =>
    match (Keyword.wordsOfSize (Document.utf8Length word)).lookup (String.ofList word) with
    | some word => .keyword word
    | none => .name

theorem wordKind_ofList {c : Char} (hc : CharClass.isNameStart c = true) (cs : List Char) :
    wordKind (String.ofList (c :: cs)) = wordKindBySize (c :: cs) := by
  rw [wordKind, Operator.ofSymbol?_word hc, Keyword.ofWord?_ofList]
  rfl

/-- Scans as `scan` does. -/
def scanBySize (c : Char) (cs : List Char) : Scan :=
  if c.isDigit = false ∧ CharClass.isNameStart c = true then
    scanWhile (wordKindBySize ((c :: cs).takeWhile CharClass.isNameChar)) CharClass.isNameChar (c :: cs)
  else scan c cs

theorem scan_eq_scanBySize (c : Char) (cs : List Char) : scan c cs = scanBySize c cs := by
  unfold scanBySize
  split
  · rename_i h
    rw [scan_word h.1 h.2, scanWord, List.takeWhile_cons_of_pos (isNameChar_of_isNameStart h.2), wordKind_ofList h.2]
  · rfl

/-- Walks a text as `run` does. -/
def runBySize : Nat → Position → List Char → List Lexed
  | 0, _, _ => []
  | n + 1, p, cs =>
    match (skipBlanks cs).2 with
    | [] => []
    | c :: rest =>
      let start := p.advance (skipBlanks cs).1
      let s := scanBySize c rest
      s.toLexed start :: runBySize n (start.advance s.raw) s.rest

theorem run_eq_runBySize (n : Nat) (p : Position) (cs : List Char) : run n p cs = runBySize n p cs := by
  induction n generalizing p cs with
  | zero => rfl
  | succ n ih =>
      rw [run, runBySize]
      cases (skipBlanks cs).2 with
      | nil => rfl
      | cons c rest =>
          dsimp only
          rw [scan_eq_scanBySize, ih]

end Lexer

/-! ### Compilations -/

variable {source : String} {cs : List Char}

theorem Tokens.ofSource_ofList (h : source = String.ofList cs) (line : Nat) :
    Tokens.ofSource source line = .ofLexemes (Lexer.runBySize cs.length ⟨line, 1⟩ cs) := by
  rw [h, Tokens.ofSource, Lexer.lexemes, String.toList_ofList, Lexer.run_eq_runBySize]

namespace Config

variable {config : Config}

/-- Delivers what code generation has come to. -/
def deliver (config : Config) (state : GenState) : Outcome :=
  match config.reporter.reportAll state.reports with
  | (some abort, reporter) => ⟨reporter.seen, .error (.aborted abort)⟩
  | (none, reporter) =>
    let program := { state.program with main := state.buffer.code }
    ⟨reporter.seen, .ok ⟨program, reporter.errors, reporter.warnings, reporter.notices⟩⟩

theorem compile_eq {read : Tokens} (hread : config.tokens? source = some read) :
    config.compile source = config.deliver (config.generate source.utf8ByteSize read) := by
  unfold compile
  rw [hread]
  rfl

theorem tokens?_ofList (hembedded : config.embedded = false) (h : source = String.ofList cs) :
    config.tokens? source = some (.ofLexemes (Lexer.runBySize cs.length ⟨1, 1⟩ cs)) := by
  rw [tokens?, hembedded, Tokens.ofSource_ofList h]
  rfl

theorem compile_ofList (hembedded : config.embedded = false) (h : source = String.ofList cs) :
    config.compile source = config.deliver
      (config.generate (Document.utf8Length cs) (.ofLexemes (Lexer.runBySize cs.length ⟨1, 1⟩ cs))) := by
  rw [compile_eq (tokens?_ofList hembedded h), h, Document.utf8Length_eq]

end Config

/-- Something that is told of the compilation is told of one that succeeds. -/
theorem Outcome.ok_of_map {α : Type} {o : Outcome} {f : Compilation → α} {a : α}
    (h : o.result.toOption.map f = some a) : ∃ c, o.result = .ok c ∧ f c = a := by
  obtain ⟨c, hc, hf⟩ := Option.map_eq_some_iff.mp h
  cases hr : o.result with
  | error failure =>
      rw [hr] at hc
      cases hc
  | ok c' =>
      rw [hr] at hc
      cases hc
      exact ⟨c, rfl, hf⟩

/-- What is told of the tokens of a source and of what is compiled from them at once. -/
theorem Config.ok_of_bind {α : Type} {config : Config} {f : Tokens → Compilation → α} {a : α}
    (h : ((config.tokens? source).bind fun read =>
      (config.deliver (config.generate source.utf8ByteSize read)).result.toOption.map (f read)) = some a) :
    ∃ read c, config.tokens? source = some read ∧ (config.compile source).result = .ok c ∧ f read c = a := by
  obtain ⟨read, hread, told⟩ := Option.bind_eq_some_iff.mp h
  rw [← compile_eq hread] at told
  obtain ⟨c, hc, hf⟩ := Outcome.ok_of_map told
  exact ⟨read, c, hread, hc, hf⟩

/-- The parts of an instruction side by side.  They are compared one after the other, and the next ones only if the
ones in front of them are equal. -/
def Instruction.parts (x : Instruction) : Opcode × Int × Nat × Operand × Nat := (x.op, x.p1, x.p2, x.p3, x.line)

theorem Instruction.parts_inj {x y : Instruction} (h : x.parts = y.parts) : x = y := by
  cases x
  cases y
  cases h
  rfl

/-- Instructions are the same if their parts are. -/
theorem Instruction.eq_of_parts {xs ys : List Instruction} (h : xs.map parts = ys.map parts) : xs = ys :=
  (List.map_inj_right fun _ _ => parts_inj).mp h

theorem Code.eq_of_parts {a b : Code} (h : a.toList.map Instruction.parts = b.toList.map Instruction.parts) : a = b :=
  Array.toList_inj.mp (Instruction.eq_of_parts h)

end StackScript
