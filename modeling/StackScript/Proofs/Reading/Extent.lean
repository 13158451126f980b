/-
How much text a token covers.

Every token covers at least one character and a double-quoted string its text as well.  The tokens of a source
therefore never cover more characters than the source has, and the expressions inside a string fewer than the
string itself.
-/
import Mathlib
import StackScript.Compilation
import StackScript.Proofs.Lexing.Partition

namespace StackScript

/-- The number of characters a token covers at least: a double-quoted string its text and the quote in front. -/
def Token.extent (t : Token) : Nat := if t.is .template then t.text.length + 1 else 1

/-- The number of characters that tokens cover at least. -/
def Token.extents (ts : List Token) : Nat := (ts.map Token.extent).sum

namespace Token

theorem is_template (t : Token) : t.is .template = true ↔ t.kind = .template := by
  obtain ⟨kind, text, line⟩ := t
  cases kind <;> simp [is, TokenKind.classes]

theorem extent_pos (t : Token) : 0 < t.extent := by
  unfold extent
  split <;> omega

@[simp] theorem extents_nil : extents [] = 0 := rfl

@[simp] theorem extents_append (ts ts' : List Token) : extents (ts ++ ts') = extents ts + extents ts' := by
  simp [extents]

@[simp] theorem extents_cons (t : Token) (ts : List Token) : extents (t :: ts) = t.extent + extents ts := rfl

theorem extents_sublist {ts ts' : List Token} (h : ts.Sublist ts') : extents ts ≤ extents ts' := by
  induction h with
  | slnil => exact Nat.le_refl _
  | cons t _ ih => rw [extents_cons]; omega
  | cons_cons t _ ih => rw [extents_cons, extents_cons]; omega

theorem extent_le_of_mem {t : Token} {ts : List Token} (h : t ∈ ts) : t.extent ≤ extents ts := by
  have := extents_sublist (List.singleton_sublist.mpr h)
  simpa using this

end Token

/-! ### The tokens of a source -/

namespace Lexer

theorem length_takeWhile_dropWhile (p : Char → Bool) (cs : List Char) :
    (cs.takeWhile p).length + (cs.dropWhile p).length = cs.length := by
  rw [← List.length_append, List.takeWhile_append_dropWhile]

theorem length_dropWhile_le (p : Char → Bool) (cs : List Char) : (cs.dropWhile p).length ≤ cs.length := by
  have := length_takeWhile_dropWhile p cs
  omega

theorem length_skipBlanks (cs : List Char) : (skipBlanks cs).2.length ≤ cs.length := by
  rw [← congrArg List.length (skipBlanks_split cs), List.length_append]
  exact Nat.le_add_left _ _

/-- What is left behind a scan, and the text of a string in front of it. -/
theorem length_scan (c : Char) (cs : List Char) : (scan c cs).rest.length ≤ cs.length ∧
    ((scan c cs).kind = some .template → (scan c cs).text.length + (scan c cs).rest.length ≤ cs.length) := by
  obtain ⟨hwhole, hfilled⟩ := splits_scan c cs
  have whole := congrArg List.length hwhole
  have filled := List.length_pos_iff.mpr hfilled
  rw [List.length_append, List.length_cons] at whole
  refine ⟨by omega, fun hkind => ?_⟩
  rcases spelled_scan c cs .template 0 hkind with hspells | ⟨quote, -, hraw, -⟩
  · generalize (scan c cs).raw = raw at whole hspells
    cases hspells with
    | plain hquote => cases hquote
    | string =>
        simp only [List.length_append, List.length_cons, String.toList_ofList] at whole
        omega
    | cast hcast => cases hcast
  · rw [hraw, List.length_cons] at whole
    omega

theorem extents_run (n : Nat) (p : Position) (cs : List Char) :
    Token.extents ((run n p cs).filterMap Lexed.token) ≤ cs.length := by
  induction n generalizing p cs with
  | zero => exact Nat.zero_le _
  | succ n ih =>
      have blanks := length_skipBlanks cs
      unfold run
      split
      · exact Nat.zero_le _
      · rename_i c rest hskip
        rw [hskip, List.length_cons] at blanks
        obtain ⟨left, covered⟩ := length_scan c rest
        have rest' := ih ((p.advance (skipBlanks cs).1).advance (scan c rest).raw) (scan c rest).rest
        dsimp only
        rw [List.filterMap_cons]
        cases hkind : (scan c rest).kind with
        | none =>
            simp only [Scan.toLexed, hkind, Option.map_none]
            omega
        | some kind =>
            simp only [Scan.toLexed, hkind, Option.map_some, Token.extents_cons]
            by_cases htemplate : kind = .template
            · have := covered (htemplate ▸ hkind)
              simp only [Token.extent, htemplate, String.length_ofList]
              split <;> omega
            · rw [Token.extent, if_neg fun h => htemplate ((Token.is_template _).mp h)]
              omega

end Lexer

/-- The tokens of a source cover no more characters than the source has. -/
theorem Tokens.extents_ofSource (source : String) (line : Nat) :
    Token.extents (Tokens.ofSource source line).tokens ≤ source.length := by
  have := Lexer.extents_run source.toList.length ⟨line, 1⟩ source.toList
  rwa [String.length_toList] at this

/-! ### The tokens of a document -/

namespace Document

theorem length_takeRaw (cs : List Char) :
    (takeRaw cs).1.length + (takeRaw cs).2.elim 0 (fun rest => rest.length + 2) = cs.length := by
  induction cs using takeRaw.induct with
  | case1 => rfl
  | case2 => simp [takeRaw]
  | case3 c cs hopened ih =>
      have step : takeRaw (c :: cs) = (c :: (takeRaw cs).1, (takeRaw cs).2) := by
        rw [takeRaw]
        exact hopened
      rw [step]
      simp only [List.length_cons]
      omega

theorem length_takeIsland (w : Within) (cs : List Char) :
    (takeIsland w cs).1.length + (takeIsland w cs).2.elim 0 (fun rest => rest.length + 2) ≤ cs.length := by
  induction cs generalizing w with
  | nil => simp [takeIsland]
  | cons c cs ih =>
      rw [takeIsland]
      split
      · rename_i hclosed
        have : 0 < cs.length := by
          cases cs with
          | nil => simp at hclosed
          | cons d ds => simp
        simp only [List.length_nil, List.length_cons, Option.elim, List.length_drop]
        omega
      · have := ih (w.next c cs.head?)
        simp only [List.length_cons]
        omega

theorem length_dropTagName {cs rest : List Char} (h : dropTagName cs = some rest) : rest.length ≤ cs.length := by
  unfold dropTagName at h
  split at h
  · cases h
    exact Nat.le_refl _
  · obtain ⟨n, -, rfl⟩ := Option.map_eq_some_iff.mp h
    split
    · simp
    · exact Nat.le_refl _

theorem length_trimEnd (cs : List Char) : (trimEnd cs).length ≤ cs.length := by
  have := Lexer.length_dropWhile_le CharClass.isSpace cs.reverse
  simpa [trimEnd] using this

theorem extents_joinChunks_append (last : Option Nat) (cs cs' : List Chunk) : ∃ last',
    (joinChunks last (cs ++ cs')).tokens = (joinChunks last cs).tokens ++ (joinChunks last' cs').tokens := by
  induction cs generalizing last with
  | nil => exact ⟨last, rfl⟩
  | cons c cs ih =>
      obtain ⟨last', hlast⟩ := ih (some (((((chunkTokens c).tokens.getLast?.map Token.line).or last)).getD c.line))
      refine ⟨last', ?_⟩
      rw [List.cons_append, joinChunks, joinChunks]
      simp only [hlast, List.append_assoc, List.cons_append]

/-- A chunk covers no more than its text, apart from the semicolon behind it. -/
theorem extents_chunk (last : Option Nat) (isCode : Bool) (text : List Char) (line : Nat) :
    Token.extents (joinChunks last (chunk isCode text line)).tokens ≤ text.length + 1 := by
  unfold chunk
  split
  · exact Nat.zero_le _
  · rename_i hfilled
    have hpos : 0 < text.length := by simpa [List.length_pos_iff] using hfilled
    have semicolon (line : Nat) : Token.extent ⟨.semicolon, ";", line⟩ = 1 := rfl
    have raw (text : String) (line : Nat) : Token.extent ⟨.raw, text, line⟩ = 1 := rfl
    rw [joinChunks, joinChunks]
    simp only [Token.extents_append, Token.extents_cons, Token.extents_nil, semicolon]
    cases isCode with
    | true =>
        have covered := Tokens.extents_ofSource (String.ofList text) line
        rw [String.length_ofList] at covered
        simp only [chunkTokens, if_true]
        omega
    | false => simp [chunkTokens, raw]; omega

theorem extents_splitFrom {n line : Nat} {cs : List Char} {chunks : List Chunk} (h : splitFrom n line cs = some chunks)
    (last : Option Nat) : Token.extents (joinChunks last chunks).tokens ≤ cs.length + 1 := by
  induction n generalizing line cs chunks last with
  | zero =>
      cases h
      exact Nat.zero_le _
  | succ n ih =>
      have rawLength := length_takeRaw cs
      rw [splitFrom] at h
      dsimp only at h
      generalize (takeRaw cs).1 = raw at rawLength h
      generalize (takeRaw cs).2 = opened at rawLength h
      cases opened with
      | none =>
          cases h
          have := extents_chunk last false raw line
          simp only [Option.elim] at rawLength
          omega
      | some behind =>
          simp only [Option.elim] at rawLength
          cases htag : dropTagName behind with
          | none => simp [htag] at h
          | some inside =>
              have tag := length_dropTagName htag
              have gap := Lexer.length_dropWhile_le CharClass.isBlank inside
              have island := length_takeIsland .code (inside.dropWhile CharClass.isBlank)
              simp only [htag] at h
              generalize takeIsland .code (inside.dropWhile CharClass.isBlank) = split at island h
              obtain ⟨code, closed⟩ := split
              dsimp only at island h
              have trimmed := length_trimEnd code
              have rawChunk := extents_chunk last false raw line
              generalize line + raw.count '\n' + (inside.takeWhile CharClass.isBlank).count '\n' = codeLine at h
              obtain ⟨last', hlast⟩ := extents_joinChunks_append last (chunk false raw line)
                (chunk true (trimEnd code) codeLine)
              have codeChunk := extents_chunk last' true (trimEnd code) codeLine
              have both : Token.extents (joinChunks last
                  (chunk false raw line ++ chunk true (trimEnd code) codeLine)).tokens ≤ raw.length + code.length + 2 := by
                rw [hlast, Token.extents_append]
                omega
              cases closed with
              | none =>
                  cases h
                  simp only [Option.elim] at island
                  omega
              | some rest =>
                  obtain ⟨more, hmore, rfl⟩ := Option.map_eq_some_iff.mp h
                  obtain ⟨last'', hlast'⟩ := extents_joinChunks_append last
                    (chunk false raw line ++ chunk true (trimEnd code) codeLine) more
                  have := ih hmore last''
                  simp only [Option.elim] at island
                  rw [hlast', Token.extents_append]
                  omega

end Document

/-- Every character takes at least one byte. -/
theorem length_le_utf8ByteSize (source : String) : source.length ≤ source.utf8ByteSize := by
  have all (cs : List Char) : cs.length ≤ (String.ofList cs).utf8ByteSize := by
    induction cs with
    | nil => exact Nat.zero_le _
    | cons c cs ih =>
        have filled := c.utf8Size_pos
        have single : (String.ofList [c]).utf8ByteSize = c.utf8Size := by simp
        rw [← List.singleton_append, String.ofList_append, String.utf8ByteSize_append, List.singleton_append,
          List.length_cons]
        omega
  have := all source.toList
  rwa [String.ofList_toList, String.length_toList] at this

/-- A source has room for its tokens, up to the semicolon behind the text of a document. -/
theorem Config.extents_tokens? {config : Config} {source : String} {read : Tokens}
    (h : config.tokens? source = some read) : Token.extents read.tokens ≤ source.utf8ByteSize + 1 := by
  have bytes : source.length ≤ source.utf8ByteSize := length_le_utf8ByteSize source
  unfold tokens? at h
  split at h
  · obtain ⟨chunks, hchunks, rfl⟩ := Option.map_eq_some_iff.mp h
    have := Document.extents_splitFrom hchunks none
    rw [String.length_toList] at this
    omega
  · cases h
    have := Tokens.extents_ofSource source 1
    omega

/-! ### The expressions in a string -/

namespace StringLiteral

theorem length_takeGroup (left right : Char) (depth : Nat) (cs : List Char) :
    (takeGroup left right depth cs).1.length + (takeGroup left right depth cs).2.length = cs.length := by
  induction cs generalizing depth with
  | nil => simp [takeGroup]
  | cons c cs ih =>
      rw [takeGroup]
      split
      · simp only [List.length_cons, List.length_nil]
        omega
      · have := ih (if c = left then depth + 1 else if c = right then depth - 1 else depth)
        simp only [List.length_cons]
        omega

theorem length_takeVariable (n : Nat) (cs : List Char) :
    (takeVariable n cs).1.length + (takeVariable n cs).2.length = cs.length := by
  induction n generalizing cs with
  | zero => simp [takeVariable]
  | succ n ih =>
      have dollars := Lexer.length_takeWhile_dropWhile (· == '$') cs
      have name := Lexer.length_takeWhile_dropWhile CharClass.isNameChar (cs.dropWhile (· == '$'))
      unfold takeVariable
      dsimp only
      generalize hbehind : (cs.dropWhile (· == '$')).dropWhile CharClass.isNameChar = behind at name ⊢
      split
      · rename_i ds
        have := length_takeGroup '[' ']' 0 ('[' :: ds)
        simp only [List.length_append] at this ⊢
        omega
      · rename_i ds
        have := length_takeGroup '\x7b' '\x7d' 0 ('\x7b' :: ds)
        simp only [List.length_append] at this ⊢
        omega
      · rename_i ds
        have := ih ds
        simp only [List.length_append, List.length_cons] at name ⊢
        omega
      · rename_i ds
        have := ih ds
        simp only [List.length_append, List.length_cons] at name ⊢
        omega
      · simp only [List.length_append]
        omega

theorem length_groupInside (group : List Char) : (groupInside group).length ≤ group.length := by
  unfold groupInside
  dsimp only
  split <;> simp only [List.length_dropLast, List.length_drop] <;> omega

theorem length_decodeEscape (cs : List Char) : (decodeEscape cs).2.length ≤ cs.length := by
  unfold decodeEscape
  split
  · exact Nat.le_refl _
  · rename_i c cs
    split
    · exact Nat.le_succ _
    · dsimp only
      split
      · simp only [List.length_drop, List.length_cons]
        omega
      · split
        · simp only [List.length_drop, List.length_cons]
          omega
        · exact Nat.le_succ _

theorem not_splice_flush (run : Option (List Char)) (cs : List Char) : .splice cs ∉ flush run := by
  cases run <;> simp [flush]

/-- The source of an expression in a string is no longer than the string. -/
theorem length_splice {n : Nat} {run : Option (List Char)} {text cs : List Char} (h : .splice cs ∈ partsFrom n run text) :
    cs.length ≤ text.length := by
  induction n generalizing run text with
  | zero => exact absurd h (not_splice_flush run cs)
  | succ n ih =>
      cases text with
      | nil => exact absurd h (not_splice_flush run cs)
      | cons c rest =>
          rw [partsFrom] at h
          split at h
          · have := length_decodeEscape rest
            have := ih h
            simp only [List.length_cons]
            omega
          · split at h
            · have group := length_takeGroup '\x7b' '\x7d' 0 (c :: rest)
              have inside := length_groupInside (takeGroup '\x7b' '\x7d' 0 (c :: rest)).1
              rcases List.mem_append.mp h with h | h
              · exact absurd h (not_splice_flush run cs)
              · rcases List.mem_cons.mp h with h | h
                · cases h
                  omega
                · have := ih h
                  omega
            · split at h
              · have variableLength := length_takeVariable (rest.length + 1) (c :: rest)
                rcases List.mem_append.mp h with h | h
                · exact absurd h (not_splice_flush run cs)
                · rcases List.mem_cons.mp h with h | h
                  · cases h
                    omega
                  · have := ih h
                    omega
              · have := ih h
                simp only [List.length_cons]
                omega

end StringLiteral

end StackScript
