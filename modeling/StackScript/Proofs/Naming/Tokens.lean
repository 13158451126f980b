/-
Names are words.

A token that may be a name is scanned as a word, and a word starts with a letter, an underscore or a character
outside ASCII.  So no name in a source starts with a brace, whatever the source is and however it was cut into
chunks.
-/
import StackScript.Document
import StackScript.Proofs.LoopLevels
import StackScript.Proofs.Naming.Mentions

namespace StackScript

namespace Lexer

theorem not_name_scanNumber (cs : List Char) {kind : TokenKind} (h : (scanNumber cs).kind = some kind) :
    kind.classes.contains .name = false := by
  have decimal (cs : List Char) (h : (scanDecimal cs).kind = some kind) : kind.classes.contains .name = false := by
    cases h
    split <;> rfl
  unfold scanNumber at h
  split at h
  · split at h
    · cases h
      rfl
    · split at h
      · cases h
        rfl
      · exact decimal _ h
  · exact decimal _ h

theorem not_name_signKind (text : String) : (signKind text).classes.contains .name = false := by
  unfold signKind
  split
  · rename_i kind hlookup
    have signs : ∀ entry ∈ signTable, entry.2.classes.contains .name = false := by decide
    exact signs _ (mem_of_lookup hlookup)
  · split <;> rfl

/-- Only a word may be a name. -/
theorem scan_name {c : Char} {cs : List Char} {kind : TokenKind} (h : (scan c cs).kind = some kind)
    (hname : kind.classes.contains .name = true) :
    CharClass.isNameStart c = true ∧ ∃ ds, (scan c cs).text = c :: ds := by
  have other {k : TokenKind} (hk : some k = some kind) (hclass : k.classes.contains .name = false) : False := by
    cases hk
    rw [hname] at hclass
    cases hclass
  refine scan_cases (motive := fun s => s.kind = some kind → CharClass.isNameStart c = true ∧ ∃ ds, s.text = c :: ds)
    (fun _ h => nomatch h) (fun _ h => nomatch h)
    (fun _ h => (other ((kind_closeString ..).symm.trans h) rfl).elim)
    (fun _ h => (other ((kind_closeString ..).symm.trans h) rfl).elim)
    (fun _ h => (other rfl (not_name_scanNumber _ h)).elim) (fun hstart _ => ?word) (fun _ h => ?paren)
    (fun _ _ _ h => (other h (not_name_signKind _)).elim) h
  case word => exact ⟨hstart, cs.takeWhile CharClass.isNameChar, List.takeWhile_cons_of_pos (isNameChar_of_isNameStart hstart)⟩
  case paren =>
    unfold scanParen at h
    split at h <;> exact (other h rfl).elim

end Lexer

/-- Where a token may be a name, its text starts as one. -/
def Token.Named (t : Token) : Prop := t.is .name = true → IsName t.text

theorem Tokens.named_ofSource (source : String) (line : Nat) : ∀ t ∈ (Tokens.ofSource source line).tokens, t.Named := by
  intro t ht hname
  obtain ⟨l, hl, htoken⟩ := List.mem_filterMap.mp ht
  obtain ⟨c, rest, start, rfl⟩ := Lexer.mem_run hl
  obtain ⟨kind, hkind, rfl⟩ := Option.map_eq_some_iff.mp htoken
  obtain ⟨hstart, ds, htext⟩ := Lexer.scan_name hkind hname
  show (String.ofList (Lexer.scan c rest).text).toList.head?.any CharClass.isNameStart = true
  rw [String.toList_ofList, htext]
  exact hstart

theorem Document.named_joinChunks (chunks : List Chunk) (last : Option Nat) :
    ∀ t ∈ (joinChunks last chunks).tokens, t.Named := by
  induction chunks generalizing last with
  | nil => exact List.forall_mem_nil _
  | cons c cs ih =>
      have first : ∀ t ∈ (chunkTokens c).tokens, t.Named := by
        unfold chunkTokens
        split
        · exact Tokens.named_ofSource _ _
        · exact List.forall_mem_singleton.mpr nofun
      exact List.forall_mem_append.mpr ⟨first, List.forall_mem_cons.mpr ⟨nofun, ih _⟩⟩

/-- The names among the tokens of a source are names. -/
theorem Config.named_tokens? {config : Config} {source : String} {read : Tokens} (h : config.tokens? source = some read) :
    ∀ t ∈ read.tokens, t.Named := by
  unfold tokens? at h
  split at h
  · obtain ⟨chunks, -, rfl⟩ := Option.map_eq_some_iff.mp h
    exact Document.named_joinChunks chunks none
  · cases h
    exact Tokens.named_ofSource _ _

end StackScript
