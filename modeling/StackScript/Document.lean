/-
Documents: markup with islands of code.

An island opens with `<?`, optionally followed by `aer` in any case, and closes with `?>`; a closing tag
inside a comment does not count.  Text outside the islands is kept as it is.  Every chunk becomes tokens
followed by a semicolon, so a statement left open at the end of an island cannot swallow what follows.

The letters of the tag are looked for in the three bytes behind `<?`.  A document in which those three
bytes end inside a character has no reading.
-/
import StackScript.Token.Lexer

namespace StackScript

/-- A piece of a document with the line it starts on. -/
structure Chunk where
  isCode : Bool
  text : String
  line : Nat
deriving DecidableEq

namespace Document

/-- Splits off text up to the first opening tag; the second part starts behind the tag and is `none`
when there is no tag. -/
def takeRaw : List Char → List Char × Option (List Char)
  | [] => ([], none)
  | c :: cs =>
    match c, cs with
    | '<', '?' :: rest => ([], some rest)
    | _, _ => (c :: (takeRaw cs).1, (takeRaw cs).2)

/-- The number of characters that fill exactly `bytes` bytes, or all of a shorter text; `none` when a
character straddles the end. -/
def charsOfBytes : Nat → List Char → Option Nat
  | 0, _ => some 0
  | _, [] => some 0
  | bytes, c :: cs =>
    if c.utf8Size ≤ bytes then (charsOfBytes (bytes - c.utf8Size) cs).map (· + 1) else none

def utf8Length (cs : List Char) : Nat := cs.foldr (fun c n => c.utf8Size + n) 0

/-- Behind `<?`: drops the letters of the tag, if they are there.  `none` when at least three bytes
follow and the third one is inside a character. -/
def dropTagName (cs : List Char) : Option (List Char) :=
  if utf8Length cs < 3 then some cs
  else
    (charsOfBytes 3 cs).map fun n =>
      if (cs.take n).map Char.toLower = ['a', 'e', 'r'] then cs.drop n else cs

/-- Where in an island the walk is. -/
inductive Within where
  | code | lineComment | commentOpening | blockComment | commentClosing
deriving DecidableEq

/-- Where the walk is behind a character, given the character that follows it. -/
def Within.next : Within → Char → Option Char → Within
  | code, c, d =>
    if c = '#' ∨ (c = '/' ∧ d = some '/') then lineComment
    else if c = '/' ∧ d = some '*' then commentOpening
    else code
  | lineComment, c, _ => if c = '\n' then code else lineComment
  | commentOpening, _, _ => blockComment
  | blockComment, c, d => if c = '*' ∧ d = some '/' then commentClosing else blockComment
  | commentClosing, _, _ => code

/-- Splits off an island up to its closing tag; the second part starts behind the tag and is `none` when
the island runs to the end. -/
def takeIsland : Within → List Char → List Char × Option (List Char)
  | _, [] => ([], none)
  | w, c :: cs =>
    if w = .code ∧ c = '?' ∧ cs.head? = some '>' then ([], some (cs.drop 1))
    else
      let rest := takeIsland (w.next c cs.head?) cs
      (c :: rest.1, rest.2)

/-- Drops the Unicode white space at the end. -/
def trimEnd (cs : List Char) : List Char := (cs.reverse.dropWhile CharClass.isSpace).reverse

/-- A chunk, unless its text is empty. -/
def chunk (isCode : Bool) (text : List Char) (line : Nat) : List Chunk :=
  if text.isEmpty then [] else [⟨isCode, String.ofList text, line⟩]

/-- Splits a document from line `line` on.  Each round takes an opening tag, so the length of the
document bounds their number. -/
def splitFrom : Nat → Nat → List Char → Option (List Chunk)
  | 0, _, _ => some []
  | n + 1, line, cs =>
    let (raw, opened) := takeRaw cs
    match opened with
    | none => some (chunk false raw line)
    | some behind =>
      match dropTagName behind with
      | none => none
      | some inside =>
        let gap := inside.takeWhile CharClass.isBlank
        let codeLine := line + raw.count '\n' + gap.count '\n'
        let (code, closed) := takeIsland .code (inside.dropWhile CharClass.isBlank)
        let chunks := chunk false raw line ++ chunk true (trimEnd code) codeLine
        match closed with
        | none => some chunks
        | some rest => (splitFrom n (codeLine + code.count '\n') rest).map (chunks ++ ·)

/-- The chunks of a document, empty ones left out. -/
def split (source : String) : Option (List Chunk) :=
  splitFrom (source.toList.length + 1) 1 source.toList

/-- The tokens of one chunk: raw text is one token, code is read. -/
def chunkTokens (c : Chunk) : Tokens :=
  if c.isCode then Tokens.ofSource c.text c.line else ⟨[⟨.raw, c.text, c.line⟩], []⟩

/-- The tokens of the chunks in order, given the line of the last token so far.  A semicolon follows
each chunk, on the line of the token before it. -/
def joinChunks (last : Option Nat) : List Chunk → Tokens
  | [] => ⟨[], []⟩
  | c :: cs =>
    let here := chunkTokens c
    let line := ((here.tokens.getLast?.map Token.line).or last).getD c.line
    let rest := joinChunks (some line) cs
    ⟨here.tokens ++ ⟨.semicolon, ";", line⟩ :: rest.tokens, here.errors ++ rest.errors⟩

/-- The tokens of a document. -/
def tokens (source : String) : Option Tokens := (split source).map (joinChunks none)

end Document

end StackScript
