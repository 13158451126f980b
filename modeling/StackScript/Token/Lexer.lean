/-
From text to tokens.

Scanning is textual: `scan` looks at what stands in front and says which characters it covers, what they
are and what is left, and nothing in it depends on where in the source it happens.  `run` walks a text
with it and adds the positions.  A problem never stops the walk: it is noted beside the token.
-/
import StackScript.Number.Literal
import StackScript.Span
import StackScript.Token

namespace StackScript

/-- What can be wrong with a lexeme. -/
inductive LexFault where
  | unexpectedChar (c : Char)
  | unterminatedString
  | unterminatedComment
  | missingHexDigits
  | missingBinaryDigits
deriving DecidableEq

namespace LexFault

def message : LexFault → String
  | unexpectedChar c => "unexpected character '" ++ String.singleton c ++ "'"
  | unterminatedString => "unterminated string literal"
  | unterminatedComment => "unterminated block comment"
  | missingHexDigits => "invalid number literal: missing hexadecimal digits"
  | missingBinaryDigits => "invalid number literal: missing binary digits"

/-- How many bytes from the start of the lexeme are marked. -/
def width : LexFault → Nat
  | unterminatedComment => 2
  | _ => 1

end LexFault

/-- A problem of a lexeme, at the place where the lexeme starts. -/
structure LexError where
  fault : LexFault
  span : Span
deriving DecidableEq

namespace Lexer

/-- What a scan found in front of a text: the characters it covers, the rest, the kind and text of the
token (a comment has no kind), and what is wrong with it. -/
structure Scan where
  raw : List Char
  rest : List Char
  kind : Option TokenKind
  text : List Char
  fault : Option LexFault := none

/-- The longest run of characters with a property, as a token. -/
def scanWhile (kind : TokenKind) (p : Char → Bool) (cs : List Char) : Scan :=
  { raw := cs.takeWhile p, rest := cs.dropWhile p, kind := some kind, text := cs.takeWhile p }

/-! ### Blanks and comments -/

/-- The blanks in front of a text and the rest.  One byte order mark may come first. -/
def skipBlanks : List Char → List Char × List Char
  | [] => ([], [])
  | c :: cs =>
    if c = CharClass.byteOrderMark then
      (c :: cs.takeWhile CharClass.isBlank, cs.dropWhile CharClass.isBlank)
    else ((c :: cs).takeWhile CharClass.isBlank, (c :: cs).dropWhile CharClass.isBlank)

/-- A comment up to the end of its line. -/
def scanLineComment (cs : List Char) : Scan :=
  { raw := cs.takeWhile (· != '\n'), rest := cs.dropWhile (· != '\n'), kind := none, text := [] }

/-- A block comment from behind its opening: what it covers, the rest, and whether it is closed. -/
def commentBody : List Char → List Char × List Char × Bool
  | [] => ([], [], false)
  | c :: cs =>
    match c, cs with
    | '*', '/' :: rest => (['*', '/'], rest, true)
    | _, _ => (c :: (commentBody cs).1, (commentBody cs).2)

/-- A block comment, from behind its opening. -/
def scanBlockComment (cs : List Char) : Scan :=
  let body := commentBody cs
  { raw := '/' :: '*' :: body.1, rest := body.2.1, kind := none, text := []
    fault := if body.2.2 then none else some .unterminatedComment }

/-! ### Strings -/

/-- The inside of a single-quoted string and the rest, which starts with the closing quote unless it is
missing.  A backslash keeps the character behind it from closing the string. -/
def simpleBody : List Char → List Char × List Char
  | [] => ([], [])
  | c :: cs =>
    if c = '\x27' then ([], c :: cs)
    else if c = '\\' then
      match cs with
      | [] => ([c], [])
      | d :: ds => (c :: d :: (simpleBody ds).1, (simpleBody ds).2)
    else (c :: (simpleBody cs).1, (simpleBody cs).2)

/-- The inside of a double-quoted string and the rest.  A group that opens with a brace and a dollar
sign is taken whole, up to the brace that closes it, whatever it contains; `depth` counts the open
braces of the group. -/
def templateBody : Nat → List Char → List Char × List Char
  | _, [] => ([], [])
  | 0, c :: cs =>
    if c = '"' then ([], c :: cs)
    else if c = '\\' then
      match cs with
      | [] => ([c], [])
      | d :: ds => (c :: d :: (templateBody 0 ds).1, (templateBody 0 ds).2)
    else if c = '\x7b' ∧ cs.head? = some '$' then
      (c :: (templateBody 1 cs).1, (templateBody 1 cs).2)
    else (c :: (templateBody 0 cs).1, (templateBody 0 cs).2)
  | n + 1, c :: cs =>
    let depth := if c = '\x7b' then n + 2 else if c = '\x7d' then n else n + 1
    (c :: (templateBody depth cs).1, (templateBody depth cs).2)

/-- A string between `quote` characters, given its inside and what follows it. -/
def closeString (kind : TokenKind) (quote : Char) (body : List Char × List Char) : Scan :=
  match body.2 with
  | [] => { raw := quote :: body.1, rest := [], kind := some kind, text := body.1
            fault := some .unterminatedString }
  | _ :: rest => { raw := quote :: body.1 ++ [quote], rest := rest, kind := some kind, text := body.1 }

/-! ### Numbers -/

/-- A number in a marked radix: the zero and the mark, then its digits. -/
def scanMarked (mark : Char) (isDigit : Char → Bool) (fault : LexFault) (cs : List Char) : Scan :=
  let digits := cs.takeWhile isDigit
  { raw := '0' :: mark :: digits, rest := cs.dropWhile isDigit, kind := some .integer
    text := '0' :: mark :: digits, fault := if digits.isEmpty then some fault else none }

/-- The fraction in front of a text: a point with at least one digit behind it. -/
def takeFraction : List Char → List Char × List Char
  | '.' :: d :: ds =>
    if d.isDigit then ('.' :: d :: ds.takeWhile Char.isDigit, ds.dropWhile Char.isDigit)
    else ([], '.' :: d :: ds)
  | cs => ([], cs)

/-- The exponent in front of a text: a mark, an optional sign and at least one digit. -/
def takeExponent : List Char → List Char × List Char
  | e :: cs =>
    if e = 'e' ∨ e = 'E' then
      match cs with
      | d :: ds =>
        if d.isDigit then (e :: d :: ds.takeWhile Char.isDigit, ds.dropWhile Char.isDigit)
        else if (d = '+' ∨ d = '-') ∧ ds.head?.any Char.isDigit then
          (e :: d :: ds.takeWhile Char.isDigit, ds.dropWhile Char.isDigit)
        else ([], e :: d :: ds)
      | [] => ([], e :: cs)
    else ([], e :: cs)
  | [] => ([], [])

/-- A decimal number: an integer, or a real when it has a fraction or an exponent. -/
def scanDecimal (cs : List Char) : Scan :=
  let whole := cs.takeWhile Char.isDigit
  let fraction := takeFraction (cs.dropWhile Char.isDigit)
  let exponent := takeExponent fraction.2
  let text := whole ++ fraction.1 ++ exponent.1
  { raw := text, rest := exponent.2, text := text
    kind := some (if fraction.1.isEmpty && exponent.1.isEmpty then .integer else .real) }

/-- A number. -/
def scanNumber : List Char → Scan
  | '0' :: m :: cs =>
    if m = 'x' ∨ m = 'X' then scanMarked m CharClass.isHexDigit .missingHexDigits cs
    else if m = 'b' ∨ m = 'B' then
      scanMarked m (fun c => c == '0' || c == '1') .missingBinaryDigits cs
    else scanDecimal ('0' :: m :: cs)
  | cs => scanDecimal cs

/-! ### Words -/

/-- The kind of a word. -/
def wordKind (text : String) : TokenKind :=
  match Operator.ofSymbol? text with
  | some op => .wordOperator op
  | none =>
    match Keyword.ofWord? text with
    | some word => .keyword word
    | none => .name

/-- A word: a name, a reserved word or an operator spelled as a word. -/
def scanWord (cs : List Char) : Scan :=
  let text := cs.takeWhile CharClass.isNameChar
  scanWhile (wordKind (String.ofList text)) CharClass.isNameChar cs

/-! ### Signs -/

/-- Drops blanks and tabs at both ends. -/
def trimBlanks (cs : List Char) : List Char :=
  let isGap := fun c : Char => c == ' ' || c == '\t'
  ((cs.dropWhile isGap).reverse.dropWhile isGap).reverse

/-- The cast whose opening parenthesis has just been read: its type, and the characters up to and with
the closing parenthesis. -/
def castBody? (cs : List Char) : Option (CastType × List Char) :=
  let inner := cs.takeWhile (· != ')')
  if inner.length < cs.length then
    (CastType.ofWord? (String.ofList (trimBlanks inner))).map fun type => (type, inner ++ [')'])
  else none

/-- An opening parenthesis, or the cast it opens. -/
def scanParen (cs : List Char) : Scan :=
  match castBody? cs with
  | some (type, body) =>
    { raw := '(' :: body, rest := cs.drop body.length, kind := some (.operator (.cast type))
      text := type.spelling.toList }
  | none => { raw := ['('], rest := cs, kind := some .openParen, text := ['('] }

/-- What may follow a sign within one token, the first that fits taken. -/
def signTails : Char → List (List Char)
  | ':' => [[':']]
  | '=' => [['='], ['>']]
  | '&' => [['&'], ['=']]
  | '!' => [['=']]
  | '|' => [['|'], ['=']]
  | '+' => [['+'], ['=']]
  | '-' => [['-'], ['>'], ['=']]
  | '*' => [['=']]
  | '/' => [['=']]
  | '%' => [['=']]
  | '^' => [['^'], ['=']]
  | '<' => [['<', '='], ['<'], ['='], ['>']]
  | '>' => [['>', '='], ['>'], ['=']]
  | '?' => [['?']]
  | _ => []

/-- The signs that have a role of their own beside or instead of an operator's. -/
def signTable : List (String × TokenKind) :=
  [("$", .dollar), ("\x7b", .openBrace), ("\x7d", .closeBrace), (")", .closeParen),
    ("[", .openBracket), ("]", .closeBracket), ("\\", .namespaceMark), (";", .semicolon),
    (",", .comma), (":", .colon), ("=", .equals), ("=>", .doubleArrow), ("&", .ampersand)]

/-- The kind of a sign. -/
def signKind (text : String) : TokenKind :=
  match signTable.lookup text with
  | some kind => kind
  | none =>
    match Operator.ofSymbol? text with
    | some op => .operator op
    | none => .other

/-- A sign: the longest operator or punctuation, or a character that is neither. -/
def scanSign (c : Char) (cs : List Char) : Scan :=
  let tail := ((signTails c).find? fun t => t.isPrefixOf cs).getD []
  let text := c :: tail
  { raw := text, rest := cs.drop tail.length, kind := some (signKind (String.ofList text))
    text := text, fault := if CharClass.isControl c then some (.unexpectedChar c) else none }

/-! ### The walk -/

/-- Scans what stands in front of a text that is not empty and does not start with a blank. -/
def scan (c : Char) (cs : List Char) : Scan :=
  if c = '#' then scanLineComment (c :: cs)
  else if c = '/' ∧ cs.head? = some '/' then scanLineComment (c :: cs)
  else if c = '/' ∧ cs.head? = some '*' then scanBlockComment (cs.drop 1)
  else if c = '\x27' then closeString .simpleString c (simpleBody cs)
  else if c = '"' then closeString .template c (templateBody 0 cs)
  else if c.isDigit then scanNumber (c :: cs)
  else if CharClass.isNameStart c then scanWord (c :: cs)
  else if c = '(' then scanParen cs
  else scanSign c cs

/-- One lexeme of a source: its token, unless it is a comment, and what is wrong with it. -/
structure Lexed where
  token : Option Token
  error : Option LexError

/-- A scan at a position. -/
def Scan.toLexed (s : Scan) (p : Position) : Lexed :=
  { token := s.kind.map fun kind => ⟨kind, String.ofList s.text, p.line⟩
    error := s.fault.map fun fault => ⟨fault, p.span fault.width⟩ }

/-- Walks a text.  Each round takes at least one character, so the length of the text bounds their
number. -/
def run : Nat → Position → List Char → List Lexed
  | 0, _, _ => []
  | n + 1, p, cs =>
    match (skipBlanks cs).2 with
    | [] => []
    | c :: rest =>
      let start := p.advance (skipBlanks cs).1
      let s := scan c rest
      s.toLexed start :: run n (start.advance s.raw) s.rest

/-- The lexemes of a text whose first line has number `line`. -/
def lexemes (source : String) (line : Nat) : List Lexed :=
  run source.toList.length ⟨line, 1⟩ source.toList

/-- The answer to one request for the next token: the token, or `none` at the end, and the problems met
on the way. -/
structure Step where
  token : Option Token
  errors : List LexError

/-- The answers to repeated requests, up to the first one at the end. -/
def stepsFrom (pending : List LexError) : List Lexed → List Step
  | [] => [⟨none, pending⟩]
  | l :: ls =>
    match l.token with
    | some token => ⟨some token, pending ++ l.error.toList⟩ :: stepsFrom [] ls
    | none => stepsFrom (pending ++ l.error.toList) ls

def steps (source : String) : List Step := stepsFrom [] (lexemes source 1)

end Lexer

/-- The tokens of a text and the problems met on the way. -/
structure Tokens where
  tokens : List Token
  errors : List LexError

namespace Tokens

def ofLexemes (ls : List Lexer.Lexed) : Tokens :=
  ⟨ls.filterMap Lexer.Lexed.token, ls.filterMap Lexer.Lexed.error⟩

/-- Reads a text whose first line has number `line`. -/
def ofSource (source : String) (line : Nat) : Tokens := ofLexemes (Lexer.lexemes source line)

end Tokens

end StackScript
