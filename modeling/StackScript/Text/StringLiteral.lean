/-
The inside of string literals.

A single-quoted string knows two escapes.  A double-quoted one is cut into runs of text, with their
escapes decoded, and the expressions between them: a group in braces that starts with a dollar sign, or
a variable with what directly follows it.
-/
import StackScript.Number.Literal

namespace StackScript

namespace StringLiteral

/-- The text of a single-quoted string: a backslash before a backslash or a quote is dropped. -/
def unescapeSimple : List Char → List Char
  | [] => []
  | c :: cs =>
    if c = '\\' then
      match cs with
      | [] => [c]
      | d :: ds =>
        if d = '\\' ∨ d = '\x27' then d :: unescapeSimple ds else c :: unescapeSimple (d :: ds)
    else c :: unescapeSimple cs

/-! ### Escapes of double-quoted strings -/

/-- The characters that one letter or sign behind a backslash stands for. -/
def escapeTable : List (Char × Char) :=
  [('$', '$'), ('\\', '\\'), ('\x27', '\x27'), ('"', '"'), ('0', '\x00'), ('a', '\x07'),
    ('b', '\x08'), ('f', '\x0c'), ('n', '\n'), ('r', '\r'), ('t', '\t'), ('v', '\x0b')]

/-- Up to `n` digits in front of a text. -/
def takeDigits (n : Nat) (isDigit : Char → Bool) (cs : List Char) : List Char :=
  (cs.take n).takeWhile isDigit

/-- Decodes the escape whose backslash has just been read: the characters it stands for, and the rest.
Up to two hexadecimal digits follow `x` and up to three octal digits follow `o`; octal zero stands for
nothing.  Before any other character the backslash is dropped. -/
def decodeEscape : List Char → List Char × List Char
  | [] => ([], [])
  | c :: cs =>
    match escapeTable.lookup c with
    | some d => ([d], cs)
    | none =>
      let hex := takeDigits 2 CharClass.isHexDigit cs
      let octal := takeDigits 3 CharClass.isOctalDigit cs
      if c = 'x' ∧ hex ≠ [] then ([Char.ofNat (digitsValue 16 hex)], cs.drop hex.length)
      else if c = 'o' ∧ octal ≠ [] then
        let value := digitsValue 8 octal
        (if value = 0 then [] else [Char.ofNat value], cs.drop octal.length)
      else ([c], cs)

/-! ### Interpolation -/

/-- Whether a dollar sign followed by the character starts an expression. -/
def startsVariable (c : Char) : Bool := CharClass.isNameStart c || c == '\x7b'

/-- A bracket group from its opening bracket on, to the end of the text when it is not closed; `depth`
counts the open brackets. -/
def takeGroup (left right : Char) : Nat → List Char → List Char × List Char
  | _, [] => ([], [])
  | depth, c :: cs =>
    if c = right ∧ depth ≤ 1 then ([c], cs)
    else
      let depth := if c = left then depth + 1 else if c = right then depth - 1 else depth
      let rest := takeGroup left right depth cs
      (c :: rest.1, rest.2)

/-- A variable and what directly follows it: members, and one bracket or brace group at the end. -/
def takeVariable : Nat → List Char → List Char × List Char
  | 0, cs => ([], cs)
  | n + 1, cs =>
    let dollars := cs.takeWhile (· == '$')
    let behind := cs.dropWhile (· == '$')
    let word := dollars ++ behind.takeWhile CharClass.isNameChar
    match behind.dropWhile CharClass.isNameChar with
    | '[' :: ds =>
      let group := takeGroup '[' ']' 0 ('[' :: ds)
      (word ++ group.1, group.2)
    | '\x7b' :: ds =>
      let group := takeGroup '\x7b' '\x7d' 0 ('\x7b' :: ds)
      (word ++ group.1, group.2)
    | '-' :: '>' :: ds =>
      let rest := takeVariable n ds
      (word ++ '-' :: '>' :: rest.1, rest.2)
    | ':' :: ':' :: ds =>
      let rest := takeVariable n ds
      (word ++ ':' :: ':' :: rest.1, rest.2)
    | rest => (word, rest)

/-- The text between the braces of a group. -/
def groupInside (group : List Char) : List Char :=
  let inside := group.drop 1
  if inside.getLast? = some '\x7d' then inside.dropLast else inside

/-- A part of a double-quoted string. -/
inductive Part where
  | text (cs : List Char)
  /-- The source of an expression. -/
  | splice (cs : List Char)
deriving DecidableEq

/-- The run of text before a part, if one has been started. -/
def flush : Option (List Char) → List Part
  | none => []
  | some run => [.text run]

/-- The parts of a double-quoted string, given the run of text started so far.  Each round takes at
least one character. -/
def partsFrom : Nat → Option (List Char) → List Char → List Part
  | 0, run, _ => flush run
  | _ + 1, run, [] => flush run
  | n + 1, run, c :: cs =>
    if c = '\\' then
      let escape := decodeEscape cs
      partsFrom n (some (run.getD [] ++ escape.1)) escape.2
    else if c = '\x7b' ∧ cs.head? = some '$' then
      let group := takeGroup '\x7b' '\x7d' 0 (c :: cs)
      flush run ++ .splice (groupInside group.1) :: partsFrom n none group.2
    else if c = '$' ∧ cs.head?.any startsVariable then
      let var := takeVariable (cs.length + 1) (c :: cs)
      flush run ++ .splice var.1 :: partsFrom n none var.2
    else partsFrom n (some (run.getD [] ++ [c])) cs

/-- The parts of a double-quoted string. -/
def parts (cs : List Char) : List Part := partsFrom cs.length none cs

end StringLiteral

end StackScript
