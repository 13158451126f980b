/-
A cursor over a token buffer, and the scans that carve it into pieces.

A stream looks at the window `[pos, stop)` of its buffer.  Reading a piece of a script narrows the
window and puts it back afterwards; the buffer itself never changes.  The scans find the token that
closes a group, the end of an expression and the commas that separate a list.
-/
import StackScript.Token

namespace StackScript

/-! ### Scans of a buffer -/

namespace Scan

/-- The brackets of all three kinds. -/
def openers : List TokenClass := [.openBrace, .openBracket, .openParen]

def closers : List TokenClass := [.closeBrace, .closeBracket, .closeParen]

/-- How a token changes the number of open groups. -/
def depthChange (openers closers : List TokenClass) (t : Token) : Int :=
  if t.isAny openers then 1 else if t.isAny closers then -1 else 0

/-- The first index at or behind `i`, among the next `n`, whose token satisfies `p` at the depth the
tokens since the start have reached. -/
def findAtDepth (tokens : Array Token) (change : Token → Int) (p : Token → Int → Bool) :
    (n i : Nat) → (depth : Int) → Option Nat
  | 0, _, _ => none
  | n + 1, i, depth =>
    match tokens[i]? with
    | none => none
    | some t => if p t depth then some i else findAtDepth tokens change p n (i + 1) (depth + change t)

/-- The index in `[start, stop)` of the token that closes the group opened just before `start`. -/
def matching? (tokens : Array Token) (openKind closeKind : List TokenClass) (start stop : Nat) :
    Option Nat :=
  findAtDepth tokens (depthChange openKind closeKind)
    (fun t depth => !t.isAny openKind && t.isAny closeKind && depth ≤ 1) (stop - start) start 1

/-- The first semicolon in `[start, stop)` outside braces. -/
def semicolon? (tokens : Array Token) (start stop : Nat) : Option Nat :=
  findAtDepth tokens (depthChange [.openBrace] [.closeBrace])
    (fun t depth => t.is .semicolon && depth ≤ 0) (stop - start) start 0

/-- The first comma in `[start, stop)` outside brackets of any kind. -/
def comma? (tokens : Array Token) (start stop : Nat) : Option Nat :=
  findAtDepth tokens (depthChange openers closers)
    (fun t depth => t.is .comma && depth ≤ 0) (stop - start) start 0

/-- The indices in `[i, i + n)` of the commas outside brackets. -/
def commas (tokens : Array Token) : (n i : Nat) → (depth : Int) → List Nat
  | 0, _, _ => []
  | n + 1, i, depth =>
    match tokens[i]? with
    | none => []
    | some t =>
      let rest := commas tokens n (i + 1) (depth + depthChange openers closers t)
      if t.is .comma && depth ≤ 0 then i :: rest else rest

/-- The pieces of `[start, stop)` between the given separators. -/
def pieces (start stop : Nat) : List Nat → List (Nat × Nat)
  | [] => [(start, stop)]
  | i :: is => (start, i) :: pieces (i + 1) stop is

/-- The pieces of `[start, stop)` between its commas outside brackets.  An empty range has none; empty
pieces between commas are kept. -/
def splitCommas (tokens : Array Token) (start stop : Nat) : List (Nat × Nat) :=
  if stop ≤ start then [] else pieces start stop (commas tokens (stop - start) start 0)

end Scan

/-- A buffer of tokens with a window on it. -/
structure TokenStream where
  tokens : Array Token
  pos : Nat
  stop : Nat

namespace TokenStream

/-- The whole of a token list. -/
def ofList (ts : List Token) : TokenStream := ⟨ts.toArray, 0, ts.length⟩

def atEnd (s : TokenStream) : Bool := s.stop ≤ s.pos

/-- How many tokens of the window are left. -/
def remaining (s : TokenStream) : Nat := s.stop - s.pos

/-- Any token of the buffer. -/
def get? (s : TokenStream) (i : Nat) : Option Token := s.tokens[i]?

/-- The token `n` places ahead, inside the window. -/
def peekNth (s : TokenStream) (n : Nat) : Option Token :=
  if s.pos + n < s.stop then s.tokens[s.pos + n]? else none

/-- The current token. -/
def peek (s : TokenStream) : Option Token := s.peekNth 0

/-- Whether the current token belongs to any of the classes. -/
def check (s : TokenStream) (cs : List TokenClass) : Bool := s.peek.any (·.isAny cs)

/-- Whether the current token is the reserved word. -/
def checkKeyword (s : TokenStream) (word : Keyword) : Bool := s.peek.any (·.isKeyword word)

/-- The line of the current token; at the end, of the token before it, or of the last one. -/
def line (s : TokenStream) : Nat :=
  let before := if s.pos = 0 then none else s.tokens[s.pos - 1]?
  ((s.peek.or before).or s.tokens.back?).elim 1 Token.line

/-- Moves the cursor, at most to the end of the buffer. -/
def setPos (s : TokenStream) (pos : Nat) : TokenStream := { s with pos := min pos s.tokens.size }

/-- Moves the end of the window, at most to the end of the buffer. -/
def setStop (s : TokenStream) (stop : Nat) : TokenStream := { s with stop := min stop s.tokens.size }

/-- The window `[start, stop)`. -/
def window (s : TokenStream) (start stop : Nat) : TokenStream := (s.setStop stop).setPos start

/-- Steps over the current token, if there is one. -/
def advance (s : TokenStream) : TokenStream := if s.pos < s.stop then { s with pos := s.pos + 1 } else s

/-- Takes the current token. -/
def bump (s : TokenStream) : Option Token × TokenStream :=
  match s.peek with
  | some t => (some t, { s with pos := s.pos + 1 })
  | none => (none, s)

/-- Steps over the current token if it belongs to any of the classes. -/
def eat (s : TokenStream) (cs : List TokenClass) : Bool × TokenStream :=
  if s.check cs then (true, { s with pos := s.pos + 1 }) else (false, s)

/-- Steps over the current token if it is the reserved word. -/
def eatKeyword (s : TokenStream) (word : Keyword) : Bool × TokenStream :=
  if s.checkKeyword word then (true, { s with pos := s.pos + 1 }) else (false, s)

/-- Moves to the end of the window. -/
def skipToEnd (s : TokenStream) : TokenStream := { s with pos := max s.stop s.pos }

/-- The number of tokens from the cursor on, at most `n`, that satisfy `p`. -/
def runLength (s : TokenStream) (p : Token → Bool) : Nat → Nat → Nat
  | 0, _ => 0
  | n + 1, k =>
    match s.peekNth k with
    | some t => if p t then s.runLength p n (k + 1) + 1 else 0
    | none => 0

/-- Steps over tokens as long as they satisfy `p`. -/
def skipWhile (s : TokenStream) (p : Token → Bool) : TokenStream :=
  { s with pos := s.pos + s.runLength p s.remaining 0 }

/-- Steps up to the first token of any of the classes. -/
def skipUntil (s : TokenStream) (cs : List TokenClass) : TokenStream :=
  s.skipWhile fun t => !t.isAny cs

/-- The token that closes the group opened just before `start`, or the end of the window. -/
def delimit (s : TokenStream) (start : Nat) (openKind closeKind : List TokenClass) : Nat :=
  (Scan.matching? s.tokens openKind closeKind start s.stop).getD s.stop

/-- The first token at or behind `start` of any of the classes, or the end of the window. -/
def find (s : TokenStream) (start : Nat) (cs : List TokenClass) : Nat :=
  (Scan.findAtDepth s.tokens (fun _ => 0) (fun t _ => t.isAny cs) (s.stop - start) start 0).getD s.stop

/-- The end of the expression that starts at `start`: the first semicolon outside braces, or with
`atComma` an earlier comma outside brackets.  Without either it is the end of the window, or `start`
itself when that lies behind the window. -/
def exprEnd (s : TokenStream) (start : Nat) (atComma : Bool) : Nat :=
  let stop := (Scan.semicolon? s.tokens start s.stop).getD (max start s.stop)
  if atComma then (Scan.comma? s.tokens start stop).getD stop else stop

variable {s : TokenStream} {t : Token}

theorem peek_inside {tokens : Array Token} {i stop : Nat} (hi : i < stop) (ht : tokens[i]? = some t) :
    (⟨tokens, i, stop⟩ : TokenStream).peek = some t := (if_pos hi).trans ht

theorem advance_inside (tokens : Array Token) {i stop : Nat} (hi : i < stop) :
    (⟨tokens, i, stop⟩ : TokenStream).advance = ⟨tokens, i + 1, stop⟩ := if_pos hi

theorem line_of_peek (h : s.peek = some t) : s.line = t.line := by
  rw [line, h]
  rfl

theorem check_of_peek (h : s.peek = some t) (cs : List TokenClass) : s.check cs = t.isAny cs := by
  rw [check, h, Option.any_some]

end TokenStream

end StackScript
