/-
Reading the leaves of an expression tree, each in the window of its own tokens.
-/
import StackScript.Parser.Function
import StackScript.Text.StringLiteral

namespace StackScript

namespace Parse

/-! ### Strings -/

/-- A piece of a double-quoted string.  The source of an expression is read as tokens of its own, all on
the line of the string from there on; it starts with a dollar sign, so it is never empty. -/
def piece (r : Readers) (line : Nat) : StringLiteral.Part → Piece
  | .text cs => .text (String.ofList cs)
  | .splice cs =>
    let read := Tokens.ofSource (String.ofList cs) line
    match ((r.expr false).run (TokenStream.ofList read.tokens)).1 with
    | .tree root => .value read.errors root
    | .rejected error => .rejected read.errors error
    | .missing => .rejected read.errors ⟨line, .missingExpression⟩

/-- A double-quoted string.  The empty one is an empty text. -/
def template (r : Readers) (t : Token) : Leaf :=
  match StringLiteral.parts t.text.toList with
  | [] => .template (.text "") []
  | part :: parts => .template (piece r t.line part) (parts.map (piece r t.line))

/-! ### Variables and names -/

/-- A variable: dollar signs, then a name or an expression in braces that ends with the window. -/
def variableLeaf (r : Readers) : Parse Leaf := do
  let here ← line
  let before ← pos
  modify (·.skipWhile (·.is .dollar))
  let extra := (← pos) - before - 1
  match ← peek with
  | none => return .blankVariable here here
  | some t =>
    if t.isAny [.name, .keyword] then return .variable t.line t.text extra
    else if t.is .openBrace then
      let s ← get
      if s.stop - 1 ≤ s.pos + 1 then return .blankVariable here t.line
      else
        let (name, stray) ← within (s.pos + 1) (s.stop - 1) (filling r)
        return .computedVariable here t.line name stray extra
    else return .blankVariable here t.line

/-- A name; of a path only the last name counts. -/
def nameLeaf : Parse Leaf := do
  let s ← get
  let path := if 1 < s.remaining then some s.line else none
  match s.get? (s.stop - 1) with
  | some t => return .name path t
  | none => return .unread s.line

/-! ### Collections -/

/-- The range between the delimiters of the collection that fills the window. -/
def collectionBody : Parse (Nat × Nat) := do
  let s ← get
  let opener := if s.checkKeyword .array || s.checkKeyword .list then 2 else 1
  return (min (s.pos + opener) (s.stop - 1), s.stop - 1)

/-- The arrow of an array entry, outside brackets. -/
def entryArrow (start stop : Nat) : Parse (Option Nat) := do
  return Scan.findAtDepth (← get).tokens (Scan.depthChange Scan.openers Scan.closers)
    (fun t depth => t.is .doubleArrow && depth == 0) (stop - start) start 0

/-- The key or value of an array entry in `[start, stop)`. -/
def item (r : Readers) (start stop : Nat) : Parse (Expr × ItemMark) := do
  if ((← get).get? start).any (·.is .ampersand) then
    return (← within (start + 1) stop (r.expr false), ⟨true, none⟩)
  else
    let (value, stray) ← within start stop (filling r)
    return (value, ⟨false, stray⟩)

/-- The array entry in `[start, stop)`, or its line when it has no value. -/
def entry (r : Readers) (start stop : Nat) : Parse (Except Nat Entry) := do
  let s ← get
  let line := (s.get? start).elim s.line Token.line
  match ← entryArrow start stop with
  | none =>
    let (value, mark) ← item r start stop
    return .ok (.plain line value mark)
  | some arrow =>
    if stop ≤ arrow + 1 then return .error line
    else
      let (value, mark) ← item r (arrow + 1) stop
      if arrow = start then return .ok (.unkeyed line value mark)
      else
        let (key, keyMark) ← item r start arrow
        return .ok (.keyed line key keyMark value mark)

/-- The entries of an array, up to one that has no value. -/
def entries (r : Readers) : List (Nat × Nat) → Parse (List Entry × Option Nat)
  | [] => return ([], none)
  | (start, stop) :: rest => do
    match ← entry r start stop with
    | .error line => return ([], some line)
    | .ok e =>
      let (es, incomplete) ← entries r rest
      return (e :: es, incomplete)

/-- The pieces of the collection between its commas, empty ones left out. -/
def collectionPieces : Parse (List (Nat × Nat)) := do
  let (start, stop) ← collectionBody
  return (Scan.splitCommas (← get).tokens start stop).filter fun (i, j) => i < j

/-- An array. -/
def array (r : Readers) : Parse Leaf := do
  let (es, incomplete) ← entries r (← collectionPieces)
  return .array es incomplete

/-- A list of targets. -/
def list (r : Readers) : Parse Leaf := do
  return .list (← (← collectionPieces).mapM fun (start, stop) => within start stop (r.expr false))

/-! ### All leaves -/

/-- A construct: its word and the expression behind it. -/
def construct (r : Readers) : Parse Leaf := do
  match ← bump with
  | none => return .unread (← line)
  | some t => return .construct t.text (← r.expr false)

/-- A leaf of one token. -/
def tokenLeaf (f : Token → Leaf) : Parse Leaf := do
  match ← peek with
  | some t => return f t
  | none => return .unread (← line)

/-- The leaf of a kind that fills the window. -/
def leaf (r : Readers) : LeafKind → Parse Leaf
  | .number => tokenLeaf Leaf.number
  | .simpleString => tokenLeaf fun t => .simpleString t.text
  | .template => tokenLeaf (template r)
  | .variable => variableLeaf r
  | .name => nameLeaf
  | .array => array r
  | .list => list r
  | .closure => closure r
  | .construct _ => construct r

/-- The expression at the cursor. -/
def expr (r : Readers) (atComma : Bool) : Parse Expr := do
  let s ← get
  let stop := s.exprEnd s.pos atComma
  if stop ≤ s.pos then return .missing
  else
    setPos stop
    match Node.build s.tokens s.pos stop with
    | .error error => return .rejected error
    | .ok none => return .missing
    | .ok (some root) =>
      return .tree <| root.mapLeaves fun place kind =>
        ((leaf r kind).run (s.window place.start place.stop)).1

end Parse

end StackScript
