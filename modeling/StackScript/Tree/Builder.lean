/-
Building expression trees by precedence climbing.

`expression` reads a first operand and then, as long as the next operator binds at least as tightly as
asked for, joins it with what stands on its other side.  Groups, arguments and subscripts are windows of
their own that have to be read to their last token.  The extent of a leaf is found here; what is inside
it is not looked at.

Every call works with less fuel.  A call uses it up only by taking tokens, so a few units for each token
of the window are enough.
-/
import StackScript.TokenStream
import StackScript.Tree

namespace StackScript

/-- Why tokens do not form an expression. -/
inductive TreeFault where
  | unexpectedToken (text : String)
  | unexpectedKeyword (text : String)
  | missingOperand (text : String)
  | missingExpression
  | missingMember
  | missingColon
  | missingArgument
  | emptyGroup
  | unclosedParen
  | unclosedBracket
  | unclosedBrace
  | invalidVariable
  | collectionWithoutParen (text : String)
  | unclosedCollection (text : String)
  | closureWithoutSignature
  | unclosedSignature
  | unclosedCaptures
  | closureWithoutBody
  | unclosedBody
deriving DecidableEq

namespace TreeFault

def message : TreeFault → String
  | unexpectedToken text => "Syntax error: Unexpected token '" ++ text ++ "'"
  | unexpectedKeyword text => "Syntax error: Unexpected keyword '" ++ text ++ "'"
  | missingOperand text => "Syntax error: Missing operand after '" ++ text ++ "'"
  | missingExpression => "Syntax error: Missing expression"
  | missingMember => "Syntax error: Missing member name"
  | missingColon => "Syntax error: Missing ':' in ternary expression"
  | missingArgument => "Syntax error: Missing function argument"
  | emptyGroup => "Syntax error: Empty expression '()'"
  | unclosedParen => "Syntax error: Missing closing parenthesis ')'"
  | unclosedBracket => "Syntax error: Missing closing square bracket ']'"
  | unclosedBrace => "Syntax error: Missing closing braces '\x7d'"
  | invalidVariable => "Invalid variable name"
  | collectionWithoutParen text => "Syntax error: Missing '(' after '" ++ text ++ "'"
  | unclosedCollection text => text ++ "(): Missing closing parenthesis ')'"
  | closureWithoutSignature => "Closure: Missing '(' after 'function' keyword"
  | unclosedSignature => "Closure: Missing ')' after signature"
  | unclosedCaptures => "Closure: Missing ')' after 'using' list"
  | closureWithoutBody => "Closure: Missing body '\x7b'"
  | unclosedBody => "Closure: Missing closing braces '\x7d'"

end TreeFault

/-- A fault and the line it is reported on. -/
structure TreeError where
  line : Nat
  fault : TreeFault
deriving DecidableEq

namespace Builder

/-- What was built, and the position behind it. -/
abbrev Built := Except TreeError (Node × Nat)

/-- The window `[_, stop)` of a buffer in which a tree is built. -/
structure Window where
  tokens : Array Token
  stop : Nat

namespace Window

/-- The token at an index inside the window. -/
def at? (w : Window) (i : Nat) : Option Token := if i < w.stop then w.tokens[i]? else none

/-- Whether the token at an index belongs to any of the classes. -/
def isAt (w : Window) (i : Nat) (cs : List TokenClass) : Bool := (w.at? i).any (·.isAny cs)

/-- Whether the token at an index is the reserved word. -/
def isKeywordAt (w : Window) (i : Nat) (word : Keyword) : Bool := (w.at? i).any (·.isKeyword word)

/-- The line of the token at an index, or of the one before it. -/
def lineAt (w : Window) (i : Nat) : Nat :=
  ((w.at? i).or (if i = 0 then none else w.tokens[i - 1]?)).elim 1 Token.line

/-- The token that closes the group opened just before `start`. -/
def closing (w : Window) (start : Nat) (openKind closeKind : TokenClass) (error : TreeError) :
    Except TreeError Nat :=
  match Scan.matching? w.tokens [openKind] [closeKind] start w.stop with
  | some i => .ok i
  | none => .error error

/-- The number of tokens from an index on, at most `n`, that satisfy `p`. -/
def runLength (w : Window) (p : Token → Bool) : Nat → Nat → Nat
  | 0, _ => 0
  | n + 1, i => if (w.at? i).any p then w.runLength p n (i + 1) + 1 else 0

/-- The number of further path segments from an index on: a namespace mark and a name each. -/
def segments (w : Window) : Nat → Nat → Nat
  | 0, _ => 0
  | n + 1, i =>
    if w.isAt i [.namespaceMark] && w.isAt (i + 1) [.name] then w.segments n (i + 2) + 1 else 0

end Window

/-- The leaf that covers `[start, stop)`. -/
def leaf (kind : LeafKind) (start stop line : Nat) : Built := .ok (.leaf ⟨start, stop, line⟩ kind, stop)

/-! ### Leaves that span several tokens -/

/-- A variable: dollar signs, then a name or an expression in braces. -/
def variableLeaf (w : Window) (start line : Nat) : Built := do
  let i := start + w.runLength (·.is .dollar) (w.stop - start) start
  if w.isAt i [.name, .keyword] then leaf .variable start (i + 1) line
  else if w.isAt i [.openBrace] then
    let close ← w.closing (i + 1) .openBrace .closeBrace ⟨line, .unclosedBrace⟩
    leaf .variable start (close + 1) line
  else .error ⟨line, .invalidVariable⟩

/-- A name or a path of names. -/
def nameLeaf (w : Window) (start line : Nat) : Built :=
  let i := if w.isAt start [.namespaceMark] then start + 1 else start
  let i := if w.isAt i [.name] then i + 1 else i
  leaf .name start (i + 2 * w.segments (w.stop - i) i) line

/-- A name, or the token is out of place. -/
def nameOrError (w : Window) (pos : Nat) (t : Token) : Built :=
  if t.isAny [.name, .namespaceMark] then nameLeaf w pos t.line
  else .error ⟨t.line, .unexpectedToken t.text⟩

/-- An array in square brackets. -/
def bracketed (w : Window) (start line : Nat) : Built := do
  let close ← w.closing (start + 1) .openBracket .closeBracket ⟨line, .unclosedBracket⟩
  leaf .array start (close + 1) line

/-- An array or a list after its word. -/
def collection (w : Window) (kind : LeafKind) (start : Nat) (t : Token) : Built := do
  if w.isAt (start + 1) [.openParen] then
    let close ← w.closing (start + 2) .openParen .closeParen ⟨t.line, .unclosedCollection t.text⟩
    leaf kind start (close + 1) t.line
  else .error ⟨t.line, .collectionWithoutParen t.text⟩

/-- An anonymous function: signature, optional captures and body. -/
def closure (w : Window) (start line : Nat) : Built := do
  let i := start + w.runLength (fun t => !t.isKeyword .function) (w.stop - start) start + 1
  let i := if w.isAt i [.name] then i + 1 else i
  if !w.isAt i [.openParen] then .error ⟨line, .closureWithoutSignature⟩
  else
    let close ← w.closing (i + 1) .openParen .closeParen ⟨line, .unclosedSignature⟩
    let i := close + 1
    let i ←
      if w.isKeywordAt i .using_ then
        if w.isAt (i + 1) [.openParen] then
          (· + 1) <$> w.closing (i + 2) .openParen .closeParen ⟨line, .unclosedCaptures⟩
        else .ok (i + 1)
      else .ok i
    if !w.isAt i [.openBrace] then .error ⟨line, .closureWithoutBody⟩
    else
      let close ← w.closing (i + 1) .openBrace .closeBrace ⟨line, .unclosedBody⟩
      leaf .closure start (close + 1) line

/-- Whether a function follows the type word at `start`, which may be an array type. -/
def startsTypedClosure (w : Window) (start : Nat) : Bool :=
  let suffix := w.isAt (start + 1) [.openBracket] && w.isAt (start + 2) [.closeBracket]
  w.isKeywordAt (if suffix then start + 3 else start + 1) .function

/-- What a reserved word starts. -/
def keyword (w : Window) (word : Keyword) (start : Nat) (t : Token) : Built :=
  match word with
  | .array => collection w .array start t
  | .list => collection w .list start t
  | .function => closure w start t.line
  | .self | .parent | .static_ => leaf .name start (start + 1) t.line
  | _ =>
    if word.isType then
      if startsTypedClosure w start then closure w start t.line
      else .error ⟨t.line, .unexpectedKeyword t.text⟩
    else if word.isConstruct then
      -- The operand of a construct runs to the next comma outside brackets.
      let stop := (Scan.comma? w.tokens (start + 1) w.stop).getD w.stop
      leaf (.construct word) start (max stop (start + 1)) t.line
    else .error ⟨t.line, .unexpectedKeyword t.text⟩

/-! ### Operators -/

mutual

/-- An expression whose operators bind at least as tightly as `power`. -/
def expression : Nat → Window → (pos power : Nat) → Built
  | 0, w, pos, _ => .error ⟨w.lineAt pos, .missingExpression⟩
  | n + 1, w, pos, power => do
    let (first, pos) ← operand n w pos
    operators n w first pos power

/-- The operand of the operator token `t`. -/
def operandOf : Nat → Window → (t : Token) → (pos power : Nat) → Built
  | 0, w, _, pos, _ => .error ⟨w.lineAt pos, .missingExpression⟩
  | n + 1, w, t, pos, power =>
    if (w.at? pos).isNone then .error ⟨t.line, .missingOperand t.text⟩ else expression n w pos power

/-- All of `[start, stop)` as one expression; `none` when it is empty. -/
def enclosed : Nat → Window → (start : Nat) → Except TreeError (Option Node)
  | 0, w, start => .error ⟨w.lineAt start, .missingExpression⟩
  | n + 1, w, start =>
    if w.stop ≤ start then .ok none
    else do
      let (tree, pos) ← expression n w start 0
      match w.at? pos with
      | some t => .error ⟨t.line, .unexpectedToken t.text⟩
      | none => .ok (some tree)

/-- The arguments of a call, one in each piece. -/
def arguments : Nat → Array Token → (line : Nat) → List (Nat × Nat) → Except TreeError (List Node)
  | 0, _, line, _ => .error ⟨line, .missingExpression⟩
  | _ + 1, _, _, [] => .ok []
  | n + 1, tokens, line, (start, stop) :: rest => do
    match ← enclosed n ⟨tokens, stop⟩ start with
    | some arg => return arg :: (← arguments n tokens line rest)
    | none => .error ⟨line, .missingArgument⟩

/-- Joins `left` with the operators behind it that bind at least as tightly as `power`. -/
def operators : Nat → Window → (left : Node) → (pos power : Nat) → Built
  | 0, w, _, pos, _ => .error ⟨w.lineAt pos, .missingExpression⟩
  | n + 1, w, left, pos, power =>
    match w.at? pos with
    | none => .ok (left, pos)
    | some t =>
      match if t.is .openParen then some .call else t.op? with
      | none => .ok (left, pos)
      | some op =>
        match op.infixPower? with
        | none => .ok (left, pos)
        | some (leftPower, rightPower) =>
          if leftPower < power then .ok (left, pos)
          else do
            let (joined, pos) ← join n w op t left pos rightPower
            operators n w joined pos power

/-- Joins `left` with the operator token `t` at `pos` and what stands behind it. -/
def join : Nat → Window → (op : Operator) → (t : Token) → (left : Node) → (pos power : Nat) → Built
  | 0, w, _, _, _, pos, _ => .error ⟨w.lineAt pos, .missingExpression⟩
  | n + 1, w, op, t, left, pos, power =>
    let start := left.place.start
    match op with
    | .call => do
      let close ← w.closing (pos + 1) .openParen .closeParen ⟨t.line, .unclosedParen⟩
      let args ← arguments n w.tokens t.line (Scan.splitCommas w.tokens (pos + 1) close)
      return (.call ⟨start, close + 1, t.line⟩ left args, close + 1)
    | .subscript => do
      let close ← w.closing (pos + 1) .openBracket .closeBracket ⟨t.line, .unclosedBracket⟩
      let place : Place := ⟨start, close + 1, t.line⟩
      match ← enclosed n ⟨w.tokens, close⟩ (pos + 1) with
      | some key => return (.index place left key, close + 1)
      | none => return (.append place left, close + 1)
    | .incr | .decr => .ok (.postfixed ⟨start, pos + 1, t.line⟩ op left, pos + 1)
    | .ternary => do
      let (yes, pos) ← operandOf n w t (pos + 1) 0
      match w.at? pos with
      | some colon =>
        if colon.is .colon then
          let (no, pos) ← operandOf n w colon (pos + 1) power
          return (.ternary ⟨start, pos, t.line⟩ left yes no, pos)
        else .error ⟨t.line, .missingColon⟩
      | none => .error ⟨t.line, .missingColon⟩
    | .arrow | .doubleColon => do
      let (member, pos) ← member n w (pos + 1) power
      return (.binary ⟨start, pos, t.line⟩ op left member, pos)
    | _ => do
      let (right, pos) ← operandOf n w t (pos + 1) power
      let place : Place := ⟨start, pos, t.line⟩
      if op.isAssignment then return (.assign place op left right, pos)
      else return (.binary place op left right, pos)

/-- What may follow `->` and `::`: a name, reserved or not, or a tighter expression. -/
def member : Nat → Window → (pos power : Nat) → Built
  | 0, w, pos, _ => .error ⟨w.lineAt pos, .missingMember⟩
  | n + 1, w, pos, power =>
    match w.at? pos with
    | none => .error ⟨w.lineAt pos, .missingMember⟩
    | some t =>
      if t.isAny [.name, .keyword] then leaf .name pos (pos + 1) t.line else expression n w pos power

/-- A single operand: a leaf, a group, or an operator in front of an operand. -/
def operand : Nat → Window → (pos : Nat) → Built
  | 0, w, pos => .error ⟨w.lineAt pos, .missingExpression⟩
  | n + 1, w, pos =>
    match w.at? pos with
    | none => .error ⟨w.lineAt pos, .missingExpression⟩
    | some t =>
      if t.isAny [.integer, .real] then leaf .number pos (pos + 1) t.line
      else if t.is .simpleString then leaf .simpleString pos (pos + 1) t.line
      else if t.is .template then leaf .template pos (pos + 1) t.line
      else if t.is .dollar then variableLeaf w pos t.line
      else if t.is .openParen then do
        let close ← w.closing (pos + 1) .openParen .closeParen ⟨t.line, .unclosedParen⟩
        match ← enclosed n ⟨w.tokens, close⟩ (pos + 1) with
        | some tree => return (tree, close + 1)
        | none => .error ⟨t.line, .emptyGroup⟩
      else if t.is .openBracket then bracketed w pos t.line
      else
        match t.keyword? with
        | some word => keyword w word pos t
        | none =>
          match t.op?.map Operator.asPrefix with
          | some op =>
            match op.prefixPower? with
            | some power => do
              let (x, stop) ← operandOf n w t (pos + 1) power
              return (.prefixed ⟨pos, stop, t.line⟩ op x, stop)
            | none => nameOrError w pos t
          | none => nameOrError w pos t

end

/-- The operators by what `join` reads behind them; the last case are those that take one operand there. -/
theorem join_cases {motive : Operator → Prop} (op : Operator) (call : motive .call) (subscript : motive .subscript)
    (incr : motive .incr) (decr : motive .decr) (ternary : motive .ternary) (arrow : motive .arrow)
    (doubleColon : motive .doubleColon)
    (operand : ∀ op, op ≠ .call → op ≠ .subscript → op ≠ .incr → op ≠ .decr → op ≠ .ternary → op ≠ .arrow →
      op ≠ .doubleColon → motive op) : motive op := by
  by_cases h : op ∈ [Operator.call, .subscript, .incr, .decr, .ternary, .arrow, .doubleColon]
  · rcases h with _ | ⟨_, _ | ⟨_, _ | ⟨_, _ | ⟨_, _ | ⟨_, _ | ⟨_, _ | ⟨_, ⟨⟩⟩⟩⟩⟩⟩⟩⟩ <;> assumption
  · simp only [List.mem_cons, List.not_mem_nil, or_false, not_or] at h
    obtain ⟨h₁, h₂, h₃, h₄, h₅, h₆, h₇⟩ := h
    exact operand op h₁ h₂ h₃ h₄ h₅ h₆ h₇

end Builder

/-- The tree of the tokens `[start, stop)`, cut to the buffer; `none` when there are none. -/
def Node.build (tokens : Array Token) (start stop : Nat) : Except TreeError (Option Node) :=
  let stop := min stop tokens.size
  let start := min start stop
  Builder.enclosed (8 * (stop - start) + 8) ⟨tokens, stop⟩ start

end StackScript
