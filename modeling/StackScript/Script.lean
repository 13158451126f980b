/-
A script as it was read.

Reading a script never fails: what could not be read is kept in its place as a report, between the parts
that could, so that generating code from the tree meets problems and code in the order in which they
stand in the source.  The tree keeps the lines the generated instructions and messages need.
-/
import StackScript.ClassDef
import StackScript.Problem

namespace StackScript

/-- The variables a closure names after `using`, and the problems of that list. -/
structure CaptureList where
  /-- The line on which the opening parenthesis is missing. -/
  withoutParen : Option Nat
  captures : List Capture
  /-- The line on which something else than a variable stands. -/
  malformed : Option Nat

/-- What a function declaration says in front of its argument list. -/
structure FunctionHead where
  name : String
  returns : TypeSpec
  line : Nat
  flags : FunctionFlags

/-- What a member declaration says in front of its value or argument list. -/
structure MemberHead where
  name : String
  line : Nat
  visibility : Visibility
  flags : MemberFlags

/-- What a class or interface declaration says in front of its body. -/
structure ClassHead where
  name : String
  line : Nat
  flags : ClassFlags
  bases : List String
  interfaces : List String

/-- What is special about the key or value of an array entry: it is taken by reference, or a semicolon on
some line cuts it short. -/
structure ItemMark where
  byRef : Bool
  stray : Option Nat

mutual

/-- The place of an expression. -/
inductive Expr where
  /-- No tokens stand there. -/
  | missing
  /-- The tokens there do not form an expression. -/
  | rejected (error : TreeError)
  | tree (root : Tree Leaf)

/-- What a leaf of an expression tree means. -/
inductive Leaf where
  /-- A leaf on a line whose tokens could not be read. -/
  | unread (line : Nat)
  | number (token : Token)
  /-- A single-quoted string as written. -/
  | simpleString (text : String)
  /-- A double-quoted string; there is always a first piece. -/
  | template (first : Piece) (rest : List Piece)
  /-- A variable with its name on a line; each of the `extra` dollar signs looks up once more. -/
  | variable (line : Nat) (name : String) (extra : Nat)
  /-- A variable named by the value of an expression in braces on `braceLine`; `stray` is the line of a
  semicolon that cuts the expression short. -/
  | computedVariable (line braceLine : Nat) (name : Expr) (stray : Option Nat) (extra : Nat)
  /-- A variable named by empty braces on `braceLine`. -/
  | blankVariable (line braceLine : Nat)
  /-- A bare name; the line of a path of names. -/
  | name (path : Option Nat) (token : Token)
  /-- An array; the line of the entry without a value at which reading stopped. -/
  | array (entries : List Entry) (incomplete : Option Nat)
  | list (targets : List Expr)
  /-- An anonymous function; its arguments up to the first malformed one. -/
  | closure (line : Nat) (returns : TypeSpec) (params : List Parameter) (fault : Option Report)
      (captures : Option CaptureList) (body : Stmt)
  /-- A construct that compiles as a call of the built-in `word`. -/
  | construct (word : String) (argument : Expr)

/-- A piece of a double-quoted string. -/
inductive Piece where
  | text (text : String)
  /-- An expression between the pieces of text, and the problems of its tokens. -/
  | value (errors : List LexError) (root : Tree Leaf)
  /-- The tokens there do not form an expression. -/
  | rejected (errors : List LexError) (error : TreeError)

/-- An entry of an array. -/
inductive Entry where
  | plain (line : Nat) (value : Expr) (mark : ItemMark)
  | keyed (line : Nat) (key : Expr) (keyMark : ItemMark) (value : Expr) (mark : ItemMark)
  /-- An arrow without a key. -/
  | unkeyed (line : Nat) (value : Expr) (mark : ItemMark)

/-- One argument of a function. -/
inductive Parameter where
  | required (name : String) (type : Option TypeSpec) (byRef : Bool)
  | optional (name : String) (type : Option TypeSpec) (byRef : Bool) (line : Nat) (default : Expr)

/-- What follows `if`.  The tokens left over behind a test come with it. -/
inductive Chain where
  | branch (test : Expr) (strays : List Token) (body : Stmt) (rest : Chain)
  | otherwise (body : Stmt)
  | malformed (report : Report)
  | done

/-- One label of a switch, with the tokens left over before its colon and the statements behind it. -/
inductive Section where
  | case_ (line : Nat) (guard : Expr) (strays : List Token) (body : List Stmt)
  | default_ (line : Nat) (strays : List Token) (body : List Stmt)

/-- What follows `as`: a key and a value, each on its line. -/
inductive ForeachHead where
  | malformed (problem : Problem)
  /-- Something else than a plain variable. -/
  | unbound (line : Nat) (binding : Expr)
  | key (name : String) (binding : Expr) (rest : ForeachHead)
  | value (byRef : Bool) (name : String) (binding : Expr) (body : Stmt)

/-- One `catch`. -/
inductive CatchClause where
  | malformed (report : Report)
  | clause (className binding : String) (body : Stmt)

/-- One variable of a declaration. -/
inductive Declarator where
  | plain (line : Nat) (name : String)
  /-- The assignment includes the variable itself. -/
  | assigned (line : Nat) (name : String) (assignment : Expr)
  | static (line : Nat) (name : String)
  | staticValue (line : Nat) (name : String) (valueLine : Nat) (value : Expr)

/-- One member of a class or interface. -/
inductive Member where
  | report (report : Report)
  | constant (head : MemberHead) (valueLine : Nat) (value : Expr)
  | attribute (head : MemberHead) (type : TypeSpec)
  | attributeValue (head : MemberHead) (type : TypeSpec) (valueLine : Nat) (value : Expr)
  /-- A method without a body. -/
  | signature (head : MemberHead) (function : FunctionHead) (params : List Parameter)
      (fault : Option Report)
  | method (head : MemberHead) (function : FunctionHead) (params : List Parameter)
      (fault : Option Report) (body : Stmt)

/-- A statement. -/
inductive Stmt where
  | empty
  | report (report : Report)
  | sequence (items : List Stmt)
  /-- A statement that starts on a line. -/
  | onLine (line : Nat) (body : Stmt)
  /-- A brace block; the line of one that is not closed. -/
  | block (items : List Stmt) (unclosed : Option Nat)
  /-- Text of a document. -/
  | raw (text : String)
  | expression (value : Expr)
  | conditional (chain : Chain)
  /-- A switch; the problem that ends its reading early. -/
  | switch (subject : Expr) (strays : List Token) (sections : List Section) (fault : Option Report)
  | switchWithoutBody (subject : Expr) (strays : List Token) (report : Report)
  | whileLoop (test : Expr) (strays : List Token) (body : Stmt)
  | doLoop (body : Stmt) (test : Expr) (strays : List Token)
  | doWithoutTest (body : Stmt) (report : Report)
  /-- A `for`, and whether a semicolon is missing behind its test and tokens are left over behind its
  last part. -/
  | forLoop (line : Nat) (init : Stmt) (test : Expr) (afterTest : Bool) (body : Stmt) (post : Expr)
      (afterPost : Bool)
  | foreach (line : Nat) (source : Expr) (strays : List Token) (head : ForeachHead)
  | tryCatch (body : Stmt) (clauses : List CatchClause) (fault : Option Report)
  | throw (line : Nat) (value : Expr)
  | loopJump (jump : LoopJump) (line level : Nat) (unterminated : Bool)
  | return_ (value : Expr)
  | exit (value : Expr)
  | constant (name : String) (valueLine : Nat) (value : Expr)
  | declaration (type : TypeSpec) (items : List Declarator) (fault : Option Report)
  | namespace_ (line : Nat) (items : List Stmt)
  | using_ (line : Nat)
  | function (head : FunctionHead) (params : List Parameter) (fault : Option Report) (body : Stmt)
  /-- A class or interface; one whose reading an error ends is not installed. -/
  | class_ (head : ClassHead) (members : List Member) (fault : Option ErrorReport)

end

namespace Expr

/-- Whether there is something to evaluate. -/
def isPresent : Expr → Bool
  | tree _ => true
  | _ => false

end Expr

namespace Piece

/-- Whether the piece adds a value to the string. -/
def isPresent : Piece → Bool
  | text _ => true
  | value _ _ => true
  | rejected _ _ => false

end Piece

/-! ### Expressions that do nothing but load variables -/

mutual

/-- The variables an expression loads, when it does nothing else.  What could not be read does
nothing. -/
def Expr.loads? : Expr → Option (List String)
  | .tree root => Leaf.treeLoads? root
  | _ => some []

def Leaf.treeLoads? : Tree Leaf → Option (List String)
  | .leaf _ content => content.loads?
  | _ => none

/-- The variables a leaf loads, when it does nothing else: an array without its last value is never
put together, and neither is a string of one piece. -/
def Leaf.loads? : Leaf → Option (List String)
  | .variable _ name 0 => some [name]
  | .computedVariable _ _ name _ _ => if name.isPresent then none else some []
  | .unread _ | .blankVariable _ _ => some []
  | .template first rest =>
    if (first :: rest).countP Piece.isPresent ≤ 1 then do
      return (← first.loads?) ++ (← Piece.allLoads? rest)
    else none
  | .array entries (some _) => Entry.loads? entries
  | _ => none

def Piece.loads? : Piece → Option (List String)
  | .text _ => none
  | .value _ root => Leaf.treeLoads? root
  | .rejected _ _ => some []

def Piece.allLoads? : List Piece → Option (List String)
  | [] => some []
  | p :: ps => do return (← p.loads?) ++ (← Piece.allLoads? ps)

/-- Only keys stand for themselves: an entry without one starts with a constant. -/
def Entry.loads? : List Entry → Option (List String)
  | [] => some []
  | .keyed _ key keyMark value mark :: es =>
    if keyMark.byRef || mark.byRef then none
    else do return (← key.loads?) ++ (← value.loads?) ++ (← Entry.loads? es)
  | _ :: _ => none

end

namespace Expr

/-- The name of the variable, when all there is to evaluate is one: as a rule the variable itself, or a
string with nothing else in it. -/
def soleVariableName? (e : Expr) : Option String :=
  match e.loads? with
  | some [name] => some name
  | _ => none

end Expr

namespace Chain

/-- Whether nothing follows. -/
def isDone : Chain → Bool
  | done => true
  | _ => false

end Chain

/-- A source as it was read, by mode. -/
inductive Script where
  | statements (items : List Stmt)
  /-- An expression and the first token left over behind it. -/
  | expression (value : Expr) (stray : Option Token)

end StackScript
