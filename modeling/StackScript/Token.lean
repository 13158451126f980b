/-
Tokens: what kind of lexeme, its text, and the line it starts on.

A kind belongs to one or more classes, and the rest of the compiler asks for classes: `[` is both a
bracket and an operator, `,` both a separator and an operator, `new` both a name and an operator.
-/
import StackScript.Keyword
import StackScript.Operator
import StackScript.Text.Quoted

namespace StackScript

/-- A class of tokens. -/
inductive TokenClass where
  | integer | real | keyword | name | dollar | operator
  | openBrace | closeBrace | namespaceMark | openParen | closeParen | openBracket | closeBracket
  | template | simpleString | comma | semicolon | colon | ampersand | equals | doubleArrow
  | other | raw
deriving DecidableEq

namespace TokenClass

/-- All classes, in the order in which a token's classes are listed. -/
def all : List TokenClass :=
  [integer, real, keyword, name, dollar, operator, openBrace, closeBrace, namespaceMark, openParen,
    closeParen, openBracket, closeBracket, template, simpleString, comma, semicolon, colon,
    ampersand, equals, doubleArrow, other, raw]

/-- The bit of a class in a token's class code. -/
def bit : TokenClass → Nat
  | integer => 0x0000001
  | real => 0x0000002
  | keyword => 0x0000004
  | name => 0x0000008
  | dollar => 0x0000010
  | operator => 0x0000020
  | openBrace => 0x0000040
  | closeBrace => 0x0000080
  | namespaceMark => 0x0000100
  | openParen => 0x0000200
  | closeParen => 0x0000400
  | openBracket => 0x0000800
  | closeBracket => 0x0001000
  | template => 0x0002000
  | simpleString => 0x0004000
  | comma => 0x0020000
  | semicolon => 0x0040000
  | colon => 0x0100000
  | ampersand => 0x0200000
  | equals => 0x0400000
  | doubleArrow => 0x0800000
  | other => 0x1000000
  | raw => 0x2000000

/-- The label of a class in a token's description. -/
def label : TokenClass → String
  | integer => "INTEGER"
  | real => "REAL"
  | keyword => "KEYWORD"
  | name => "ID"
  | dollar => "DOLLAR"
  | operator => "OP"
  | openBrace => "OCB"
  | closeBrace => "CCB"
  | namespaceMark => "NSSEP"
  | openParen => "LPAREN"
  | closeParen => "RPAREN"
  | openBracket => "OSB"
  | closeBracket => "CSB"
  | template => "DSTR"
  | simpleString => "SSTR"
  | comma => "COMMA"
  | semicolon => "SEMI"
  | colon => "COLON"
  | ampersand => "AMPER"
  | equals => "EQUAL"
  | doubleArrow => "ARRAY_OP"
  | other => "OTHER"
  | raw => "RAW"

theorem mem_all (c : TokenClass) : c ∈ all := by cases c <;> decide

end TokenClass

/-- What a token is. -/
inductive TokenKind where
  | integer | real
  | keyword (word : Keyword)
  | name
  /-- An operator spelled as a word. -/
  | wordOperator (op : Operator)
  | dollar
  /-- An operator spelled with signs, without another role. -/
  | operator (op : Operator)
  | openBrace | closeBrace | namespaceMark | openParen | closeParen | openBracket | closeBracket
  /-- A double-quoted string. -/
  | template
  /-- A single-quoted string. -/
  | simpleString
  | comma | semicolon | colon | ampersand | equals | doubleArrow
  | other
  /-- Text of a document outside its code islands. -/
  | raw
deriving DecidableEq

namespace TokenKind

/-- The classes a kind belongs to. -/
def classes : TokenKind → List TokenClass
  | integer => [.integer]
  | real => [.real]
  | keyword _ => [.keyword]
  | name => [.name]
  | wordOperator _ => [.name, .operator]
  | dollar => [.dollar]
  | operator _ => [.operator]
  | openBrace => [.openBrace]
  | closeBrace => [.closeBrace]
  | namespaceMark => [.namespaceMark]
  | openParen => [.openParen]
  | closeParen => [.closeParen]
  | openBracket => [.operator, .openBracket]
  | closeBracket => [.closeBracket]
  | template => [.template]
  | simpleString => [.simpleString]
  | comma => [.operator, .comma]
  | semicolon => [.semicolon]
  | colon => [.colon]
  | ampersand => [.operator, .ampersand]
  | equals => [.operator, .equals]
  | doubleArrow => [.doubleArrow]
  | other => [.other]
  | raw => [.raw]

/-- The operator a kind stands for, if it stands for one. -/
def op? : TokenKind → Option Operator
  | wordOperator op => some op
  | operator op => some op
  | openBracket => some .subscript
  | comma => some .comma
  | ampersand => some .bitAnd
  | equals => some .assign
  | _ => none

/-- The reserved word of a kind. -/
def keyword? : TokenKind → Option Keyword
  | keyword word => some word
  | _ => none

/-- The class code: one bit for each class of the kind. -/
def code (k : TokenKind) : Nat := k.classes.foldr (fun c n => c.bit + n) 0

/-- Exactly the kinds of the operator class stand for an operator. -/
theorem isSome_op? (k : TokenKind) : k.op?.isSome = k.classes.contains .operator := by
  cases k <;> rfl

end TokenKind

/-- A token.  The text of a string leaves out its quotes, and the text of a cast leaves out blanks. -/
structure Token where
  kind : TokenKind
  text : String
  line : Nat
deriving DecidableEq

namespace Token

/-- Whether the token belongs to a class. -/
def is (t : Token) (c : TokenClass) : Bool := t.kind.classes.contains c

/-- Whether the token belongs to any of the classes. -/
def isAny (t : Token) (cs : List TokenClass) : Bool := cs.any t.is

def keyword? (t : Token) : Option Keyword := t.kind.keyword?

def isKeyword (t : Token) (word : Keyword) : Bool := t.keyword? == some word

/-- Whether the token names a data type. -/
def isType (t : Token) : Bool := t.keyword?.any Keyword.isType

def op? (t : Token) : Option Operator := t.kind.op?

/-- Whether the token is an operator with this spelling. -/
def isOperatorText (t : Token) (text : String) : Bool := t.is .operator && t.text == text

/-- The classes, the quoted text and the line of a token. -/
def describe (t : Token) : String :=
  let labels := (TokenClass.all.filter t.is).map TokenClass.label
  "TokenKind(" ++ " | ".intercalate labels ++ ")(" ++ Quoted.quote t.text ++ " @ " ++
    toString t.line ++ ")"

end Token

end StackScript
