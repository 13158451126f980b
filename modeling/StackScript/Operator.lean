/-
The operators of expressions and how tightly they bind.

Precedence and associativity are binding powers: an operator takes an operand whose own operators bind
at least as tightly as the power on that side.  The right power is above the left one for operators that
group to the left and below it for those that group to the right.
-/
namespace StackScript

/-- What a cast converts to. -/
inductive CastType where
  | int | float | bool | string | char | object | callback | resource | void
deriving DecidableEq

namespace CastType

/-- Every type a cast may name. -/
def table : List (String × CastType) :=
  [("int", int), ("float", float), ("bool", bool), ("string", string), ("char", char),
    ("object", object), ("callback", callback), ("resource", resource), ("void", void)]

/-- The cast to the type of this name. -/
def ofWord? (word : String) : Option CastType := table.lookup word

/-- A cast is written as its type between parentheses, without blanks. -/
def spelling : CastType → String
  | int => "(int)"
  | float => "(float)"
  | bool => "(bool)"
  | string => "(string)"
  | char => "(char)"
  | object => "(object)"
  | callback => "(callback)"
  | resource => "(resource)"
  | void => "(void)"

end CastType

/-- An operator of an expression tree. -/
inductive Operator where
  | new | clone
  | arrow | doubleColon
  | subscript | call
  | incr | decr | bitNot | neg | plus | cast (type : CastType) | is | logNot
  | mul | div | mod | add | sub | shl | shr
  | lt | le | gt | ge | eq | ne
  | bitAnd | ref | bitXor | bitOr
  | logAnd | logOr | logXor | nullCoalesce | ternary
  | assign | addAssign | subAssign | mulAssign | divAssign | modAssign
  | andAssign | orAssign | xorAssign | shlAssign | shrAssign
  | comma
deriving DecidableEq

namespace Operator

/-- Every spelling with its operator.  A spelling that has two meanings stands for the one between two
operands; `asPrefix` gives the other. -/
def table : List (String × Operator) :=
  [("new", new), ("clone", clone), ("is", is), ("->", arrow), ("::", doubleColon), ("[", subscript),
    ("++", incr), ("--", decr), ("~", bitNot), ("!", logNot), ("*", mul), ("/", div), ("%", mod),
    ("+", add), ("-", sub), ("<<", shl), (">>", shr), ("<", lt), ("<=", le), (">", gt), (">=", ge),
    ("==", eq), ("!=", ne), ("<>", ne), ("&", bitAnd), ("^", bitXor), ("|", bitOr), ("&&", logAnd),
    ("||", logOr), ("^^", logXor), ("??", nullCoalesce), ("?", ternary), ("=", assign),
    ("+=", addAssign), ("-=", subAssign), ("*=", mulAssign), ("/=", divAssign), ("%=", modAssign),
    ("&=", andAssign), ("|=", orAssign), ("^=", xorAssign), ("<<=", shlAssign), (">>=", shrAssign),
    (",", comma)]

/-- The operator with this spelling. -/
def ofSymbol? (text : String) : Option Operator := table.lookup text

/-- The powers with which an operator takes the operands on its left and right. -/
def infixPower? : Operator → Option (Nat × Nat)
  | comma => some (1, 2)
  | assign | addAssign | subAssign | mulAssign | divAssign | modAssign | andAssign | orAssign
  | xorAssign | shlAssign | shrAssign => some (4, 3)
  | ternary => some (6, 5)
  | nullCoalesce => some (8, 7)
  | logOr => some (9, 10)
  | logXor => some (11, 12)
  | logAnd => some (13, 14)
  | bitOr => some (15, 16)
  | bitXor => some (17, 18)
  | bitAnd => some (19, 20)
  | eq | ne => some (21, 22)
  | lt | le | gt | ge => some (23, 24)
  | shl | shr => some (25, 26)
  | add | sub => some (27, 28)
  | mul | div | mod => some (29, 30)
  | is => some (31, 32)
  | incr | decr | subscript | call => some (35, 36)
  | arrow | doubleColon => some (37, 38)
  | _ => none

/-- The power with which an operator in front takes its operand.  `new` binds looser than a call, so
that it takes the call with its arguments. -/
def prefixPower? : Operator → Option Nat
  | new | clone => some 34
  | incr | decr | bitNot | neg | plus | cast _ | logNot | ref => some 33
  | _ => none

/-- Whether the operator stores into its left operand. -/
def isAssignment : Operator → Bool
  | assign | addAssign | subAssign | mulAssign | divAssign | modAssign | andAssign | orAssign
  | xorAssign | shlAssign | shrAssign => true
  | _ => false

/-- The meaning of a spelling in front of its operand. -/
def asPrefix : Operator → Operator
  | sub => neg
  | add => plus
  | bitAnd => ref
  | op => op

/-- How an operator is shown. -/
def spelling : Operator → String
  | new => "new"
  | clone => "clone"
  | arrow => "->"
  | doubleColon => "::"
  | subscript => "[]"
  | call => "()"
  | incr => "++"
  | decr => "--"
  | bitNot => "~"
  | neg | sub => "-"
  | plus | add => "+"
  | cast type => type.spelling
  | is => "is"
  | logNot => "!"
  | mul => "*"
  | div => "/"
  | mod => "%"
  | shl => "<<"
  | shr => ">>"
  | lt => "<"
  | le => "<="
  | gt => ">"
  | ge => ">="
  | eq => "=="
  | ne => "!="
  | bitAnd | ref => "&"
  | bitXor => "^"
  | bitOr => "|"
  | logAnd => "&&"
  | logOr => "||"
  | logXor => "^^"
  | nullCoalesce => "??"
  | ternary => "?"
  | assign => "="
  | addAssign => "+="
  | subAssign => "-="
  | mulAssign => "*="
  | divAssign => "/="
  | modAssign => "%="
  | andAssign => "&="
  | orAssign => "|="
  | xorAssign => "^="
  | shlAssign => "<<="
  | shrAssign => ">>="
  | comma => ","

end Operator

end StackScript
