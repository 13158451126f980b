/-
What can be wrong with a script.

A problem is the cause of a diagnostic.  Its severity and its wording are functions of the cause, kept in
one place, so the rest of the compiler never spells out a message.
-/
import StackScript.Diagnostic
import StackScript.Token.Lexer
import StackScript.Tree.Builder

namespace StackScript

/-- A statement that jumps relative to an enclosing loop. -/
inductive LoopJump where
  | break_ | continue_
deriving DecidableEq

def LoopJump.word : LoopJump → String
  | break_ => "break"
  | continue_ => "continue"

/-- Whose header a stray token stands in; it decides how the message starts. -/
inductive Header where
  | plain | switch | foreach
deriving DecidableEq

def Header.label : Header → String
  | plain => ""
  | switch => "Switch: "
  | foreach => "foreach: "

/-- The cause of a diagnostic.  A `token` is the text of the offending token, a `name` or `className`
the name of what is being declared. -/
inductive Problem where
  -- reading
  | lexical (fault : LexFault)
  | tree (fault : TreeFault)
  | unexpectedToken (token : String)
  | strayToken (header : Header) (token : String)
  | misplacedToken (token : String)
  | misplacedKeyword (token : String)
  | unclosedBlock
  -- expressions
  | invalidVariable
  | missingVariableName
  | numberOutOfRange (token : String)
  | missingEntryValue
  | missingEntryKey
  | invalidEntryReference
  | invalidEntryVariable
  | invalidListTarget
  | duplicateClosure (name : String)
  -- conditionals
  | ifWithoutParen
  | ifUnclosedParen
  | switchWithoutParen
  | switchWithoutSubject
  | unexpectedInSwitch (token : String)
  | unclosedSwitch
  | repeatedDefault
  | emptyCase
  -- loops
  | whileWithoutParen
  | whileWithoutTest
  | doWithoutWhile
  | forWithoutParen
  | forInvalid
  | forAfterInit
  | forAfterTest
  | forAfterPost
  | foreachWithoutParen
  | foreachWithoutHead
  | foreachWithoutSource
  | foreachWithoutBinding
  | foreachWithoutKey
  | foreachWithoutValue
  | foreachNotVariable
  -- jumps
  | jumpOutsideLoop (jump : LoopJump)
  | jumpWithoutSemicolon (jump : LoopJump)
  -- exceptions
  | tryWithoutCatch (token : String)
  | catchWithoutClass (token : String)
  | catchWithoutVariable (token : String)
  | catchUnclosedParen (token : String)
  | notThrowable
  -- declarations
  | invalidConstantName
  | reservedConstant (name : String)
  | constantWithoutEquals
  | unknownType (token : String)
  | expectedVariable (token : String)
  | missingInitialValue (name : String)
  | missingStaticValue (name : String)
  | staticOutsideFunction (name : String)
  | unexpectedInNamespace (token : String)
  | namespaceWithoutBrace (token : String)
  | unclosedNamespace
  | usingUnterminated (token : String)
  | namespacesDisabled
  -- functions
  | unclosedParameters (name : String)
  | missingArgumentName
  | invalidArgumentName
  | missingArgumentDefault
  | capturesWithoutParen
  | invalidCapture
  | invalidFunctionName (token : String)
  | functionWithoutParen (name : String)
  | duplicateFunction (name : String)
  -- classes
  | invalidClassName
  | missingBaseClass (className : String)
  | missingInterface (className : String)
  | classWithoutBrace (className : String)
  | unclosedClass (className : String)
  | duplicateClass (className : String)
  | invalidInterfaceName
  | missingBaseInterface (className : String)
  | interfaceWithoutBrace (className : String)
  | unclosedInterface (className : String)
  | duplicateInterface (className : String)
  | unexpectedMember (token className : String)
  | unexpectedStaticMember (token className : String)
  | expectedMethod (token word className : String)
  | expectedMemberType (token className : String)
  | unexpectedInterfaceMember (token className : String)
  | expectedSignature (className : String)
  | interfaceNotPublic
  | expectedSignatureType (token className : String)
  | attributeInInterface (className : String)
  | invalidClassConstant (token className : String)
  | reservedClassConstant (name : String)
  | classConstantWithoutEquals (name : String)
  | emptyClassConstant (name : String)
  | expectedConstant (token className : String)
  | invalidAttributeName (token className : String)
  | attributeUnterminated (name : String)
  | missingAttributeValue (name : String)
  | expectedAttribute (token className : String)
  | invalidMethodName (token className : String)
  | privateVirtual (className name : String)
  | virtualInPlainClass (className name : String)
  | methodWithoutParen (className name : String)
  | methodUnclosedParen (className name : String)
  | methodWithoutBody (className name : String)
  | methodWithBody (className name : String)
deriving DecidableEq

namespace Problem

/-- Most problems are errors.  Code that is only suspicious gets a warning, and a feature that is
skipped gets a notice. -/
def severity : Problem → Severity
  | numberOutOfRange _ | missingEntryKey | repeatedDefault | jumpWithoutSemicolon _
  | interfaceNotPublic => .warning
  | namespacesDisabled => .notice
  | _ => .error

def message : Problem → String
  | lexical fault => fault.message
  | tree fault => fault.message
  | unexpectedToken t => s!"Unexpected token '{t}'"
  | strayToken h t => h.label ++ s!"Unexpected token '{t}'"
  | misplacedToken t => s!"Syntax error: Unexpected token '{t}'"
  | misplacedKeyword t => s!"Syntax error: Unexpected keyword '{t}'"
  | unclosedBlock => "Missing closing braces '\x7d'"
  | invalidVariable => "Invalid variable name"
  | missingVariableName => "Missing variable name"
  | numberOutOfRange t => s!"Numeric literal '{t}' is out of range"
  | missingEntryValue => "array(): Missing entry value"
  | missingEntryKey => "array(): Missing entry key"
  | invalidEntryReference =>
    "array(): Expecting a variable/array member/function call after reference operator '&'"
  | invalidEntryVariable => "array(): Expecting a variable after reference operator '&'"
  | invalidListTarget => "list(): Expecting a variable not an expression"
  | duplicateClosure n => s!"Duplicate function name '{n}'"
  | ifWithoutParen => "if/else/elseif: Missing '('"
  | ifUnclosedParen => "if/else/elseif: Missing ')'"
  | switchWithoutParen => "Expected '(' after 'switch' keyword"
  | switchWithoutSubject => "Expected expression after 'switch' keyword"
  | unexpectedInSwitch t => s!"Switch: Unexpected token '{t}'"
  | unclosedSwitch => "Unexpected end of file, expecting 'case' or 'default' or '\x7d'"
  | repeatedDefault => "Switch: 'default' case already compiled"
  | emptyCase => "Empty case expression"
  | whileWithoutParen => "Expected '(' after 'while' keyword"
  | whileWithoutTest => "Expected expression after 'while' keyword"
  | doWithoutWhile => "Missing 'while' statement after 'do' block"
  | forWithoutParen => "Expected '(' after 'for' keyword"
  | forInvalid => "for: Invalid expression"
  | forAfterInit => "for: Expected ';' after initialization expressions"
  | forAfterTest => "for: Expected ';' after conditionals expressions"
  | forAfterPost => "for: Expected ')' after post-expressions"
  | foreachWithoutParen => "foreach: Expected '('"
  | foreachWithoutHead => "foreach: Missing expression"
  | foreachWithoutSource => "foreach: Missing array/object expression"
  | foreachWithoutBinding => "foreach: Missing $key => $value pair"
  | foreachWithoutKey => "foreach: Missing $key"
  | foreachWithoutValue => "foreach: Missing $value"
  | foreachNotVariable => "foreach: Expecting a variable name"
  | jumpOutsideLoop j => "A '" ++ j.word ++ "' statement may only be used within a loop or switch"
  | jumpWithoutSemicolon j => "Expected semi-colon ';' after '" ++ j.word ++ "' statement"
  | tryWithoutCatch t => s!"Try: Unexpected token '{t}',expecting 'catch' block"
  | catchWithoutClass t => s!"Catch: Unexpected token '{t}',excpecting class name"
  | catchWithoutVariable t => s!"Catch: Unexpected token '{t}',expecting variable name"
  | catchUnclosedParen t => s!"Catch: Unexpected token '{t}',expecting right parenthesis ')'"
  | notThrowable => "throw: Expecting an exception class instance"
  | invalidConstantName => "const: Invalid constant name"
  | reservedConstant n => s!"const: Cannot redeclare a reserved constant '{n}'"
  | constantWithoutEquals => "const: Expected '=' after constant name"
  | unknownType t => s!"Unknown data type name '{t}'"
  | expectedVariable t => s!"Unexpected '{t}', expecting variable"
  | missingInitialValue n => s!"Variable '{n}' is missing default value"
  | missingStaticValue n => s!"Static variable '{n}' is missing default value"
  | staticOutsideFunction n => s!"Static variable '{n}' can only be declared inside a function"
  | unexpectedInNamespace t => s!"Namespace: Unexpected token '{t}'"
  | namespaceWithoutBrace t => s!"Namespace: Unexpected token '{t}',expecting '\x7b'"
  | unclosedNamespace => "Namespace: Missing '\x7d' after namespace definition"
  | usingUnterminated t => s!"using statement: Unexpected token '{t}',expecting ';'"
  | namespacesDisabled =>
    "Namespace support is disabled in the current release of the AerScript engine"
  | unclosedParameters n => s!"Missing ')' after function '{n}' signature"
  | missingArgumentName => "Missing argument name"
  | invalidArgumentName => "Invalid argument name"
  | missingArgumentDefault => "Missing argument default value"
  | capturesWithoutParen => "Closure: Unexpected token. Expecting a left parenthesis '('"
  | invalidCapture => "Closure: Unexpected token. Expecting a variable name"
  | invalidFunctionName t => s!"Invalid function name '{t}'"
  | functionWithoutParen n => s!"Expected '(' after function name '{n}'"
  | duplicateFunction n => s!"Function '{n}()' is already declared with the same signature"
  | invalidClassName => "Invalid class name"
  | missingBaseClass c => s!"Expected 'class_name' after 'extends' keyword inside class '{c}'"
  | missingInterface c =>
    s!"Expected 'interface_name' after 'implements' keyword inside class '{c}' declaration"
  | classWithoutBrace c => s!"Expected opening braces '\x7b' after class '{c}' declaration"
  | unclosedClass c => s!"Missing closing braces '\x7d' after class '{c}' definition"
  | duplicateClass c => s!"Class '{c}' is already declared"
  | invalidInterfaceName => "Invalid interface name"
  | missingBaseInterface c =>
    s!"Expected 'interface_name' after 'extends' keyword inside interface '{c}'"
  | interfaceWithoutBrace c => s!"Expected '\x7b' after interface '{c}' definition"
  | unclosedInterface c => s!"Missing '\x7d' after interface '{c}' definition"
  | duplicateInterface c => s!"Interface '{c}' is already declared"
  | unexpectedMember t c =>
    s!"Unexpected token '{t}'. Expecting attribute or method declaration inside class '{c}'"
  | unexpectedStaticMember t c =>
    s!"Unexpected token '{t}',Expecting attribute or method declaration inside class '{c}'"
  | expectedMethod t w c =>
    s!"Unexpected token '{t}', expecting method declaration after '{w}' keyword inside class '{c}'"
  | expectedMemberType t c =>
    s!"Unexpected token '{t}', expecting data type for attribute or method declaration" ++
      s!" inside class '{c}'"
  | unexpectedInterfaceMember t c =>
    s!"Unexpected token '{t}'. Expecting method signature or constant declaration" ++
      s!" inside interface '{c}'"
  | expectedSignature c => s!"Expecting method signature inside interface '{c}'"
  | interfaceNotPublic => "interface: Access type must be public"
  | expectedSignatureType t c =>
    s!"Unexpected token '{t}', expecting data type for method signature inside interface '{c}'"
  | attributeInInterface c => s!"Attributes cannot be declared inside interface '{c}'"
  | invalidClassConstant t c => s!"Invalid constant name '{t}' in class '{c}'"
  | reservedClassConstant n => s!"Cannot redeclare a reserved constant '{n}'"
  | classConstantWithoutEquals n => s!"Expected '=' after class constant '{n}'"
  | emptyClassConstant n => s!"Empty constant '{n}' value"
  | expectedConstant t c =>
    s!"Unexpected token '{t}',expecting constant declaration inside class '{c}'"
  | invalidAttributeName t c => s!"Invalid attribute name '{t}' in class '{c}'"
  | attributeUnterminated n => s!"Expected '=' or ';' after attribute name '{n}'"
  | missingAttributeValue n => s!"Attribute '{n}': Missing default value"
  | expectedAttribute t c =>
    s!"Unexpected token '{t}',expecting attribute declaration inside class '{c}'"
  | invalidMethodName t c => s!"Invalid method name '{t}' in class '{c}'"
  | privateVirtual c n => s!"Virtual method '{c}::{n}()' cannot be declared private"
  | virtualInPlainClass c n =>
    s!"Class '{c}' contains virtual method and must therefore be declared virtual" ++
      s!" or implement the remaining method '{c}::{n}()'"
  | methodWithoutParen c n => s!"Expected '(' after method name '{c}::{n}()'"
  | methodUnclosedParen c n => s!"Missing ')' after method '{c}::{n}()' declaration"
  | methodWithoutBody c n => s!"Non-virtual method '{c}::{n}()' must contain body"
  | methodWithBody c n => s!"Interface method '{c}::{n}()' cannot contain body"

end Problem

/-- A problem and the line it is reported on. -/
structure Report where
  line : Nat
  problem : Problem
deriving DecidableEq

namespace Report

def isError (r : Report) : Bool := r.problem.severity == .error

end Report

/-- A report that is an error. -/
structure ErrorReport where
  line : Nat
  problem : Problem
  isError : problem.severity = .error

end StackScript
