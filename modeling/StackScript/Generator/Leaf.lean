/-
The leaves of expression trees, and where only some expressions may stand.
-/
import StackScript.Generator.Operation
import StackScript.Generator.Table
import StackScript.Number.Literal
import StackScript.Script
import StackScript.Text.StringLiteral

namespace StackScript

/-- A place where only some expressions may stand. -/
inductive Restriction where
  /-- What a `foreach` binds. -/
  | foreachTarget
  /-- What is thrown. -/
  | throwable
  /-- What a `list` assigns to. -/
  | listTarget
  /-- What an array refers to. -/
  | entryReference
deriving DecidableEq

namespace Restriction

def isVariable : Tree Leaf → Bool
  | .leaf _ (.variable _ _ _) | .leaf _ (.computedVariable _ _ _ _ _) | .leaf _ (.blankVariable _ _) => true
  | _ => false

/-- Whether an expression is a part of something: an entry or a member. -/
def isPart (root : Tree Leaf) : Bool :=
  match root.op? with
  | some .subscript | some .arrow | some .doubleColon => true
  | _ => false

/-- What is wrong with an expression at such a place. -/
def violation? (root : Tree Leaf) : Restriction → Option Problem
  | foreachTarget => if isVariable root then none else some .foreachNotVariable
  | throwable =>
    if isVariable root || isPart root || root.op? == some .new then none else some .notThrowable
  | listTarget => if isVariable root || isPart root then none else some .invalidListTarget
  | entryReference =>
    match root.op? with
    | some op => if isPart root || op == .call then none else some .invalidEntryReference
    | none => if isVariable root then none else some .invalidEntryVariable

end Restriction

/-- What a key or value of an array may be. -/
def ItemMark.restriction (mark : ItemMark) : Option Restriction :=
  if mark.byRef then some .entryReference else none

namespace Gen

/-- Reports an expression that may not stand where it does. -/
def restrict (restriction : Option Restriction) (root : Tree Leaf) : Gen Unit :=
  match restriction.bind (Restriction.violation? root) with
  | some problem => report root.place.line problem
  | none => pure ()

/-! ### Constants -/

/-- A whole number that fits no integer becomes a real when it is decimal, and else the largest
integer. -/
def number (t : Token) : Gen Unit :=
  if t.is .integer then
    match IntegerLiteral.read t.text.toList with
    | .value v => loadConstant (·.addInt v)
    | .overflow radix =>
      if radix = 10 then loadConstant (·.addReal (readReal t.text.toList))
      else do
        report t.line (.numberOutOfRange t.text)
        loadConstant (·.addInt Int64.maxValue)
  else loadConstant (·.addReal (readReal t.text.toList))

def string (text : String) : Gen Unit := loadConstant (·.addString text)

def simpleString (text : String) : Gen Unit :=
  string (String.ofList (StringLiteral.unescapeSimple text.toList))

/-- The string of a name that may be missing. -/
def nameOrNull : Option String → Gen Unit
  | some name => string name
  | none => loadSlot ConstantPool.nullSlot

/-- The slot of a literal that is written as a name, in any case of its letters. -/
def literalSlot? (name : String) : Option Nat :=
  match name.toLower with
  | "null" => some ConstantPool.nullSlot
  | "true" => some ConstantPool.trueSlot
  | "false" => some ConstantPool.falseSlot
  | _ => none

/-- Notes a path of names on a line. -/
def notePath : Option Nat → Gen Unit
  | some line => noteNamespaces line
  | none => pure ()

/-- A name: a literal, something known about its place, or else a name for the machine to look up. -/
def name (path : Option Nat) (t : Token) : Gen Unit := do
  notePath path
  match literalSlot? t.text with
  | some slot => loadSlot slot
  | none =>
    match t.text with
    | "__LINE__" => loadConstant (·.addInt (Int64.ofNat t.line))
    | "__FILE__" => do string (← get).config.fileLabel
    | "__DIR__" => do string (← get).config.dirLabel
    | "__CLASS__" => do nameOrNull (← currentClass)
    | "__FUNCTION__" => do nameOrNull ((← currentFunction).map Prod.fst)
    | "__METHOD__" => do
      nameOrNull ((← currentFunction).bind fun (f, className) => className.map fun _ => f)
    | text => do put .loadc 1 (← intern (·.addString text)) .none

/-! ### Variables -/

/-- Looks up a variable by the name on the stack, `n` times over. -/
def lookUp (access : Access) : Nat → Gen Unit
  | 0 => pure ()
  | n + 1 => do
    put .load (if access.readOnly then 1 else 0) 0 .none
    lookUp access n

def loadVariable (access : Access) (line : Nat) (name : String) (extra : Nat) : Gen Unit := do
  setLine line
  put .load (if access.readOnly then 1 else 0) 0 (.name name)
  lookUp access extra

/-- A semicolon that cuts an expression short. -/
def cutShort : Option Nat → Gen Unit
  | some line => report line (.misplacedToken ";")
  | none => pure ()

def computedVariable (access : Access) (line braceLine : Nat) (isPresent : Bool) (name : Gen Unit)
    (stray : Option Nat) (extra : Nat) : Gen Unit := do
  setLine braceLine
  name
  cutShort stray
  if isPresent then lookUp access (extra + 1) else report line .missingVariableName

def blankVariable (line braceLine : Nat) : Gen Unit := do
  setLine braceLine
  report line .invalidVariable

/-! ### Strings with values in them -/

/-- The problems of the tokens of a source. -/
def lexReports (errors : List LexError) : List Report :=
  errors.map fun e => ⟨e.span.line, .lexical e.fault⟩

/-- Joins the pieces of a string when there are several. -/
def joinPieces (count : Nat) : Gen Unit := if 1 < count then put .add count 1 .none else pure ()

/-! ### Collections -/

/-- A key or value of an array. -/
def item (mark : ItemMark) (value : Gen Unit) : Gen Unit := do
  value
  if mark.byRef then put .loadRef 0 0 .none else cutShort mark.stray

def plainEntry (line : Nat) (value : Gen Unit) : Gen Unit := do
  setLine line
  loadSlot ConstantPool.nullSlot
  value

def keyedEntry (line : Nat) (key value : Gen Unit) : Gen Unit := do
  setLine line
  key
  value

def unkeyedEntry (line : Nat) (value : Gen Unit) : Gen Unit := do
  setLine line
  report line .missingEntryKey
  loadSlot ConstantPool.nullSlot
  value

/-- An array of so many entries. -/
def array (count : Nat) (entries : Gen Unit) (incomplete : Option Nat) : Gen Unit := do
  entries
  match incomplete with
  | some line => do
    setLine line
    report line .missingEntryValue
  | none => put .loadMap (count * 2) 0 .none

def list (count : Nat) (targets : Gen Unit) : Gen Unit := do
  targets
  put .loadList count 0 .none

/-! ### Calls of built-ins -/

def construct (word : String) (isPresent : Bool) (argument : Gen Unit) : Gen Unit := do
  argument
  string word
  put .call (if isPresent then 1 else 0) 0 .none

end Gen

end StackScript
