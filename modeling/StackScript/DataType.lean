/-
Declared types and overload signatures.

A declared type is a built-in or a class, possibly as an array of it.  The types of a function's
arguments, flattened to one key, tell its overloads apart.
-/
import StackScript.Keyword
import StackScript.Text.Digest

namespace StackScript

/-- A built-in type. -/
inductive DataType where
  | bool | callback | char | int | mixed | object | float | resource | string | void
deriving DecidableEq

namespace DataType

/-- The type a reserved word names; `auto` is `mixed`. -/
def ofKeyword? : Keyword → Option DataType
  | .auto | .mixed => some mixed
  | .bool => some bool
  | .callback => some callback
  | .char => some char
  | .int => some int
  | .object => some object
  | .float => some float
  | .resource => some resource
  | .string => some string
  | .void => some void
  | _ => none

/-- The code a declaration instruction carries. -/
def code : DataType → Nat
  | bool => 0x0001
  | callback => 0x0002
  | char => 0x0004
  | int => 0x0008
  | object => 0x0010
  | float => 0x0020
  | resource => 0x0040
  | string => 0x0080
  | void => 0x0100
  | mixed => 0x0200

/-- The letter in a signature key. -/
def letter : DataType → Char
  | bool => 'b'
  | callback => 'a'
  | char => 'c'
  | int => 'i'
  | mixed => 'm'
  | object => 'o'
  | float => 'f'
  | resource => 'r'
  | string => 's'
  | void => 'v'

def name : DataType → String
  | bool => "bool"
  | callback => "callback"
  | char => "char"
  | int => "int"
  | mixed => "mixed"
  | object => "object"
  | float => "float"
  | resource => "resource"
  | string => "string"
  | void => "void"

/-- Exactly the words that name a type have one. -/
theorem isSome_ofKeyword? (k : Keyword) : (ofKeyword? k).isSome = k.isType := by cases k <;> rfl

end DataType

/-- A built-in type or a class. -/
inductive BaseType where
  | builtin (type : DataType)
  | named (name : String)
deriving DecidableEq

/-- A declared type: a base type, or an array of it. -/
structure TypeSpec where
  base : BaseType
  isArray : Bool
deriving DecidableEq

namespace TypeSpec

/-- The type of what is declared without one. -/
def mixed : TypeSpec := ⟨.builtin .mixed, false⟩

/-- The bit that marks an array in a type code. -/
def arrayCode : Nat := 0x0400

def code (t : TypeSpec) : Nat :=
  let base := match t.base with
    | .builtin type => type.code
    | .named _ => DataType.object.code
  if t.isArray then base + arrayCode else base

def isClass (t : TypeSpec) : Bool :=
  match t.base with
  | .builtin _ => false
  | .named _ => true

def text (t : TypeSpec) : String :=
  let base := match t.base with
    | .builtin type => type.name
    | .named name => name
  if t.isArray then base ++ "[]" else base

/-- What the type adds to a signature key: the letter of a built-in, in upper case for an array, or the
name of a class. -/
def key (t : TypeSpec) : String :=
  match t.base with
  | .named name => name
  | .builtin type => String.singleton (if t.isArray then type.letter.toUpper else type.letter)

end TypeSpec

/-- The declared types of a function's arguments, in order. -/
structure Signature where
  items : List TypeSpec
deriving DecidableEq

namespace Signature

/-- The key under which overloads are told apart. -/
def key (s : Signature) : String := String.join (s.items.map TypeSpec.key)

/-- The digest of the key. -/
def digest (s : Signature) : UInt64 := Digest.ofString s.key

end Signature

end StackScript
