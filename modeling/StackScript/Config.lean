/-
The settings of a compilation, and the names a script sees for its own file and directory.
-/
import StackScript.ConstantPool

namespace StackScript

/-- What a source is expected to hold. -/
inductive Mode where
  /-- Statements and declarations in any order. -/
  | script
  /-- Declarations only. -/
  | declarations
  /-- One expression, whose value is returned. -/
  | expression
deriving DecidableEq

namespace Path

/-- How many characters in front are not part of a component: the root, or a leading `.`. -/
def lead : List Char → Nat
  | '/' :: _ => 1
  | ['.'] => 1
  | '.' :: '/' :: _ => 1
  | _ => 0

/-- The last component of a reversed path. -/
def lastComponent (rev : List Char) : List Char := rev.takeWhile (· != '/')

/-- A reversed path without its last component and the slash before it. -/
def dropComponent (rev : List Char) : List Char := (rev.dropWhile (· != '/')).drop 1

/-- Drops empty components and `.` from the end of a reversed path. -/
def trim : Nat → List Char → List Char
  | 0, rev => rev
  | n + 1, rev =>
    if rev.isEmpty then rev
    else if lastComponent rev = [] ∨ lastComponent rev = ['.'] then trim n (dropComponent rev)
    else rev

/-- The path without its last component, otherwise as it was written.  The root and the empty path have
no parent. -/
def parent? (path : List Char) : Option (List Char) :=
  let front := path.take (lead path)
  let body := trim path.length (path.drop (lead path)).reverse
  if body.isEmpty then (if front = ['.'] then some [] else none)
  else some (front ++ (trim path.length (dropComponent body)).reverse)

end Path

/-- The settings of a compilation. -/
structure Config where
  file : Option String := none
  /-- How many errors are accepted before the compilation stops. -/
  errorLimit : Nat := 15
  /-- Strings of at least this many bytes do not share a constant slot. -/
  cacheThreshold : Nat := ConstantPool.defaultThreshold
  mode : Mode := .script
  /-- Whether the source is a document with code islands. -/
  embedded : Bool := false
deriving DecidableEq

namespace Config

/-- What a source without a file is called. -/
def memoryLabel : String := "[MEMORY]"

def fileLabel (c : Config) : String := c.file.getD memoryLabel

/-- The directory of the file, `.` when its name has none. -/
def dirLabel (c : Config) : String :=
  match c.file with
  | none => memoryLabel
  | some name =>
    match Path.parent? name.toList with
    | some (d :: ds) => String.ofList (d :: ds)
    | _ => "."

end Config

end StackScript
