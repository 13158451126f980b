/-
Texts as a listing shows them: between double quotes, with everything that has no shape of its own
escaped, and fields padded to a width counted in characters.
-/
import StackScript.Text.CharClass

namespace StackScript

namespace Quoted

/-- A code point in lower-case hexadecimal between braces. -/
def codePoint (c : Char) : List Char :=
  ['\\', 'u', '\x7b'] ++ Nat.toDigits 16 c.toNat ++ ['\x7d']

/-- One character of a quoted text. -/
def escape (c : Char) : List Char :=
  if c = '\x00' then ['\\', '0']
  else if c = '\t' then ['\\', 't']
  else if c = '\n' then ['\\', 'n']
  else if c = '\r' then ['\\', 'r']
  else if c = '"' then ['\\', '"']
  else if c = '\\' then ['\\', '\\']
  else if CharClass.isPrintable c then [c]
  else codePoint c

/-- The text between double quotes, escaped. -/
def quote (s : String) : String :=
  String.ofList (['"'] ++ s.toList.flatMap escape ++ ['"'])

end Quoted

namespace Padding

/-- The text followed by blanks up to `width` characters. -/
def right (width : Nat) (s : String) : String :=
  s ++ String.ofList (List.replicate (width - s.length) ' ')

/-- The text preceded by `fill` up to `width` characters. -/
def left (fill : Char) (width : Nat) (s : String) : String :=
  String.ofList (List.replicate (width - s.length) fill) ++ s

end Padding

end StackScript
