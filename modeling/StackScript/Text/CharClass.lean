/-
The character classes the language rests on.

Blanks between tokens and the letters of a name are ASCII classes, with every other character taken as
part of a name.  The blanks cut off the end of a code island, and the characters a quoted text may show
as they are, follow Unicode properties.
-/
import StackScript.Text.GraphemeExtend
import StackScript.Text.Invisible

namespace StackScript

namespace CharClass

/-- Space, tab, line feed, form feed and carriage return. -/
def isBlank (c : Char) : Bool :=
  c == ' ' || c == '\t' || c == '\n' || c == '\x0c' || c == '\r'

def isAscii (c : Char) : Bool := c.toNat < 128

/-- An ASCII letter, digit or underscore, or any character outside ASCII. -/
def isNameChar (c : Char) : Bool := c.isAlphanum || c == '_' || !isAscii c

/-- A name starts with an ASCII letter, an underscore or any character outside ASCII. -/
def isNameStart (c : Char) : Bool := c.isAlpha || c == '_' || !isAscii c

def isHexDigit (c : Char) : Bool :=
  c.isDigit || ('a' ≤ c && c ≤ 'f') || ('A' ≤ c && c ≤ 'F')

def isOctalDigit (c : Char) : Bool := '0' ≤ c && c ≤ '7'

/-- An ASCII control character. -/
def isControl (c : Char) : Bool := c.toNat < 32 || c.toNat == 127

/-- The mark some editors put in front of a text. -/
def byteOrderMark : Char := '\ufeff'

/-- The code points with the property `White_Space`. -/
def spaceRanges : CodeRanges :=
  [(0x9, 0xD), (0x20, 0x20), (0x85, 0x85), (0xA0, 0xA0), (0x1680, 0x1680), (0x2000, 0x200A),
    (0x2028, 0x2029), (0x202F, 0x202F), (0x205F, 0x205F), (0x3000, 0x3000)]

def isSpace (c : Char) : Bool := spaceRanges.contains c.toNat

/-- Whether a quoted text shows the character as it is: it leaves a mark, and on its own. -/
def isPrintable (c : Char) : Bool := !GraphemeExtend.holds c && !Invisible.holds c

example : (List.range 128).all (fun n => isPrintable (Char.ofNat n) == !isControl (Char.ofNat n)) := by
  decide +kernel

end CharClass

end StackScript
