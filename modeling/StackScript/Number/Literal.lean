/-
The values of number literals.

An integer literal is hexadecimal after `0x`, binary after `0b`, octal when it has a leading zero and
octal digits only, and decimal otherwise.  It fills the signed 64-bit range; the upper half of the
unsigned range wraps around, and anything larger has no integer value.
-/
import StackScript.Number.Binary64
import StackScript.Text.CharClass

namespace StackScript

/-- The value of one digit, letters counting from ten. -/
def digitValue (c : Char) : Nat :=
  if c.isDigit then c.toNat - '0'.toNat
  else if 'a' ≤ c && c ≤ 'z' then c.toNat - 'a'.toNat + 10
  else if 'A' ≤ c && c ≤ 'Z' then c.toNat - 'A'.toNat + 10
  else 0

/-- The value of a digit sequence. -/
def digitsValue (radix : Nat) (cs : List Char) : Nat :=
  cs.foldl (fun acc c => acc * radix + digitValue c) 0

/-- An integer literal: its value, or the radix in which it is too large. -/
inductive IntegerLiteral where
  | value (v : Int64)
  | overflow (radix : Nat)
deriving DecidableEq

namespace IntegerLiteral

/-- The radix of a literal and the digits after its mark. -/
def split : List Char → Nat × List Char
  | '0' :: 'x' :: ds => (16, ds)
  | '0' :: 'X' :: ds => (16, ds)
  | '0' :: 'b' :: ds => (2, ds)
  | '0' :: 'B' :: ds => (2, ds)
  | '0' :: d :: ds =>
    if (d :: ds).all CharClass.isOctalDigit then (8, d :: ds) else (10, '0' :: d :: ds)
  | ds => (10, ds)

/-- The literal with this value; the unsigned range wraps into the signed one. -/
def ofValue (radix v : Nat) : IntegerLiteral :=
  if v < twoPow 64 then .value (Int64.ofNat v) else .overflow radix

/-- Reads a literal. -/
def read (cs : List Char) : IntegerLiteral :=
  ofValue (split cs).1 (digitsValue (split cs).1 (split cs).2)

end IntegerLiteral

/-- A decimal literal: `whole.part e exponent`. -/
structure DecimalLiteral where
  whole : List Char
  part : List Char
  exponent : Int

namespace DecimalLiteral

/-- The exponent after its mark, with an optional sign. -/
def readExponent : List Char → Int
  | '-' :: ds => -(digitsValue 10 ds : Int)
  | '+' :: ds => digitsValue 10 ds
  | ds => digitsValue 10 ds

/-- Takes a literal apart at its point and its exponent mark. -/
def split (cs : List Char) : DecimalLiteral :=
  let whole := cs.takeWhile Char.isDigit
  let rest := cs.dropWhile Char.isDigit
  let part := match rest with
    | '.' :: ds => ds.takeWhile Char.isDigit
    | _ => []
  let rest := match rest with
    | '.' :: ds => ds.dropWhile Char.isDigit
    | _ => rest
  let exponent := match rest with
    | _ :: ds => readExponent ds
    | [] => 0
  ⟨whole, part, exponent⟩

/-- The real nearest to the literal. -/
def value (d : DecimalLiteral) : Binary64 :=
  Binary64.ofDecimal (digitsValue 10 (d.whole ++ d.part)) (d.exponent - d.part.length)

end DecimalLiteral

/-- Reads a decimal literal as a real. -/
def readReal (cs : List Char) : Binary64 := (DecimalLiteral.split cs).value

end StackScript
