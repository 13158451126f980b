/-
Real constants as IEEE 754 binary64 numbers, held by their bits.

`ofDecimal` rounds an exact decimal to the nearest number, a half going to the even neighbour.  `text`
writes the fewest digits that read back as the same number, always positionally.  Both work on exact
natural numbers, so nothing here depends on how a machine rounds.
-/
namespace StackScript

/-- The `n`-th power of two. -/
def twoPow (n : Nat) : Nat := Nat.pow 2 n

/-- The `n`-th power of ten. -/
def tenPow (n : Nat) : Nat := Nat.pow 10 n

/-- A binary64 number by its bits. -/
structure Binary64 where
  bits : UInt64
deriving DecidableEq, Inhabited

namespace Binary64

/-- The exponent field. -/
def exponent (x : Binary64) : Nat := x.bits.toNat / twoPow 52 % twoPow 11

/-- The fraction field. -/
def fraction (x : Binary64) : Nat := x.bits.toNat % twoPow 52

def isNegative (x : Binary64) : Bool := twoPow 63 ≤ x.bits.toNat

def isNaN (x : Binary64) : Bool := x.exponent == 2047 && x.fraction != 0

def isInfinite (x : Binary64) : Bool := x.exponent == 2047 && x.fraction == 0

def isZero (x : Binary64) : Bool := x.exponent == 0 && x.fraction == 0

/-- Equality of values: the two zeros are one value, and so are all the not-a-numbers. -/
def same (x y : Binary64) : Bool :=
  x.bits == y.bits || (x.isZero && y.isZero) || (x.isNaN && y.isNaN)

def infinity : Binary64 := ⟨UInt64.ofNat (2047 * twoPow 52)⟩

/-- The quotient rounded to the nearest natural number, a half to the even one. -/
def roundHalfEven (num den : Nat) : Nat :=
  let n := num / den
  let r := num % den
  if den < 2 * r ∨ (2 * r = den ∧ n % 2 = 1) then n + 1 else n

/-- The largest `k` with `2 ^ k ≤ num / den`, for positive `num` and `den`. -/
def floorLog2 (num den : Nat) : Int :=
  let k : Int := (Nat.log2 num : Int) - Nat.log2 den
  let below : Bool := if 0 ≤ k then num < den * twoPow k.toNat else num * twoPow (-k).toNat < den
  if below then k - 1 else k

/-- The number nearest to a positive fraction. -/
def ofFraction (num den : Nat) : Binary64 :=
  let q : Int := max (floorLog2 num den - 52) (-1074)
  let n := if 0 ≤ q then roundHalfEven num (den * twoPow q.toNat)
    else roundHalfEven (num * twoPow (-q).toNat) den
  let bits := (q + 1074).toNat * twoPow 52 + n
  if 2047 * twoPow 52 ≤ bits then infinity else ⟨UInt64.ofNat bits⟩

/-- The number nearest to `mantissa · 10 ^ exponent`.  Magnitudes far outside the range are settled by
their number of digits, before any power is formed. -/
def ofDecimal (mantissa : Nat) (exponent : Int) : Binary64 :=
  let magnitude : Int := (Nat.toDigits 10 mantissa).length + exponent
  if mantissa = 0 ∨ magnitude < -330 then ⟨0⟩
  else if 310 < magnitude then infinity
  else if 0 ≤ exponent then ofFraction (mantissa * tenPow exponent.toNat) 1
  else ofFraction mantissa (tenPow (-exponent).toNat)

/-- A positive finite number as `significand · 2 ^ scale`. -/
def significand (x : Binary64) : Nat :=
  if x.exponent = 0 then x.fraction else twoPow 52 + x.fraction

def scale (x : Binary64) : Int := (if x.exponent = 0 then 1 else (x.exponent : Int)) - 1075

/-- The reals that round to a positive number, in quarters of its last place: from `low` to `high`,
ends included when `closed`, around the value `mid`, all over the fraction `unitNum / unitDen`. -/
structure Interval where
  low : Nat
  mid : Nat
  high : Nat
  closed : Bool
  unitNum : Nat
  unitDen : Nat

def interval (x : Binary64) : Interval :=
  let m := x.significand
  let q := x.scale - 2
  let narrow := x.fraction = 0 ∧ 1 < x.exponent
  { low := if narrow then 4 * m - 1 else 4 * m - 2
    mid := 4 * m
    high := 4 * m + 2
    closed := m % 2 == 0
    unitNum := twoPow q.toNat
    unitDen := twoPow (-q).toNat }

namespace Interval

/-- The value times `10 ^ (-p)`, rounded down. -/
def floorAt (i : Interval) (p : Int) : Nat :=
  i.mid * i.unitNum * tenPow (-p).toNat / (i.unitDen * tenPow p.toNat)

/-- Twice `c · 10 ^ p`, and twice a bound, over one denominator. -/
def point (i : Interval) (c : Nat) (p : Int) : Nat := c * tenPow p.toNat * i.unitDen

def bound (i : Interval) (b : Nat) (p : Int) : Nat := b * i.unitNum * tenPow (-p).toNat

/-- Whether `c · 10 ^ p` rounds to the number. -/
def contains (i : Interval) (c : Nat) (p : Int) : Bool :=
  let x := i.point c p
  if i.closed then i.bound i.low p ≤ x && x ≤ i.bound i.high p
  else i.bound i.low p < x && x < i.bound i.high p

/-- The multiple of `10 ^ p` next to the value that rounds to the number: the nearer one, and the upper
one when both are equally near. -/
def neighbour? (i : Interval) (p : Int) : Option Nat :=
  let c := i.floorAt p
  match i.contains c p, i.contains (c + 1) p with
  | true, true =>
    if i.bound i.mid p - i.point c p < i.point (c + 1) p - i.bound i.mid p then some c
    else some (c + 1)
  | true, false => some c
  | false, true => some (c + 1)
  | false, false => none

/-- The first grid, from coarse to fine, that has a neighbour. -/
def shortest (i : Interval) : Nat → Int → Nat × Int
  | 0, p => (i.floorAt p, p)
  | n + 1, p =>
    match i.neighbour? p with
    | some c => (c, p)
    | none => i.shortest n (p - 1)

/-- The position of the first digit: the `k` with `10 ^ k ≤ value < 10 ^ (k + 1)`. -/
def leading (i : Interval) : Nat → Int → Int
  | 0, k => k
  | n + 1, k => if i.floorAt k = 0 then i.leading n (k - 1) else k

end Interval

/-- A position at or a little above the first decimal digit, from the first binary one. -/
def leadingBound (x : Binary64) : Int := (Nat.log2 x.significand + x.scale + 1) * 30103 / 100000 + 2

/-- The fewest digits that read back as the positive number, as `c · 10 ^ p`. -/
def shortest (x : Binary64) : Nat × Int :=
  let i := x.interval
  i.shortest 20 (i.leading 6 x.leadingBound)

/-- Drops the zeros at the end. -/
def dropTrailingZeros (cs : List Char) : List Char := (cs.reverse.dropWhile (· == '0')).reverse

/-- `c · 10 ^ p` written positionally. -/
def positional (c : Nat) (p : Int) : List Char :=
  let digits := Nat.toDigits 10 c
  if 0 ≤ p then digits ++ List.replicate p.toNat '0'
  else
    let places := (-p).toNat
    let padded := List.replicate (places + 1 - digits.length) '0' ++ digits
    let whole := padded.take (padded.length - places)
    let part := dropTrailingZeros (padded.drop (padded.length - places))
    if part.isEmpty then whole else whole ++ '.' :: part

/-- The digits of the magnitude. -/
def magnitude (x : Binary64) : List Char :=
  if x.isInfinite then ['i', 'n', 'f']
  else if x.isZero then ['0']
  else positional x.shortest.1 x.shortest.2

/-- A real is written positionally, with the fewest digits that read back and no point after a whole
number. -/
def text (x : Binary64) : String :=
  if x.isNaN then "NaN"
  else String.ofList (if x.isNegative then '-' :: x.magnitude else x.magnitude)

example : (ofDecimal 15 (-1)).bits = 0x3ff8000000000000 := by decide +kernel

end Binary64

end StackScript
