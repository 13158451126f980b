/-
The 64-bit XXH64 digest of a byte sequence, with seed zero.

Long inputs are folded through four lanes, 32 bytes at a time; what is left over is folded in words of
eight, four and one bytes, and the result is mixed once more so that every bit of the input reaches
every bit of the digest.
-/
namespace StackScript

namespace Digest

def prime1 : UInt64 := 0x9E3779B185EBCA87
def prime2 : UInt64 := 0xC2B2AE3D27D4EB4F
def prime3 : UInt64 := 0x165667B19E3779F9
def prime4 : UInt64 := 0x85EBCA77C2B2AE63
def prime5 : UInt64 := 0x27D4EB2F165667C5

def rotate (x : UInt64) (k : UInt64) : UInt64 := (x <<< k) ||| (x >>> (64 - k))

/-- The bytes as one little-endian word. -/
def word (bytes : List UInt8) : UInt64 :=
  bytes.foldr (fun b acc => (acc <<< 8) ||| b.toUInt64) 0

/-- One lane takes in one word. -/
def mixLane (acc lane : UInt64) : UInt64 := rotate (acc + lane * prime2) 31 * prime1

/-- The state takes in one finished lane. -/
def mergeLane (acc lane : UInt64) : UInt64 := (acc ^^^ mixLane 0 lane) * prime1 + prime4

/-- The four lanes of a long input. -/
structure Lanes where
  a : UInt64
  b : UInt64
  c : UInt64
  d : UInt64

namespace Lanes

def start : Lanes := ⟨prime1 + prime2, prime2, 0, 0 - prime1⟩

/-- Each lane takes in its eight bytes of a block of 32. -/
def absorb (l : Lanes) (block : List UInt8) : Lanes :=
  ⟨mixLane l.a (word (block.take 8)),
    mixLane l.b (word ((block.drop 8).take 8)),
    mixLane l.c (word ((block.drop 16).take 8)),
    mixLane l.d (word ((block.drop 24).take 8))⟩

def join (l : Lanes) : UInt64 :=
  let sum := rotate l.a 1 + rotate l.b 7 + rotate l.c 12 + rotate l.d 18
  mergeLane (mergeLane (mergeLane (mergeLane sum l.a) l.b) l.c) l.d

end Lanes

/-- Folds `blocks` blocks of 32 bytes. -/
def foldBlocks : Nat → Lanes → List UInt8 → Lanes
  | 0, l, _ => l
  | n + 1, l, bytes => foldBlocks n (l.absorb bytes) (bytes.drop 32)

/-- Folds `words` words of eight bytes. -/
def foldWords : Nat → UInt64 → List UInt8 → UInt64
  | 0, h, _ => h
  | n + 1, h, bytes =>
    foldWords n (rotate (h ^^^ mixLane 0 (word (bytes.take 8))) 27 * prime1 + prime4) (bytes.drop 8)

/-- Folds one half word of four bytes. -/
def foldHalf (h : UInt64) (bytes : List UInt8) : UInt64 :=
  rotate (h ^^^ (word (bytes.take 4) * prime1)) 23 * prime2 + prime3

def foldByte (h : UInt64) (b : UInt8) : UInt64 :=
  rotate (h ^^^ (b.toUInt64 * prime5)) 11 * prime1

/-- The last mixing step. -/
def avalanche (h : UInt64) : UInt64 :=
  let h := (h ^^^ (h >>> 33)) * prime2
  let h := (h ^^^ (h >>> 29)) * prime3
  h ^^^ (h >>> 32)

/-- The digest of a byte sequence. -/
def ofBytes (bytes : List UInt8) : UInt64 :=
  let len := bytes.length
  let head := if 32 ≤ len then (foldBlocks (len / 32) Lanes.start bytes).join else prime5
  let tail := bytes.drop (len / 32 * 32)
  let words := tail.length / 8
  let h := foldWords words (head + UInt64.ofNat len) tail
  let tail := tail.drop (words * 8)
  if 4 ≤ tail.length then
    avalanche ((tail.drop 4).foldl foldByte (foldHalf h tail))
  else
    avalanche (tail.foldl foldByte h)

/-- The digest of a text's UTF-8 bytes. -/
def ofString (s : String) : UInt64 := ofBytes s.toUTF8.toList

example : ofBytes [] = 0xEF46DB3751D8E999 := by decide +kernel

end Digest

end StackScript
