/-
The constructs that enclose the code being generated, and the jumps that wait for them.

Blocks are entered and left in stack order, so a block is known by its depth: the root is block zero and
every block lies inside the one before it.  A jump whose target is not known yet waits on the block that
will know it, and is filled in when the target is reached.
-/
import StackScript.Instruction

namespace StackScript

/-- What a block stands for; a block may stand for several things at once. -/
inductive BlockTag where
  /-- The root of a compilation. -/
  | global
  /-- A loop, or a switch. -/
  | loop
  | conditional
  /-- Set together with `loop`. -/
  | switch
  /-- The body of a function, method or closure. -/
  | function
  | class_
  /-- The body of a `try` or `catch`. -/
  | exception
  /-- Control flow may not leave past this block. -/
  | guarded
  | braces
deriving DecidableEq

namespace BlockTag

def all : List BlockTag :=
  [global, loop, conditional, switch, function, class_, exception, guarded, braces]

/-- The bit of a tag in a block's code. -/
def bit : BlockTag → Nat
  | global => 0x001
  | loop => 0x002
  | conditional => 0x004
  | switch => 0x008
  | function => 0x010
  | class_ => 0x020
  | exception => 0x040
  | guarded => 0x080
  | braces => 0x100

end BlockTag

/-- The function or class a block belongs to. -/
inductive BlockOwner where
  | none
  | function (name : String) (className : Option String)
  | class_ (name : String)
deriving DecidableEq

/-- A jump at an index of the container whose target is not known yet. -/
structure PendingJump where
  op : Opcode
  index : Nat
deriving DecidableEq

/-- One enclosing construct. -/
structure Block where
  tags : List BlockTag
  /-- Where `continue` goes in a loop that does not defer it. -/
  first : Nat
  owner : BlockOwner
  pending : List PendingJump := []
  /-- The jumps of `continue` when their target is known only behind the body. -/
  deferred : Option (List Nat) := none

namespace Block

/-- Whether the block stands for any of the tags. -/
def hasAny (b : Block) (tags : List BlockTag) : Bool := tags.any b.tags.contains

/-- Whether searches for an enclosing loop end at the block. -/
def isBoundary (b : Block) : Bool := b.hasAny [.guarded, .function]

/-- The code of the block's tags: one bit for each. -/
def code (b : Block) : Nat :=
  (BlockTag.all.filter b.tags.contains).foldr (fun t n => t.bit + n) 0

end Block

/-- The enclosing constructs, from the root inwards. -/
structure BlockStack where
  blocks : Array Block

namespace BlockStack

/-- Only the root. -/
def root : BlockStack := ⟨#[{ tags := [.global], first := 0, owner := .none }]⟩

/-- The innermost block. -/
def current (s : BlockStack) : Nat := s.blocks.size - 1

def get? (s : BlockStack) (id : Nat) : Option Block := s.blocks[id]?

/-- The block around a block. -/
def parent? (id : Nat) : Option Nat := if id = 0 then none else some (id - 1)

def modify (s : BlockStack) (id : Nat) (f : Block → Block) : BlockStack := ⟨s.blocks.modify id f⟩

/-- Enters a block and returns it. -/
def enter (s : BlockStack) (b : Block) : Nat × BlockStack := (s.blocks.size, ⟨s.blocks.push b⟩)

/-- Leaves the innermost block.  The root is never left. -/
def leave (s : BlockStack) : BlockStack := if s.blocks.size ≤ 1 then s else ⟨s.blocks.pop⟩

/-- The block that is left next: the innermost one, unless it is the root. -/
def leaving? (s : BlockStack) : Option Block := if s.blocks.size ≤ 1 then none else s.blocks.back?

/-- The blocks inside a block, which a jump on it leaves. -/
def inside (s : BlockStack) (id : Nat) : List Block := s.blocks.toList.drop (id + 1)

/-- Among the innermost blocks of the first `n`, the `count`-th one with any of the tags, without
crossing a boundary. -/
def enclosingFrom (s : BlockStack) (tags : List BlockTag) : (n count : Nat) → Option Nat
  | 0, _ => none
  | n + 1, count =>
    match s.get? n with
    | none => none
    | some b =>
      if b.hasAny tags && count ≤ 1 then some n
      else if b.isBoundary then none
      else s.enclosingFrom tags n (if b.hasAny tags then count - 1 else count)

/-- The `level`-th enclosing block with any of the tags, counted from the innermost one; levels below
two mean the first. -/
def enclosing? (s : BlockStack) (tags : List BlockTag) (level : Nat) : Option Nat :=
  s.enclosingFrom tags s.blocks.size level

/-- The innermost block of the first `n` with any of the tags. -/
def nearestFrom (s : BlockStack) (tags : List BlockTag) : Nat → Option Nat
  | 0 => none
  | n + 1 => if (s.get? n).any (·.hasAny tags) then some n else s.nearestFrom tags n

/-- The innermost block with any of the tags, across boundaries; the root when there is none. -/
def nearest (s : BlockStack) (tags : List BlockTag) : Nat := (s.nearestFrom tags s.blocks.size).getD 0

/-- The owner of the innermost block with any of the tags. -/
def nearestOwner? (s : BlockStack) (tags : List BlockTag) : Option BlockOwner :=
  (s.nearestFrom tags s.blocks.size).bind fun id => (s.get? id).map Block.owner

/-- Lets a jump wait on a block. -/
def await (s : BlockStack) (id : Nat) (op : Opcode) (index : Nat) : BlockStack :=
  s.modify id fun b => { b with pending := b.pending ++ [⟨op, index⟩] }

/-- Lets the jump of a `continue` wait on a block that defers it. -/
def awaitContinue (s : BlockStack) (id : Nat) (index : Nat) : BlockStack :=
  s.modify id fun b => { b with deferred := b.deferred.map (· ++ [index]) }

/-- Whether a block defers the jumps of `continue`. -/
def defers (s : BlockStack) (id : Nat) : Bool := (s.get? id).any (·.deferred.isSome)

/-- Whether a pass over the jumps of kind `op` (any kind when `none`) settles a waiting jump: it is of
that kind and inside the code. -/
def settles (op : Option Opcode) (code : Code) (j : PendingJump) : Bool :=
  op.all (· == j.op) && j.index < code.size

/-- Fills in the waiting jumps of a block that are of kind `op`, and returns how many they were. -/
def settle (s : BlockStack) (id : Nat) (op : Option Opcode) (target : Nat) (code : Code) :
    Nat × BlockStack × Code :=
  let pending := ((s.get? id).map Block.pending).getD []
  let now := pending.filter (settles op code)
  (now.length,
    s.modify id fun b => { b with pending := b.pending.filter fun j => !settles op code j },
    now.foldl (fun code j => code.patch j.index target) code)

/-- Fills in the deferred jumps of a block, and returns how many they were. -/
def settleContinue (s : BlockStack) (id : Nat) (target : Nat) (code : Code) :
    Nat × BlockStack × Code :=
  let deferred := ((s.get? id).bind Block.deferred).getD []
  (deferred.length,
    s.modify id fun b => { b with deferred := b.deferred.map fun _ => [] },
    deferred.foldl (fun code i => code.patch i target) code)

end BlockStack

end StackScript
