/-
What a structured script does, step by step.

A step is the evaluation of a condition or of an expression statement.  What it computes does not matter
here: an oracle that is told all the steps so far says whether the last one came out true.  Conditionals,
loops and jumps decide which step comes next, and they are given two meanings: `Stmt.exec` follows the
constructs of a script, and `Walker` the jumps of its code, where the code of every expression is passed in
one go.

A script may run forever, so `Stmt.exec` has some fuel for the rounds of its loops.  Where the fuel is not
enough it still tells the steps made up to then.
-/
import StackScript.Script

namespace StackScript

/-- Says of the last one of some steps whether it came out true. -/
abbrev Oracle := List Expr → Bool

/-- How a statement ends. -/
inductive Ending where
  | normal
  /-- A jump on an enclosing loop, counted from the innermost one. -/
  | jump (kind : LoopJump) (level : Nat)
  /-- The fuel ran out. -/
  | unfinished
deriving DecidableEq

/-- How far a statement got: how it ended, and all steps made up to then. -/
structure Progress where
  ending : Ending
  trace : List Expr

/-- What comes of one round of a loop. -/
inductive Round where
  | again (trace : List Expr)
  | out (progress : Progress)

/-- Evaluates an expression, if there is one. -/
def Expr.take (e : Expr) (trace : List Expr) : List Expr := if e.isPresent then trace ++ [e] else trace

namespace Progress

/-- Goes on with what follows, unless something keeps control from getting there. -/
def andThen (p : Progress) (next : List Expr → Progress) : Progress :=
  match p.ending with
  | .normal => next p.trace
  | _ => p

/-- What the end of its body means for a loop: it goes on with what follows the body, or the loop is left.
Levels below two mean the loop itself. -/
def inLoop (p : Progress) (next : List Expr → Round) : Round :=
  match p.ending with
  | .normal => next p.trace
  | .jump .continue_ level =>
    if level ≤ 1 then next p.trace else .out ⟨.jump .continue_ (level - 1), p.trace⟩
  | .jump .break_ level =>
    if level ≤ 1 then .out ⟨.normal, p.trace⟩ else .out ⟨.jump .break_ (level - 1), p.trace⟩
  | .unfinished => .out p

end Progress

/-- Makes rounds until one leads out. -/
def rounds (round : Nat → List Expr → Round) : Nat → List Expr → Progress
  | 0, trace => ⟨.unfinished, trace⟩
  | n + 1, trace =>
    match round (n + 1) trace with
    | .again trace => rounds round n trace
    | .out p => p

mutual

/-- The statements that consist of blocks, conditionals with conditions, loops, jumps and expressions. -/
def Stmt.isStructured : Stmt → Bool
  | .empty | .expression _ | .loopJump _ _ _ _ => true
  | .sequence items | .block items _ => Stmt.allStructured items
  | .onLine _ body => body.isStructured
  | .conditional chain => chain.isStructured
  | .whileLoop test _ body => test.isPresent && body.isStructured
  | .doLoop body test _ => body.isStructured && test.isPresent
  | .forLoop _ (.expression _) _ _ body _ _ => body.isStructured
  | _ => false

def Stmt.allStructured : List Stmt → Bool
  | [] => true
  | s :: ss => s.isStructured && Stmt.allStructured ss

def Chain.isStructured : Chain → Bool
  | .branch test _ body rest => test.isPresent && body.isStructured && rest.isStructured
  | .otherwise body => body.isStructured
  | .malformed _ => false
  | .done => true

end

/-- The statements of a script, when all of them are structured. -/
def Script.structured? : Script → Option (List Stmt)
  | .statements items => if Stmt.allStructured items then some items else none
  | .expression _ _ => none

mutual

/-- Runs a structured statement behind the steps made so far. -/
def Stmt.exec (ask : Oracle) : Stmt → Nat → List Expr → Progress
  | .expression value, _, trace => ⟨.normal, value.take trace⟩
  | .sequence items, fuel, trace | .block items _, fuel, trace => Stmt.execAll ask items fuel trace
  | .onLine _ body, fuel, trace => body.exec ask fuel trace
  | .conditional chain, fuel, trace => chain.exec ask fuel trace
  | .whileLoop test _ body, fuel, trace =>
    rounds (fun n trace =>
      if ask (trace ++ [test]) then (body.exec ask n (trace ++ [test])).inLoop .again
      else .out ⟨.normal, trace ++ [test]⟩) fuel trace
  | .doLoop body test _, fuel, trace =>
    rounds (fun n trace => (body.exec ask n trace).inLoop fun trace =>
      if ask (trace ++ [test]) then .again (trace ++ [test])
      else .out ⟨.normal, trace ++ [test]⟩) fuel trace
  | .forLoop _ init test _ body post _, fuel, trace =>
    (init.exec ask fuel trace).andThen fun trace =>
      rounds (fun n trace =>
        if !test.isPresent || ask (test.take trace) then
          (body.exec ask n (test.take trace)).inLoop fun trace => .again (post.take trace)
        else .out ⟨.normal, test.take trace⟩) fuel trace
  | .loopJump kind _ level _, _, trace => ⟨.jump kind level, trace⟩
  | _, _, trace => ⟨.normal, trace⟩

def Stmt.execAll (ask : Oracle) : List Stmt → Nat → List Expr → Progress
  | [], _, trace => ⟨.normal, trace⟩
  | s :: ss, fuel, trace => (s.exec ask fuel trace).andThen fun trace => Stmt.execAll ask ss fuel trace

def Chain.exec (ask : Oracle) : Chain → Nat → List Expr → Progress
  | .branch test _ body rest, fuel, trace =>
    if ask (trace ++ [test]) then body.exec ask fuel (trace ++ [test])
    else rest.exec ask fuel (trace ++ [test])
  | .otherwise body, fuel, trace => body.exec ask fuel trace
  | _, _, trace => ⟨.normal, trace⟩

end

/-! ### The code -/

/-- The code of an expression, from `start` up to `stop`. -/
structure Segment where
  start : Nat
  stop : Nat
  expr : Expr

/-- Some code, and where the code of its expressions starts. -/
structure Sheet where
  code : Code
  at? : Nat → Option Segment

/-- A machine that follows the jumps of some code. -/
structure Walker where
  pc : Nat
  /-- Whether the values on the stack are true. -/
  stack : List Bool
  trace : List Expr

namespace Walker

/-- At the start of the code. -/
def start : Walker := ⟨0, [], []⟩

/-- A conditional jump on the top of the stack: it is taken when the value is `truth`, and a number other
than zero keeps the value. -/
def branch (x : Instruction) (truth : Bool) (w : Walker) : Option Walker :=
  match w.stack with
  | [] => none
  | v :: rest => some ⟨if v = truth then x.p2 else w.pc + 1, if x.p1 = 0 then rest else v :: rest, w.trace⟩

/-- What an instruction does that belongs to no expression. -/
def exec (x : Instruction) (w : Walker) : Option Walker :=
  match x.op with
  | .jmp => some { w with pc := x.p2 }
  | .jmpz => w.branch x false
  | .jmpnz => w.branch x true
  | .pop =>
    if x.p1.toNat ≤ w.stack.length then some { w with pc := w.pc + 1, stack := w.stack.drop x.p1.toNat } else none
  | _ => none

end Walker

namespace Sheet

variable (S : Sheet)

/-- One move: past the code of a whole expression, which leaves its value on the stack, or one
instruction. -/
def move (ask : Oracle) (w : Walker) : Option Walker :=
  match S.at? w.pc with
  | some g => some ⟨g.stop, ask (w.trace ++ [g.expr]) :: w.stack, w.trace ++ [g.expr]⟩
  | none => S.code[w.pc]?.bind fun x => w.exec x

/-- So many moves. -/
def moves (ask : Oracle) : Nat → Walker → Option Walker
  | 0, w => some w
  | n + 1, w => (S.move ask w).bind (moves ask n)

/-- The walker stands where the code returns, with nothing left on the stack. -/
def isDone (w : Walker) : Bool :=
  (S.at? w.pc).isNone && S.code[w.pc]?.map Instruction.op == some .done && w.stack.isEmpty

end Sheet

end StackScript
