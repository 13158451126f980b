/-
The steps of code generation that add to the tables of the program.
-/
import StackScript.Generator.Basic

namespace StackScript

namespace Gen

/-- Changes the program. -/
def modifyProgram (f : Program → Program) : Gen Unit := modify fun s => { s with program := f s.program }

/-! ### Tables that instructions refer to by number -/

/-- Reserves a switch table. -/
def reserveSwitch : Gen Nat :=
  modifyGet fun s =>
    (s.program.switches.length,
      { s with program := { s.program with switches := s.program.switches ++ [{}] } })

/-- Fills in a reserved switch table. -/
def fillSwitch (id : Nat) (table : SwitchTable) : Gen Unit :=
  modifyProgram fun p => { p with switches := p.switches.set id table }

def addForeach (table : ForeachTable) : Gen Nat :=
  modifyGet fun s =>
    (s.program.foreachs.length,
      { s with program := { s.program with foreachs := s.program.foreachs ++ [table] } })

/-- Reserves a table of catch clauses. -/
def reserveException : Gen Nat :=
  modifyGet fun s =>
    (s.program.exceptions.length,
      { s with program := { s.program with exceptions := s.program.exceptions ++ [[]] } })

/-- Adds a catch clause to a reserved table. -/
def addCatch (id : Nat) (entry : CatchEntry) : Gen Unit :=
  modifyProgram fun p => { p with exceptions := p.exceptions.modify id (· ++ [entry]) }

def addLink (link : ClassLink) : Gen Nat :=
  modifyGet fun s =>
    (s.program.classLinks.length,
      { s with program := { s.program with classLinks := s.program.classLinks ++ [link] } })

def addClosure (f : FunctionDef) : Gen Nat :=
  modifyGet fun s =>
    (s.program.closures.length,
      { s with program := { s.program with closures := s.program.closures ++ [f] } })

/-! ### Names -/

/-- Installs a function; `false` when it clashes with another one. -/
def installFunction (f : FunctionDef) : Gen Bool :=
  modifyGet fun s =>
    match s.program.installFunction? f with
    | some program => (true, { s with program := program })
    | none => (false, s)

/-- Installs a class; `false` when there is one of this name. -/
def installClass (c : ClassDef) : Gen Bool :=
  modifyGet fun s =>
    match s.program.installClass? c with
    | some program => (true, { s with program := program })
    | none => (false, s)

def defineConstant (name : String) (code : Code) : Gen Unit :=
  modifyProgram fun p => { p with namedConstants := Program.defineConstant p.namedConstants name code }

/-- The name of the anonymous function with a number.  No declared function has such a name. -/
def closureName (n : Nat) : String := "\x7bclosure_" ++ toString n ++ "\x7d"

/-- The first number from `n` on whose name no function has; one of the next `fuel + 1` has none when
there are only `fuel` functions. -/
def freeClosure (p : Program) : (fuel n : Nat) → Nat
  | 0, n => n
  | fuel + 1, n => if (p.function? (closureName n)).isSome then freeClosure p fuel (n + 1) else n

/-- A name for the next anonymous function. -/
def nextClosureName : Gen String :=
  modifyGet fun s =>
    let n := freeClosure s.program s.program.functions.length s.closures
    (closureName n, { s with closures := n + 1 })

/-! ### Static variables -/

/-- Collects the static variables a function declares while its body is generated. -/
def collectingStatics {α : Type} (body : Gen α) : Gen (α × List StaticVar) := do
  modify fun s => { s with statics := [] :: s.statics }
  let result ← body
  modifyGet fun s => ((result, s.statics.headD []), { s with statics := s.statics.tail })

/-- Adds a static variable to the function being generated; `false` when there is none. -/
def addStatic (v : StaticVar) : Gen Bool :=
  modifyGet fun s =>
    match s.statics with
    | [] => (false, s)
    | frame :: frames => (true, { s with statics := (frame ++ [v]) :: frames })

end Gen

end StackScript
