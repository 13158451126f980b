/-
A program as text.

Every container is listed under a title, one instruction a line, and the constants follow.  Jump targets
count within their own container.
-/
import StackScript.Program
import StackScript.Text.Quoted

namespace StackScript

/-- Code with the title it is listed under. -/
structure Container where
  title : String
  code : Code

namespace FunctionDef

/-- The containers of a function: default values, static variables, then the body. -/
def containers (f : FunctionDef) (title : String) : List Container :=
  (f.args.filterMap fun a => a.default?.map fun code => ⟨title ++ " default $" ++ a.name, code⟩) ++
    (f.statics.map fun v => ⟨title ++ " static $" ++ v.name, v.init⟩) ++ [⟨title, f.code⟩]

end FunctionDef

namespace ClassDef

/-- The containers of a class: the values of its attributes, then its methods. -/
def containers (c : ClassDef) : List Container :=
  (c.attributes.filterMap fun a =>
      a.init.map fun code => ⟨"attr " ++ c.name ++ "::$" ++ a.name, code⟩) ++
    c.methods.flatMap fun m =>
      m.function.containers ("method " ++ c.name ++ "::" ++ m.function.name)

end ClassDef

namespace Program

/-- Entries with their positions. -/
def numbered {α : Type} (xs : List α) : List (Nat × α) := xs.zipIdx.map fun (x, i) => (i, x)

/-- Every container of the program, the main one first. -/
def containers (p : Program) : List Container :=
  [⟨"main", p.main⟩] ++
    (p.functions.flatMap fun f =>
      f.containers ("function " ++ f.name ++ "(" ++ f.signatureKey.getD "" ++ ")")) ++
    ((numbered p.closures).flatMap fun (i, f) =>
      f.containers ("closure#" ++ toString i ++ " " ++ f.name)) ++
    (p.classes.flatMap ClassDef.containers) ++
    (p.namedConstants.map fun c => ⟨"const " ++ c.name, c.code⟩) ++
    ((numbered p.switches).flatMap fun (i, s) =>
      (numbered s.cases).map fun (j, c) =>
        ⟨"switch#" ++ toString i ++ " case " ++ toString j ++ " -> " ++
          Padding.left '0' 4 (toString c.start), c.guard⟩) ++
    ((numbered p.exceptions).flatMap fun (i, catches) =>
      catches.map fun c => ⟨"catch#" ++ toString i ++ " " ++ c.className ++ " $" ++ c.binding, c.code⟩)

end Program

namespace Listing

/-- One instruction: its index, mnemonic, numbers, operand and line, in columns. -/
def instruction (i : Nat) (instr : Instruction) : String :=
  "  " ++ Padding.left '0' 4 (toString i) ++ "  " ++ Padding.right 14 instr.op.mnemonic ++ " " ++
    Padding.left ' ' 5 (toString instr.p1) ++ " " ++ Padding.left ' ' 5 (toString instr.p2) ++ "  " ++
    Padding.right 10 instr.p3.text ++ " ; line " ++ toString instr.line ++ "\n"

def container (c : Container) : String :=
  c.title ++ ":\n" ++
    String.join ((Program.numbered c.code.toList).map fun (i, instr) => instruction i instr)

/-- The value of a constant: strings are quoted. -/
def value : Constant → String
  | .null => "null"
  | .bool true => "true"
  | .bool false => "false"
  | .int v => toString v.toInt
  | .real v => v.text
  | .string s => Quoted.quote s

def constant (i : Nat) (c : Constant) : String :=
  "  " ++ Padding.left ' ' 4 (toString i) ++ "  " ++ value c ++ "\n"

/-- The listing of a program. -/
def program (p : Program) : String :=
  String.join (p.containers.map container) ++ "constants:\n" ++
    String.join ((Program.numbered p.constants.constants).map fun (i, c) => constant i c)

end Listing

end StackScript
