import StackScript.BlockStack
import StackScript.ClassDef
import StackScript.Compilation
import StackScript.Config
import StackScript.ConstantPool
import StackScript.DataType
import StackScript.Diagnostic
import StackScript.Document
import StackScript.Failure
import StackScript.FunctionDef
import StackScript.Generator.Basic
import StackScript.Generator.Control
import StackScript.Generator.Function
import StackScript.Generator.Leaf
import StackScript.Generator.Operation
import StackScript.Generator.Statement
import StackScript.Generator.Table
import StackScript.Instruction
import StackScript.Keyword
import StackScript.Number.Binary64
import StackScript.Number.Literal
import StackScript.Opcode
import StackScript.Operator
import StackScript.Parser.Basic
import StackScript.Parser.Block
import StackScript.Parser.Class
import StackScript.Parser.Control
import StackScript.Parser.Declaration
import StackScript.Parser.Function
import StackScript.Parser.Leaf
import StackScript.Parser.Statement
import StackScript.Problem
import StackScript.Program
import StackScript.Program.Listing
import StackScript.Reporter
import StackScript.Script
import StackScript.Span
import StackScript.Text.CharClass
import StackScript.Text.CodeRanges
import StackScript.Text.Digest
import StackScript.Text.GraphemeExtend
import StackScript.Text.Invisible
import StackScript.Text.Quoted
import StackScript.Text.StringLiteral
import StackScript.Token
import StackScript.Token.Lexer
import StackScript.TokenStream
import StackScript.Tree
import StackScript.Tree.Builder
import StackScript.Proofs.Aims
import StackScript.Proofs.Balance
import StackScript.Proofs.Blocks
import StackScript.Proofs.Code
import StackScript.Proofs.Constants
import StackScript.Proofs.Expression
import StackScript.Proofs.Filing
import StackScript.Proofs.Handlers
import StackScript.Proofs.Jumps
import StackScript.Proofs.Kept
import StackScript.Proofs.Layout
import StackScript.Proofs.Level
import StackScript.Proofs.Origin
import StackScript.Proofs.References
import StackScript.Proofs.Run
import StackScript.Proofs.Run.Compilation
import StackScript.Proofs.Run.Control
import StackScript.Proofs.Run.Function
import StackScript.Proofs.Run.Leaf
import StackScript.Proofs.Run.Operation
import StackScript.Proofs.Run.Script
import StackScript.Proofs.Simulation
import StackScript.Proofs.Step
import StackScript.Proofs.Structured
import StackScript.Proofs.Tables
import StackScript.Proofs.Targets
import StackScript.Proofs.Verdicts
import StackScript.Proofs.Walk
import StackScript.Proofs.Checks
import StackScript.Proofs.Stack.Depth
import StackScript.Proofs.Stack.Leaf
import StackScript.Proofs.Stack.Poise
import StackScript.Proofs.Stack.Compilation
import StackScript.Proofs.Delivery
import StackScript.Proofs.Enclosing
import StackScript.Proofs.Joins
import StackScript.Proofs.Precedence
import StackScript.Proofs.Likeness.Settings
import StackScript.Proofs.Ranges.Window
import StackScript.Proofs.Recovery
import StackScript.Proofs.Leftovers
import StackScript.Proofs.Resumption
import StackScript.Proofs.Lexing.Partition
import StackScript.Proofs.Lexing.Rendering
import StackScript.Proofs.Printing.Building
import StackScript.Proofs.Document.Slices
import StackScript.Proofs.Document.Comments
import StackScript.Proofs.Scopes
import StackScript.Proofs.Termination
import StackScript.Proofs.Assignment
import StackScript.Proofs.Destructuring
import StackScript.Proofs.Demands
import StackScript.Proofs.Filled
import StackScript.Proofs.Quoting
import StackScript.Proofs.Numerals
import StackScript.Proofs.Interpolation.Groups
import StackScript.Proofs.Rescue
import StackScript.Proofs.Registry
import StackScript.Proofs.ClassDeclarations
import StackScript.Proofs.Yields
import StackScript.Proofs.DeclarationScope
import StackScript.Proofs.Subscripts
import StackScript.Proofs.Classes.Declarations
import StackScript.Proofs.Relocation.Script
import StackScript.Proofs.Delimiting.Code
import StackScript.Proofs.Sharing
import StackScript.Proofs.Settling
import StackScript.Proofs.Ranges.Scans
import StackScript.Proofs.Naming.Closures
