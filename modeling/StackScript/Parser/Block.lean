/-
Blocks: statements in braces, or a single statement in their place.
-/
import StackScript.Parser.Basic

namespace StackScript

namespace Parse

/-- The statements up to the closing brace, and whether there is one.  Each round takes a token, so at
most `n` rounds are needed for a window of `n` tokens and its end. -/
def blockItems (r : Readers) : Nat → Parse (List Stmt × Bool)
  | 0 => return ([], false)
  | n + 1 => do
    match ← peek with
    | none => return ([], false)
    | some t =>
      if t.is .closeBrace then
        advance
        return ([], true)
      else
        let item ← r.stmt
        let (items, closed) ← blockItems r n
        return (item :: items, closed)

/-- The brace block at the cursor. -/
def braces (r : Readers) : Parse Stmt := do
  let start ← line
  advance
  let (items, closed) ← blockItems r ((← get).remaining + 1)
  return .block items (if closed then none else some start)

/-- The body of a construct: a brace block or one statement, with the semicolons behind it. -/
def block (r : Readers) : Parse Stmt := do
  let body ← if ← check [.openBrace] then braces r else r.stmt
  skipSemicolons
  return body

end Parse

end StackScript
