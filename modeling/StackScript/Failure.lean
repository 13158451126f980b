/-
Why there is no program.

A compilation stops early when it reports too many errors.  One that runs to its end and reported any
error at all yields no program either, and a document whose tags cannot be read is not compiled.
-/
namespace StackScript

/-- A condition that stops a compilation at once. -/
inductive Abort where
  | errorLimit (limit : Nat)
  | internal (message : String)
deriving DecidableEq

namespace Abort

def message : Abort → String
  | errorLimit limit =>
    "error count limit (" ++ toString limit ++ ") reached, compilation aborted"
  | internal message => "internal compiler error: " ++ message

end Abort

/-- Why a compilation has no program to show. -/
inductive Failure where
  | aborted (cause : Abort)
  | failed (errors : Nat)
  | unreadableTag
deriving DecidableEq

namespace Failure

def message : Failure → String
  | aborted cause => cause.message
  | failed errors => "compilation failed with " ++ toString errors ++ " error(s)"
  | unreadableTag => "a tag of the document ends inside a character"

end Failure

end StackScript
