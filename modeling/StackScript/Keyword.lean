/-
The reserved words.

A word that names a data type starts a declaration; a few others read like a call of a built-in.
-/
namespace StackScript

/-- A reserved word. -/
inductive Keyword where
  | auto | void | char | bool | int | float | string | object | callback | resource | mixed
  | if_ | else_ | elseif | while_ | do_ | for_ | foreach | as_ | switch | case_ | default_
  | break_ | continue_ | return_ | exit | try_ | catch_ | throw
  | class_ | interface | extends_ | implements | virtual | final_ | static_ | const_
  | public_ | private_ | protected_ | namespace_ | using_ | function
  | import_ | include_ | require | eval | self | parent | array | list
deriving DecidableEq

namespace Keyword

/-- Every spelling with the word it stands for; `elif` is another way to write `elseif`. -/
def table : List (String × Keyword) :=
  [("auto", auto), ("void", void), ("char", char), ("bool", bool), ("int", int), ("float", float),
    ("string", string), ("object", object), ("callback", callback), ("resource", resource),
    ("mixed", mixed), ("if", if_), ("else", else_), ("elseif", elseif), ("elif", elseif),
    ("while", while_), ("do", do_), ("for", for_), ("foreach", foreach), ("as", as_),
    ("switch", switch), ("case", case_), ("default", default_), ("break", break_),
    ("continue", continue_), ("return", return_), ("exit", exit), ("try", try_), ("catch", catch_),
    ("throw", throw), ("class", class_), ("interface", interface), ("extends", extends_),
    ("implements", implements), ("virtual", virtual), ("final", final_), ("static", static_),
    ("const", const_), ("public", public_), ("private", private_), ("protected", protected_),
    ("namespace", namespace_), ("using", using_), ("function", function), ("import", import_),
    ("include", include_), ("require", require), ("eval", eval), ("self", self), ("parent", parent),
    ("array", array), ("list", list)]

/-- The reserved word with this spelling. -/
def ofWord? (word : String) : Option Keyword := table.lookup word

/-- Whether the word names a data type. -/
def isType : Keyword → Bool
  | auto | void | char | bool | int | float | string | object | callback | resource | mixed => true
  | _ => false

/-- Whether the word compiles as a call of the built-in of the same name. -/
def isConstruct : Keyword → Bool
  | import_ | include_ | require | eval => true
  | _ => false

end Keyword

end StackScript
