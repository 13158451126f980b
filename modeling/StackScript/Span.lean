/-
Where a lexeme starts and how long it is.

Lines and columns count from one, and a column counts UTF-8 bytes, so a span says where an editor has
to put its caret without looking at the text again.
-/
namespace StackScript

/-- A stretch of source text on one line. -/
structure Span where
  line : Nat
  col : Nat
  len : Nat
deriving DecidableEq, Inhabited

namespace Span

/-- The empty span at a position. -/
def point (line col : Nat) : Span := ⟨line, col, 0⟩

def isEmpty (s : Span) : Bool := s.len == 0

/-- The same span, counted from line `first` of an enclosing text instead of line one. -/
def offsetLines (s : Span) (first : Nat) : Span := { s with line := s.line + (first - 1) }

/-- A span is written as the position it starts at. -/
def text (s : Span) : String := s!"{s.line}:{s.col}"

@[simp] theorem offsetLines_one (s : Span) : s.offsetLines 1 = s := rfl

theorem offsetLines_col (s : Span) (n : Nat) : (s.offsetLines n).col = s.col := rfl

theorem isEmpty_point (line col : Nat) : (point line col).isEmpty = true := rfl

end Span

/-- A running position in a text: the line, and the column in UTF-8 bytes. -/
structure Position where
  line : Nat
  col : Nat
deriving DecidableEq, Inhabited

namespace Position

/-- The position after one more character. -/
def step (p : Position) (c : Char) : Position :=
  if c = '\n' then ⟨p.line + 1, 1⟩ else ⟨p.line, p.col + c.utf8Size⟩

/-- The position after a run of characters. -/
def advance (p : Position) (cs : List Char) : Position := cs.foldl step p

/-- The span of `len` bytes that starts here. -/
def span (p : Position) (len : Nat) : Span := ⟨p.line, p.col, len⟩

@[simp] theorem advance_nil (p : Position) : p.advance [] = p := rfl

@[simp] theorem advance_cons (p : Position) (c : Char) (cs : List Char) :
    p.advance (c :: cs) = (p.step c).advance cs := rfl

theorem advance_append (p : Position) (xs ys : List Char) :
    p.advance (xs ++ ys) = (p.advance xs).advance ys := by
  simp [advance, List.foldl_append]

/-- The line after a run is the line before it plus the line breaks in the run. -/
theorem line_advance (p : Position) (cs : List Char) :
    (p.advance cs).line = p.line + cs.count '\n' := by
  induction cs generalizing p with
  | nil => rfl
  | cons c cs ih =>
    rw [advance_cons, ih]
    by_cases h : c = '\n'
    · simp [step, h]; omega
    · simp [step, h]

/-- Within a line the column grows by the bytes of the run. -/
theorem col_advance (p : Position) (cs : List Char) (h : '\n' ∉ cs) :
    (p.advance cs).col = p.col + cs.foldr (fun c n => c.utf8Size + n) 0 := by
  induction cs generalizing p with
  | nil => rfl
  | cons c cs ih =>
    have hc : c ≠ '\n' := fun e => h (by simp [e])
    have hcs : '\n' ∉ cs := fun m => h (List.mem_cons_of_mem _ m)
    rw [advance_cons, ih _ hcs]
    simp [step, hc]
    omega

end Position

end StackScript
