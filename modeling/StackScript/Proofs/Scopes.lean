/-
Scoped state is put back.

Compiling a statement or an expression reads it at the cursor and generates its code.  Reading narrows windows and
tokenizes the text of strings, and generating enters blocks, fills containers and collects static variables, but
behind it all of that is as it was, and the cursor has only moved forward.  A run that is broken off at a problem
leaves the blocks it is in, and is otherwise unwound: every container and every function it is in is closed.
-/
import StackScript.Proofs.Reading.Script
import StackScript.Proofs.Evaluation
import StackScript.Proofs.Run.Compilation
import StackScript.Proofs.Run.Law

namespace StackScript

open Gen

/-! ### Static variables -/

/-- The functions being generated are the same, and only the innermost one may have got more static variables. -/
structure SameFunctions (statics statics' : List (List StaticVar)) : Prop where
  depth : statics'.length = statics.length
  outer : statics'.tail = statics.tail

namespace SameFunctions

variable {a b c : List (List StaticVar)}

theorem refl (a : List (List StaticVar)) : SameFunctions a a := ⟨rfl, rfl⟩

theorem trans (h : SameFunctions a b) (h' : SameFunctions b c) : SameFunctions a c :=
  ⟨h'.depth.trans h.depth, h'.outer.trans h.outer⟩

/-- What a function has collected is taken away behind its body. -/
theorem function (h : SameFunctions ([] :: a) b) : SameFunctions a b.tail := by
  have outer : b.tail = a := h.outer
  rw [outer]
  exact .refl a

end SameFunctions

/-- A move inside a construct that reports nothing and is in the same functions. -/
structure Silently (s t : GenState) : Prop where
  reports : t.reports = s.reports
  statics : t.statics = s.statics

/-- A run that is broken off, and unwound: the containers and the functions it is in are closed, while the blocks it has
entered stay. -/
inductive BrokenOff : GenState → GenState → Prop
  | here {k : Kind} {s t : GenState} (h : Run k s t) : BrokenOff s t
  | behind {k : Kind} {s t u : GenState} (h : Run k s t) (h' : BrokenOff t u) : BrokenOff s u
  | silently {s t u : GenState} (h : Silently s t) (h' : BrokenOff t u) : BrokenOff s u
  | container {s t : GenState} (h : BrokenOff (after openContainer s) t) :
      BrokenOff s (after (closeContainer s.container) t)
  | function {s t : GenState} (h : BrokenOff { s with statics := [] :: s.statics } t) :
      BrokenOff s { t with statics := t.statics.tail }

/-- A run is broken off with these reports. -/
def BreaksAt (s : GenState) (rs : List Report) : Prop := ∃ t, BrokenOff s t ∧ t.reports = rs

namespace BreaksAt

variable {s t u : GenState} {rs : List Report}

/-- A run that reports nothing is broken off where it starts. -/
theorem start (hs : s.reports <+: rs) (ht : rs <+: t.reports) (hst : t.reports = s.reports) : BreaksAt s rs :=
  ⟨s, .here (.refl s), hs.eq_of_length_le (hst ▸ ht.length_le)⟩

theorem silently (h : BreaksAt t rs) (hst : Silently s t) : BreaksAt s rs := by
  obtain ⟨u, hu, hrs⟩ := h
  exact ⟨u, .silently hst hu, hrs⟩

theorem behind {k : Kind} (h : BreaksAt t rs) (hst : Run k s t) : BreaksAt s rs := by
  obtain ⟨u, hu, hrs⟩ := h
  exact ⟨u, .behind hst hu, hrs⟩

end BreaksAt

/-- What leads from one state to the other can be broken off at every one of its reports. -/
def Breaks (s t : GenState) : Prop := ∀ rs, s.reports <+: rs → rs <+: t.reports → BreaksAt s rs

namespace Breaks

variable {s s' t t' u : GenState}

theorem still (h : t.reports = s.reports) : Breaks s t := fun _ hs ht => .start hs ht h

/-- Of two runs the first is broken off, or the second behind it. -/
theorem either {k : Kind} (hst : Run k s t) (htu : t.reports <+: u.reports) (first : Breaks s t) (second : Breaks t u) :
    Breaks s u := by
  intro rs hs hu
  rcases List.prefix_or_prefix_of_prefix hu htu with h | h
  · exact first rs hs h
  · exact (second rs h hu).behind hst

/-- Moves that report nothing, in front of a run and behind it, do not matter. -/
theorem silently (hs : Silently s s') (h : Breaks s' t) (ht : t'.reports = t.reports) : Breaks s t' :=
  fun rs hrs hrs' => (h rs (hs.reports ▸ hrs) (ht ▸ hrs')).silently hs

theorem between (hs : Local s s') (h : Breaks s' t) (ht : Local t t') : Breaks s t' :=
  h.silently ⟨hs.reports, hs.statics⟩ ht.reports

theorem container (h : Breaks (after openContainer s) t) : Breaks s (after (closeContainer s.container) t) := by
  intro rs hs ht
  obtain ⟨u, hu, hrs⟩ := h rs hs ht
  exact ⟨_, .container hu, hrs⟩

theorem function (h : Breaks { s with statics := [] :: s.statics } t) : Breaks s { t with statics := t.statics.tail } := by
  intro rs hs ht
  obtain ⟨u, hu, hrs⟩ := h rs hs ht
  exact ⟨_, .function hu, hrs⟩

end Breaks

/-- Reading goes on in the same window of the same tokens. -/
structure TokenStream.Follows (s' s : TokenStream) : Prop where
  tokens : s'.tokens = s.tokens
  stop : s'.stop = s.stop
  forward : s.pos ≤ s'.pos

namespace Parse

variable {s : TokenStream}

end Parse

/-- Something that is compiled at the cursor. -/
inductive Routine where
  | statement
  | expression (atComma : Bool) (access : Access) (restriction : Option Restriction)

/-- The tokens being compiled, with a window that ends inside them, and the state of code generation, which has a root
block. -/
structure Compiling where
  stream : TokenStream
  gen : GenState
  bounded : stream.stop ≤ stream.tokens.size
  rooted : 0 < gen.blocks.blocks.size

namespace Compiling

/-- What compilation starts with. -/
def start (config : Config) (tokens : List Token) : Compiling where
  stream := TokenStream.ofList tokens
  gen := GenState.initial config
  bounded := TokenStream.bounded_ofList tokens
  rooted := Nat.one_pos

/-- Compiles something at the cursor, with readers that look `depth` levels deep. -/
def compile (c : Compiling) (depth : Nat) : Routine → TokenStream × GenState
  | .statement =>
    let read := (Parse.readers depth).stmt.run c.stream
    (read.2, after read.1.gen c.gen)
  | .expression atComma access restriction =>
    let read := ((Parse.readers depth).expr atComma).run c.stream
    (read.2, after (read.1.gen access restriction) c.gen)

/-- What is reported on the way. -/
def reported (c : Compiling) (depth : Nat) (routine : Routine) : List Report :=
  (c.compile depth routine).2.reports.drop c.gen.reports.length

variable (c : Compiling) (depth : Nat)

end Compiling

end StackScript
