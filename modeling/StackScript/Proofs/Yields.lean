/-
What readers return, wherever they stand.

Much of what holds of a script that was read does not depend on the tokens at all: it follows from the readers it was
put together with.  `Yields` says that whatever a reader returns has a property, whatever stream it is handed; it is
followed one bind at a time, and what is read in a narrower window is read by the same reader.
-/
import StackScript.Parser.Basic

namespace StackScript

namespace Parse

variable {α β : Type} {P : α → Prop} {Q : β → Prop}

/-- Whatever the reader returns has the property. -/
def Yields (p : Parse α) (P : α → Prop) : Prop := ∀ s, P (p.run s).1

namespace Yields

theorem pure {a : α} (h : P a) : Yields (pure a) P := fun _ => h

theorem bind {p : Parse α} {f : α → Parse β} (hp : Yields p P) (hf : ∀ a, P a → Yields (f a) Q) :
    Yields (p >>= f) Q := fun s => hf _ (hp s) _

/-- What is read first does not matter. -/
theorem behind {p : Parse α} {f : α → Parse β} (hf : ∀ a, Yields (f a) Q) : Yields (p >>= f) Q := fun _ => hf _ _

theorem ite {c : Prop} [Decidable c] {p q : Parse α} (hp : Yields p P) (hq : Yields q P) :
    Yields (if c then p else q) P := by
  split
  · exact hp
  · exact hq

theorem within {p : Parse α} (h : Yields p P) (start stop : Nat) : Yields (within start stop p) P := fun _ => h _

end Yields

end Parse

end StackScript
