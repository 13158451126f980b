/-
The leaves of expression trees are runs.
-/
import StackScript.Proofs.Run.Operation

namespace StackScript

namespace Gen

theorem valued_restrict (restriction : Option Restriction) (root : Tree Leaf) :
    Valued (restrict restriction root) := by
  unfold restrict
  split
  · exact valued_report _ _
  · exact Valued.pure ()

/-! ### Constants -/

theorem emits_number (t : Token) : Emits (number t) := by
  unfold number
  split
  · split
    · exact emits_int _
    · split
      · exact emits_real _
      · exact Emits.behind (valued_report _ _) fun _ => emits_int _
  · exact emits_real _

theorem emits_nameOrNull (name : Option String) : Emits (nameOrNull name) := by
  cases name with
  | none => exact emits_loadSlot (Nat.zero_le _)
  | some text => exact emits_string text

theorem valued_currentClass : Valued currentClass := by
  refine Valued.get.bind fun s => ?_
  split <;> exact Valued.pure _

theorem valued_currentFunction : Valued currentFunction := by
  refine Valued.get.bind fun s => ?_
  split <;> exact Valued.pure _

theorem valued_notePath (path : Option Nat) : Valued (notePath path) := by
  cases path with
  | none => exact Valued.pure ()
  | some line => exact valued_noteNamespaces line

theorem literalSlot_le {name : String} {slot : Nat} (h : literalSlot? name = some slot) :
    slot ≤ ConstantPool.falseSlot := by
  unfold literalSlot? at h
  split at h <;> cases h <;> decide

theorem emits_name (path : Option Nat) (t : Token) : Emits (name path t) := by
  refine Emits.behind (valued_notePath path) fun _ => ?_
  split
  · exact emits_loadSlot (literalSlot_le ‹_›)
  · split
    · exact emits_int _
    · exact Emits.behind Valued.get fun _ => emits_string _
    · exact Emits.behind Valued.get fun _ => emits_string _
    · exact Emits.behind valued_currentClass fun _ => emits_nameOrNull _
    · exact Emits.behind valued_currentFunction fun _ => emits_nameOrNull _
    · exact Emits.behind valued_currentFunction fun _ => emits_nameOrNull _
    · exact emits_intern (fun _ => ConstantPool.Grows.refl.string _) (fun p => p.addString_lt _) 1

/-! ### Variables -/

theorem valued_lookUp (access : Access) (n : Nat) : Valued (lookUp access n) := by
  induction n with
  | zero => exact Valued.pure ()
  | succ n ih => exact (emits_put rfl _ _ _ (by decide) (by exact fun _ => trivial)).valued.bind fun _ => ih

theorem emits_loadVariable (access : Access) (line : Nat) (name : String) (extra : Nat) :
    Emits (loadVariable access line name extra) :=
  Emits.behind (valued_setLine line) fun _ =>
    (emits_put rfl _ _ _ (by decide) (by exact fun _ => trivial)).bind fun _ => valued_lookUp access extra

theorem valued_cutShort (stray : Option Nat) : Valued (cutShort stray) := by
  cases stray with
  | none => exact Valued.pure ()
  | some line => exact valued_report _ _

theorem emits_computedVariable (access : Access) (line braceLine : Nat) (isPresent : Bool) {name : Gen Unit}
    (h : Valued name) (stray : Option Nat) (extra : Nat) :
    Emits (computedVariable access line braceLine isPresent name stray extra) := by
  refine Emits.behind (valued_setLine braceLine) fun _ => Emits.behind h fun _ =>
    Emits.behind (valued_cutShort stray) fun _ => ?_
  split
  · exact (emits_put rfl _ _ _ (by decide) (by exact fun _ => trivial)).bind fun _ => valued_lookUp access extra
  · exact emits_report _ rfl

theorem emits_blankVariable (line braceLine : Nat) : Emits (blankVariable line braceLine) :=
  Emits.behind (valued_setLine braceLine) fun _ => emits_report _ rfl

/-! ### Collections and calls -/

theorem valued_joinPieces (count : Nat) : Valued (joinPieces count) := by
  unfold joinPieces
  split
  · exact (emits_put rfl _ _ _ (by decide) (by exact fun _ => trivial)).valued
  · exact Valued.pure ()

variable {value key entries targets argument : Gen Unit}

theorem valued_item (mark : ItemMark) (h : Valued value) : Valued (item mark value) := by
  refine h.bind fun _ => ?_
  split
  · exact (emits_put rfl _ _ _ (by decide) (by exact fun _ => trivial)).valued
  · exact valued_cutShort _

theorem valued_plainEntry (line : Nat) (h : Valued value) : Valued (plainEntry line value) :=
  (valued_setLine line).bind fun _ => (emits_loadSlot (Nat.zero_le _)).valued.bind fun _ => h

theorem valued_keyedEntry (line : Nat) (hk : Valued key) (hv : Valued value) :
    Valued (keyedEntry line key value) :=
  (valued_setLine line).bind fun _ => hk.bind fun _ => hv

theorem valued_unkeyedEntry (line : Nat) (h : Valued value) : Valued (unkeyedEntry line value) :=
  (valued_setLine line).bind fun _ => (valued_report _ _).bind fun _ =>
    (emits_loadSlot (Nat.zero_le _)).valued.bind fun _ => h

theorem emits_array (count : Nat) (h : Valued entries) (incomplete : Option Nat) :
    Emits (array count entries incomplete) := by
  refine Emits.behind h fun _ => ?_
  split
  · exact Emits.behind (valued_setLine _) fun _ => emits_report _ rfl
  · exact emits_put rfl _ _ _ (by decide) (by exact fun _ => trivial)

theorem emits_list (count : Nat) (h : Valued targets) : Emits (list count targets) :=
  Emits.behind h fun _ => emits_put rfl _ _ _ (by decide) (by exact fun _ => trivial)

theorem emits_construct (word : String) (isPresent : Bool) (h : Valued argument) :
    Emits (construct word isPresent argument) :=
  Emits.behind h fun _ => (emits_string word).bind fun _ => (emits_put rfl _ _ _ (by decide) (by exact fun _ => trivial)).valued

end Gen

end StackScript
