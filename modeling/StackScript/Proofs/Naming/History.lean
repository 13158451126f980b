/-
How functions come by their names.

An anonymous function draws the next number before its body is generated, and it is loaded behind the body, in which
other functions may have been declared and loaded.  `Naming` lists what happens to names from one state to another:
only the loads count, and the rest draws no number and puts nothing but declared functions into a table.  From a state
in which no name has a number that is still to be drawn (`GenState.Fresh`), the numbers are drawn in a row, so no name
comes up twice (`Naming.gives`).
-/
import StackScript.Proofs.Constants
import StackScript.Proofs.Naming.Mentions

namespace StackScript

open Gen

/-! ### Names with numbers -/

namespace Gen

theorem closureName_injective {m n : Nat} (h : closureName m = closureName n) : m = n := by
  have digits := congrArg String.toList h
  simp only [closureName, String.toList_append] at digits
  have digits := List.append_cancel_left (List.append_cancel_right digits)
  have number := congrArg (fun ds => Nat.ofDigitChars 10 ds 0) digits
  simpa [Nat.toString_eq_ofList_toDigits] using number

/-- No declared function can have the name of an anonymous one. -/
theorem not_isName_closureName (n : Nat) : ¬IsName (closureName n) := by
  have brace : CharClass.isNameStart '\x7b' = false := by decide
  simp [IsName, closureName, String.toList_append, brace]

end Gen

/-! ### Histories -/

/-- An anonymous function, and the state in which it is loaded. -/
structure Load where
  function : FunctionDef
  before : GenState

namespace Load

def name (l : Load) : String := l.function.name

/-- The function takes no variables along: it is installed and loaded by its name. -/
def isPlain (l : Load) : Bool := !l.function.flags.isClosure

end Load

/-- A move in which no number is drawn and no function is put into a table. -/
structure Nameless (s t : GenState) : Prop where
  closures : t.closures = s.closures
  functions : t.program.functions = s.program.functions
  captured : t.program.closures = s.program.closures
  constants : s.program.constants.Grows t.program.constants
  reports : ∀ r ∈ t.reports, r ∈ s.reports ∨ r.problem.IsForeign

/-- What happens to names between two states, with the anonymous functions that are loaded on the way. -/
inductive Naming : List Load → GenState → GenState → Prop
  | nameless {s t : GenState} (h : Nameless s t) : Naming [] s t
  | trans {ls ls' : List Load} {s t u : GenState} (h : Naming ls s t) (h' : Naming ls' t u) : Naming (ls ++ ls') s u
  /-- A declared function is installed, unless it clashes with another one. -/
  | declared (s : GenState) {f : FunctionDef} (hname : IsName f.name) (hf : f.flags.isAnonymous = false) :
      Naming [] s (after (installFunction f) s)
  /-- An anonymous function is loaded under the name that was drawn in front of its body. -/
  | anonymous {ls : List Load} {s t : GenState} {f : FunctionDef} (hname : f.name = result nextClosureName s)
      (hf : f.flags.isAnonymous = true) (h : Naming ls (after nextClosureName s) t) :
      Naming (ls ++ [⟨f, t⟩]) s (after (loadFunction f) t)

/-- No function has a name with a number that is still to be drawn. -/
def GenState.Fresh (s : GenState) : Prop :=
  ∀ f ∈ s.program.functions, IsName f.name ∨ ∃ n < s.closures, f.name = closureName n

namespace GenState.Fresh

variable {s : GenState}

/-- The next number is free. -/
theorem function? (hs : s.Fresh) {n : Nat} (hn : s.closures ≤ n) : s.program.function? (closureName n) = none := by
  refine List.find?_eq_none.mpr fun f hf heq => ?_
  have heq : f.name = closureName n := eq_of_beq heq
  rcases hs f hf with hname | ⟨m, hm, hname⟩
  · exact not_isName_closureName n (heq ▸ hname)
  · have := closureName_injective (hname.symm.trans heq)
    omega

theorem freeClosure (hs : s.Fresh) : freeClosure s.program s.program.functions.length s.closures = s.closures := by
  have free := hs.function? (Nat.le_refl _)
  cases s.program.functions.length with
  | zero => rfl
  | succ n => simp [Gen.freeClosure, free]

theorem result_nextClosureName (hs : s.Fresh) : result nextClosureName s = closureName s.closures :=
  congrArg closureName hs.freeClosure

theorem after_nextClosureName (hs : s.Fresh) : after nextClosureName s = { s with closures := s.closures + 1 } := by
  show { s with closures := Gen.freeClosure s.program s.program.functions.length s.closures + 1 } = _
  rw [hs.freeClosure]

/-- A number was drawn. -/
theorem drawn (hs : s.Fresh) : GenState.Fresh { s with closures := s.closures + 1 } := by
  intro f hf
  rcases hs f hf with hname | ⟨n, hn, hname⟩
  · exact .inl hname
  · exact .inr ⟨n, Nat.lt_succ_of_lt hn, hname⟩

end GenState.Fresh

/-! ### What a history comes to -/

/-- A plain anonymous function was installed where it was loaded, and the last instruction there loads its name. -/
structure Load.Installed (l : Load) (constants : ConstantPool) : Prop where
  succeeds : result (installFunction l.function) l.before = true
  loads : ∃ slot, (after (loadFunction l.function) l.before).code.back? =
      some ⟨.loadc, 0, slot, .none, l.before.buffer.line⟩ ∧ constants.get? slot = some (.string l.name)

/-- From one state to another the numbers are drawn in a row, and every anonymous function gets one of them. -/
structure Gives (ls : List Load) (s t : GenState) : Prop where
  counted : t.closures = s.closures + ls.length
  names : (ls.map Load.name).Perm ((List.range' s.closures ls.length).map closureName)
  functions : ∃ fs, t.program.functions = s.program.functions ++ fs ∧
    fs.filter (·.flags.isAnonymous) = (ls.filter Load.isPlain).map Load.function ∧
    ∀ f ∈ fs, f.flags.isAnonymous = false → IsName f.name
  captured : t.program.closures = s.program.closures ++ (ls.filter (!·.isPlain)).map Load.function
  constants : s.program.constants.Grows t.program.constants
  reports : ∀ r ∈ t.reports, r ∈ s.reports ∨ r.problem.IsForeign
  installed : ∀ l ∈ ls, l.isPlain = true → l.Installed t.program.constants

namespace Gives

variable {ls ls' : List Load} {s t u : GenState}

/-- The name of an anonymous function has a number that was drawn on the way. -/
theorem mem (h : Gives ls s t) {l : Load} (hl : l ∈ ls) :
    ∃ n, s.closures ≤ n ∧ n < t.closures ∧ l.name = closureName n := by
  obtain ⟨n, hn, hname⟩ := List.mem_map.mp (h.names.mem_iff.mp (List.mem_map_of_mem hl))
  have bounds := List.mem_range'_1.mp hn
  have := h.counted
  exact ⟨n, bounds.1, by omega, hname.symm⟩

/-- A function in the table was there before, was declared on the way, or has a number that was drawn on the way. -/
theorem cases_of_mem (h : Gives ls s t) {f : FunctionDef} (hf : f ∈ t.program.functions) :
    f ∈ s.program.functions ∨ IsName f.name ∨ ∃ n, s.closures ≤ n ∧ n < t.closures ∧ f.name = closureName n := by
  obtain ⟨fs, hfunctions, hanonymous, hdeclared⟩ := h.functions
  rw [hfunctions] at hf
  rcases List.mem_append.mp hf with hold | hnew
  · exact .inl hold
  · cases hflag : f.flags.isAnonymous with
    | false => exact .inr (.inl (hdeclared f hnew hflag))
    | true =>
        have member : f ∈ (ls.filter Load.isPlain).map Load.function :=
          hanonymous ▸ List.mem_filter.mpr ⟨hnew, hflag⟩
        obtain ⟨l, hl, rfl⟩ := List.mem_map.mp member
        exact .inr (.inr (h.mem (List.mem_filter.mp hl).1))

theorem fresh (h : Gives ls s t) (hs : s.Fresh) : t.Fresh := by
  intro f hf
  have := h.counted
  rcases h.cases_of_mem hf with hold | hname | ⟨n, -, hn, hname⟩
  · rcases hs f hold with hname | ⟨n, hn, hname⟩
    · exact .inl hname
    · exact .inr ⟨n, by omega, hname⟩
  · exact .inl hname
  · exact .inr ⟨n, hn, hname⟩

theorem nameless (h : Nameless s t) : Gives [] s t where
  counted := h.closures
  names := .refl _
  functions := ⟨[], by simp [h.functions], rfl, List.forall_mem_nil _⟩
  captured := by simp [h.captured]
  constants := h.constants
  reports := h.reports
  installed := List.forall_mem_nil _

theorem declared (s : GenState) {f : FunctionDef} (hname : IsName f.name) (hf : f.flags.isAnonymous = false) :
    Gives [] s (after (installFunction f) s) := by
  unfold installFunction
  rw [after_modifyGet]
  unfold Program.installFunction?
  split <;> rename_i hq <;> split at hq <;> cases hq
  · exact ⟨rfl, .refl _, ⟨[f], rfl, by simp [hf], by simpa using fun _ => hname⟩, (List.append_nil _).symm, .refl,
      fun _ => .inl, List.forall_mem_nil _⟩
  · exact nameless ⟨rfl, rfl, rfl, .refl, fun _ => .inl⟩

theorem trans (h : Gives ls s t) (h' : Gives ls' t u) : Gives (ls ++ ls') s u where
  counted := by
    rw [h'.counted, h.counted, List.length_append, Nat.add_assoc]
  names := by
    rw [List.map_append, List.length_append, ← List.range'_append_1, List.map_append, ← h.counted]
    exact h.names.append h'.names
  functions := by
    obtain ⟨fs, hfs, hanonymous, hdeclared⟩ := h.functions
    obtain ⟨gs, hgs, hanonymous', hdeclared'⟩ := h'.functions
    refine ⟨fs ++ gs, by rw [hgs, hfs, List.append_assoc], ?_, List.forall_mem_append.mpr ⟨hdeclared, hdeclared'⟩⟩
    rw [List.filter_append, hanonymous, hanonymous', List.filter_append, List.map_append]
  captured := by
    rw [h'.captured, h.captured, List.filter_append, List.map_append, List.append_assoc]
  constants := h.constants.trans h'.constants
  reports := by
    intro r hr
    rcases h'.reports r hr with hr | hr
    · exact h.reports r hr
    · exact .inr hr
  installed := by
    intro l hl hplain
    rcases List.mem_append.mp hl with hl | hl
    · obtain ⟨succeeds, slot, hcode, hslot⟩ := h.installed l hl hplain
      exact ⟨succeeds, slot, hcode, h'.constants.get? hslot⟩
    · exact h'.installed l hl hplain

/-- What is drawn in front of a body and loaded behind it comes to one more function. -/
theorem load {l : Load} (hname : l.name = closureName s.closures) (hf : l.function.flags.isAnonymous = true)
    (h : Gives ls { s with closures := s.closures + 1 } t) (hclosures : u.closures = t.closures)
    (hfunctions : u.program.functions = t.program.functions ++ ([l].filter Load.isPlain).map Load.function)
    (hcaptured : u.program.closures = t.program.closures ++ ([l].filter (!·.isPlain)).map Load.function)
    (hconstants : t.program.constants.Grows u.program.constants) (hreports : u.reports = t.reports)
    (hinstalled : l.isPlain = true → l.Installed u.program.constants) : Gives (ls ++ [l]) s u where
  counted := by
    rw [hclosures, h.counted, List.length_append, List.length_singleton, Nat.add_assoc, Nat.add_comm 1]
  names := by
    rw [List.map_append, List.length_append, List.length_singleton, List.range'_succ]
    refine (h.names.append_right _).trans ?_
    rw [List.map_cons, List.map_nil, hname]
    exact List.perm_append_singleton _ _
  functions := by
    obtain ⟨fs, hfs, hanonymous, hdeclared⟩ := h.functions
    have last : ∀ g ∈ ([l].filter Load.isPlain).map Load.function, g.flags.isAnonymous = true := by
      intro g hg
      obtain ⟨l', hl', rfl⟩ := List.mem_map.mp hg
      rwa [List.mem_singleton.mp (List.mem_filter.mp hl').1]
    refine ⟨fs ++ ([l].filter Load.isPlain).map Load.function, ?_, ?_, ?_⟩
    · rw [hfunctions, hfs, List.append_assoc]
    · rw [List.filter_append, hanonymous, List.filter_eq_self.mpr last, List.filter_append, List.map_append]
    · refine List.forall_mem_append.mpr ⟨hdeclared, fun g hg hplain => ?_⟩
      exact Bool.noConfusion (hplain.symm.trans (last g hg))
  captured := by
    rw [hcaptured, h.captured, List.filter_append, List.map_append, List.append_assoc]
  constants := h.constants.trans hconstants
  reports := hreports ▸ h.reports
  installed := by
    intro l' hl' hplain
    rcases List.mem_append.mp hl' with hl' | hl'
    · obtain ⟨succeeds, slot, hcode, hslot⟩ := h.installed l' hl' hplain
      exact ⟨succeeds, slot, hcode, hconstants.get? hslot⟩
    · obtain rfl := List.mem_singleton.mp hl'
      exact hinstalled hplain

/-- No function has the name that was drawn in front of a body until it is loaded behind it. -/
theorem installFunction?_drawn {f : FunctionDef} (hs : s.Fresh) (hname : f.name = closureName s.closures)
    (h : Gives ls { s with closures := s.closures + 1 } t) :
    t.program.installFunction? f = some { t.program with functions := t.program.functions ++ [f] } := by
  refine if_neg fun hclash => ?_
  obtain ⟨g, hg, hclash⟩ := List.any_eq_true.mp hclash
  have same : f.name = g.name := by
    rw [Program.clash, Bool.and_eq_true] at hclash
    exact eq_of_beq hclash.1
  have other {n : Nat} (hn : n ≠ s.closures) : g.name ≠ closureName n := fun hg =>
    hn (closureName_injective (hg.symm.trans (same.symm.trans hname)))
  -- the functions in front of the body have earlier numbers, and those inside it have later ones
  rcases h.cases_of_mem hg with hold | declared | ⟨n, hn, -, later⟩
  · rcases hs g hold with declared | ⟨n, hn, earlier⟩
    · exact not_isName_closureName s.closures (hname ▸ same ▸ declared)
    · exact other (Nat.ne_of_lt hn) earlier
  · exact not_isName_closureName s.closures (hname ▸ same ▸ declared)
  · exact other (Nat.ne_of_gt hn) later

/-- An anonymous function whose name was drawn in front of its body is loaded behind it. -/
theorem anonymous {f : FunctionDef} (hs : s.Fresh) (hname : f.name = closureName s.closures)
    (hf : f.flags.isAnonymous = true) (h : Gives ls { s with closures := s.closures + 1 } t) :
    Gives (ls ++ [⟨f, t⟩]) s (after (loadFunction f) t) := by
  cases hclosure : f.flags.isClosure with
  | true =>
      have loaded : after (loadFunction f) t =
          after (put .loadClosure 0 0 (.closure t.program.closures.length)) (after (addClosure f) t) := by
        simp only [loadFunction, hclosure, if_true]
        rfl
      rw [loaded]
      exact h.load hname hf rfl (by simp [Load.isPlain, hclosure]; rfl) (by simp [Load.isPlain, hclosure]; rfl) .refl rfl
        (by simp [Load.isPlain, hclosure])
  | false =>
      have install := h.installFunction?_drawn hs hname
      have succeeds : result (installFunction f) t = true := by
        simp only [installFunction, result_modifyGet, install]
      have grown : after (installFunction f) t =
          { t with program := { t.program with functions := t.program.functions ++ [f] } } := by
        simp only [installFunction, after_modifyGet, install]
      have loaded : after (loadFunction f) t = after (loadConstant (·.addOwnString f.name))
          { t with program := { t.program with functions := t.program.functions ++ [f] } } := by
        rw [loadFunction, hclosure, if_neg Bool.false_ne_true, after_bind, succeeds, if_pos rfl, grown]
      rw [loaded]
      refine h.load hname hf rfl (by simp [Load.isPlain, hclosure]; rfl) (by simp [Load.isPlain, hclosure]; rfl)
        (.own .refl f.name) rfl fun _ => ⟨succeeds, t.program.constants.size, ?_, ?_⟩
      · rw [loaded]
        exact Array.back?_push ..
      · exact (ConstantPool.get?_push ..).trans (if_pos rfl)

end Gives

/-- From a state without names that are still to come, a history gives every anonymous function a name of its own. -/
theorem Naming.gives {ls : List Load} {s t : GenState} (h : Naming ls s t) (hs : s.Fresh) : Gives ls s t := by
  induction h with
  | nameless h => exact .nameless h
  | trans _ _ ih ih' => exact (ih hs).trans (ih' ((ih hs).fresh hs))
  | declared s hname hf => exact .declared s hname hf
  | anonymous hname hf _ ih =>
      rw [hs.result_nextClosureName] at hname
      rw [hs.after_nextClosureName] at ih
      exact .anonymous hs hname hf (ih hs.drawn)

end StackScript
