/-
What the leaves of expression trees leave on the stack.

A leaf leaves one value, or reports an error.  A name ends with the instruction that loads it, and so does a
variable, which is what the operators rely on that take that instruction back.
-/
import StackScript.Proofs.Stack.Value

namespace StackScript

namespace Gen

variable {F : List SwitchTable} {α β : Type} {n k : Nat}

/-! ### Failures -/

/-- A generator that always reports an error. -/
structure Fails (m : Gen α) : Prop where
  goes : Goes m
  fails : ∀ s, (after m s).errors ≠ 0

namespace Fails

theorem report (line : Nat) {problem : Problem} (h : problem.severity = .error) : Fails (report line problem) where
  goes := (valued_report line problem).goes
  fails := by
    intro s he
    rcases Grown.report (s := s) line h with hlt | hlt
    · exact absurd hlt (Nat.lt_irrefl _)
    · omega

theorem bind {m : Gen α} {f : α → Gen β} (h : Fails m) (hf : ∀ a, Goes (f a)) : Fails (m >>= f) where
  goes := h.goes.bind hf
  fails := by
    intro s he
    rw [after_bind] at he
    exact h.fails s (GenState.errors_mono (hf _ _).1 he)

theorem behind {m : Gen α} {f : α → Gen β} (hm : Goes m) (hf : ∀ a, Fails (f a)) : Fails (m >>= f) where
  goes := hm.bind fun a => (hf a).goes
  fails := fun s => (hf (result m s)).fails (after m s)

/-- There is nothing to show behind an error. -/
theorem turns {m : Gen α} (h : Fails m) : Turns F n k m := ⟨h.goes, fun _ he _ => absurd he (h.fails _)⟩

theorem ends {ops : List Opcode} {m : Gen α} (h : Fails m) : Ends F ops m :=
  ⟨h.goes, fun s _ he _ => absurd he (h.fails s)⟩

end Fails

theorem turns_restrict (restriction : Option Restriction) (root : Tree Leaf) :
    Turns F n n (restrict restriction root) := by
  unfold restrict
  split
  · exact turns_report _ _
  · exact .pure ()

/-! ### Containers -/

theorem goes_inContainer {body : Gen Unit} (h : Goes body) : Goes (inContainer body) := by
  intro s
  have inner := h (after openContainer s)
  exact ⟨Frame.aside inner.1, inner.2.congr rfl rfl rfl rfl rfl (List.prefix_append _ _)⟩

/-- Code that only computes values makes a disciplined container. -/
theorem turns_inContainer {body : Gen Unit} (h : Turns F 0 k body) : Turns F n n (inContainer body) where
  goes := goes_inContainer h.goes
  turned := by
    intro s t hst he ha
    have inner := h.raised (s := after openContainer t) hst.base he ha
    refine ⟨hst.root, hst.lifts, inner.blocks.trans hst.blocks, hst.boundaries, fun hs r hr => ?_⟩
    rcases List.mem_append.mp hr with hr | hr
    · exact inner.orderly (hst.orderly hs) r hr
    · rw [List.mem_singleton.mp hr]
      obtain ⟨depth, hdepth⟩ := inner.lifts.disciplined F
      refine ⟨depth, hdepth, fun i hi => ?_⟩
      have none : (after body (after openContainer t)).boundaries = [] := inner.boundaries
      exact absurd (none ▸ hi) List.not_mem_nil

theorem turns_thunk (line : Nat) (isPresent : Bool) {value : Gen Unit} (h : Turns F 0 (flag isPresent) value) :
    Turns F n n (thunk line isPresent value) := by
  refine turns_inContainer (k := 0) (h.bind fun _ => (turns_setLine line).bind fun _ => ?_)
  cases isPresent with
  | true => exact turns_put rfl 1 1 .none (Nat.le_refl 1) rfl
  | false => exact turns_put rfl 0 1 .none (Nat.le_refl 0) rfl

/-! ### Constants -/

/-- A single instruction that takes nothing. -/
theorem ends_single {ops : List Opcode} (x : Instruction) (htakes : x.takes = 0) (hmem : x.op ∈ ops)
    (hop : x.op.isPlain = true) (hleaves : x.leaves = 1) :
    Ends F ops (put x.op x.p1 x.p2 x.p3) where
  goes := goes_put _ _ _ _
  ended := by
    intro s hs _ _
    refine ⟨s, x, hmem, hop, hleaves, rfl, ?_⟩
    rw [htakes]
    exact .refl F hs

theorem ends_loadSlot (slot : Nat) : Ends F [.loadc] (loadSlot slot) :=
  ends_single ⟨.loadc, 0, slot, .none, 0⟩ rfl (List.mem_singleton_self _) rfl rfl

theorem ends_loadConstant (add : ConstantPool → Nat × ConstantPool) : Ends F [.loadc] (loadConstant add) :=
  Ends.behind (turns_intern add) fun slot => ends_loadSlot slot

theorem turns_number (t : Token) : Turns F 0 1 (number t) := by
  unfold number
  split
  · split
    · exact turns_loadConstant _
    · split
      · exact turns_loadConstant _
      · exact (turns_report _ _).bind fun _ => turns_loadConstant _
  · exact turns_loadConstant _

theorem ends_nameOrNull (name : Option String) : Ends F [.loadc] (nameOrNull name) := by
  cases name with
  | none => exact ends_loadSlot _
  | some text => exact ends_loadConstant _

theorem turns_currentClass : Turns F n n currentClass := by
  refine Turns.get.bind fun s => ?_
  split <;> exact .pure _

theorem turns_currentFunction : Turns F n n currentFunction := by
  refine Turns.get.bind fun s => ?_
  split <;> exact .pure _

theorem turns_notePath (path : Option Nat) : Turns F n n (notePath path) := by
  cases path with
  | none => exact .pure ()
  | some line => exact turns_noteNamespaces line

theorem ends_name (path : Option Nat) (t : Token) : Ends F [.loadc] (name path t) := by
  refine Ends.behind (turns_notePath path) fun _ => ?_
  split
  · exact ends_loadSlot _
  · split
    · exact ends_loadConstant _
    · exact Ends.behind .get fun _ => ends_loadConstant _
    · exact Ends.behind .get fun _ => ends_loadConstant _
    · exact Ends.behind turns_currentClass fun _ => ends_nameOrNull _
    · exact Ends.behind turns_currentFunction fun _ => ends_nameOrNull _
    · exact Ends.behind turns_currentFunction fun _ => ends_nameOrNull _
    · exact Ends.behind (turns_intern _) fun slot =>
        ends_single ⟨.loadc, 1, slot, .none, 0⟩ rfl (List.mem_singleton_self _) rfl rfl

/-! ### Variables -/

/-- Looking a variable up once more takes the name that was found. -/
theorem ends_lookUp (access : Access) (count : Nat) {m : Gen Unit} (h : Ends F [.load] m) :
    Ends F [.load] (do m; lookUp access count) := by
  induction count generalizing m with
  | zero => exact h
  | succ count ih =>
      have next : Ends F [.load] (do m; put .load (if access.readOnly then 1 else 0) 0 .none) :=
        Ends.put ⟨.load, if access.readOnly then 1 else 0, 0, .none, 0⟩ h.turns (List.mem_singleton_self _) rfl rfl
      have all := ih next
      rw [bind_assoc] at all
      exact all

theorem ends_loadVariable (access : Access) (line : Nat) (name : String) (extra : Nat) :
    Ends F [.load] (loadVariable access line name extra) :=
  Ends.behind (turns_setLine line) fun _ => ends_lookUp access extra
    (ends_single ⟨.load, if access.readOnly then 1 else 0, 0, .name name, 0⟩ rfl (List.mem_singleton_self _) rfl rfl)

theorem goes_cutShort (stray : Option Nat) : Goes (cutShort stray) := (valued_cutShort stray).goes

theorem turns_cutShort (stray : Option Nat) : Turns F n n (cutShort stray) := by
  cases stray with
  | none => exact .pure ()
  | some line => exact turns_report _ _

/-- What is cut short is an error. -/
theorem fails_cutShort {stray : Option Nat} (h : stray.isSome = true) : Fails (cutShort stray) := by
  cases stray with
  | none => cases h
  | some line => exact .report line rfl

theorem ends_computedVariable (access : Access) (line braceLine : Nat) (isPresent : Bool) {name : Gen Unit}
    (h : Turns F 0 (flag isPresent) name) (stray : Option Nat) (extra : Nat) :
    Ends F [.load] (computedVariable access line braceLine isPresent name stray extra) := by
  refine Ends.behind (turns_setLine braceLine) fun _ => ?_
  cases isPresent with
  | true =>
      have first : Ends F [.load] (do
          name
          cutShort stray
          put .load (if access.readOnly then 1 else 0) 0 .none) := by
        have named : Turns F 0 1 (do name; cutShort stray) := h.bind fun _ => turns_cutShort stray
        have load := Ends.put ⟨.load, if access.readOnly then 1 else 0, 0, .none, 0⟩ named
          (List.mem_singleton_self Opcode.load) rfl rfl
        rwa [bind_assoc] at load
      have all := ends_lookUp access extra first
      simp only [bind_assoc] at all
      exact all
  | false =>
      exact (Fails.behind h.goes fun _ => .behind (goes_cutShort stray) fun _ => .report line rfl).ends

theorem fails_blankVariable (line braceLine : Nat) : Fails (blankVariable line braceLine) :=
  .behind (valued_setLine braceLine).goes fun _ => .report line rfl

/-! ### Strings, collections and calls -/

/-- The pieces of a string are made into one value. -/
theorem turns_joinPieces {count : Nat} (h : 0 < count) : Turns F count 1 (joinPieces count) := by
  unfold joinPieces
  split
  · refine turns_put rfl _ _ _ (Nat.le_of_eq rfl) ?_
    simp only [Instruction.pass, Instruction.takes, Instruction.leaves]
    rw [if_neg Nat.one_ne_zero, Int.toNat_natCast, Nat.sub_self]
  · obtain rfl : count = 1 := by omega
    exact .pure ()

variable {value key entries targets argument : Gen Unit}

/-- A key or value of an array is there, or it is cut short. -/
theorem turns_item (mark : ItemMark) (h : Turns F 0 1 value ∨ Goes value ∧ mark.byRef = false ∧ mark.stray.isSome = true) :
    Turns F 0 1 (item mark value) := by
  rcases h with h | ⟨h, href, hstray⟩
  · refine h.bind fun _ => ?_
    split
    · exact turns_put rfl _ _ _ (Nat.le_refl 1) rfl
    · exact turns_cutShort _
  · refine Fails.turns (.behind h fun _ => ?_)
    rw [href]
    exact fails_cutShort hstray

theorem turns_plainEntry (line : Nat) (h : Turns F 0 1 value) : Turns F 0 2 (plainEntry line value) :=
  (turns_setLine line).bind fun _ => (turns_loadSlot _).bind fun _ => h.above 1

theorem turns_keyedEntry (line : Nat) (hk : Turns F 0 1 key) (hv : Turns F 0 1 value) :
    Turns F 0 2 (keyedEntry line key value) :=
  (turns_setLine line).bind fun _ => hk.bind fun _ => hv.above 1

theorem turns_unkeyedEntry (line : Nat) (h : Turns F 0 1 value) : Turns F 0 2 (unkeyedEntry line value) :=
  (turns_setLine line).bind fun _ => (turns_report _ _).bind fun _ => (turns_loadSlot _).bind fun _ => h.above 1

theorem turns_array (count : Nat) (h : Turns F 0 (count * 2) entries) (incomplete : Option Nat) :
    Turns F 0 1 (array count entries incomplete) := by
  refine h.bind fun _ => ?_
  split
  · exact (Fails.behind (valued_setLine _).goes fun _ => .report _ rfl).turns
  · have htakes : (Instruction.mk .loadMap ((count : Int) * 2) 0 .none 0).takes = count * 2 := by
      simp only [Instruction.takes]
      omega
    refine turns_put rfl _ _ _ (Nat.le_of_eq htakes) ?_
    rw [Instruction.pass, htakes, Nat.sub_self]
    rfl

theorem turns_list (count : Nat) (h : Turns F 0 count targets) : Turns F 0 1 (list count targets) := by
  refine h.bind fun _ => turns_put rfl _ _ _ (Nat.le_of_eq rfl) ?_
  simp only [Instruction.pass, Instruction.takes, Instruction.leaves]
  rw [Int.toNat_natCast, Nat.sub_self]

theorem turns_construct (word : String) (isPresent : Bool) (h : Turns F 0 (flag isPresent) argument) :
    Turns F 0 1 (construct word isPresent argument) := by
  refine h.bind fun _ => (turns_string word).bind fun _ => ?_
  cases isPresent with
  | true => exact turns_put rfl 1 0 .none (Nat.le_refl 2) rfl
  | false => exact turns_put rfl 0 0 .none (Nat.le_refl 1) rfl

end Gen

end StackScript
