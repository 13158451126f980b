/-
The containers of a program, told apart by how they are made.

Besides the main one there are two sorts: bodies, which hold statements (of functions, methods, closures
and catch clauses), and thunks, which hold one expression each (default values, static variables, values
of attributes, named constants and the guards of a switch).  `lists_containers` says that the listing
of a program misses none of them, and `Files` says what it means that code made on the side has found its
place in a table: every operation on the tables that takes code satisfies it.
-/
import StackScript.Program.Listing

namespace StackScript

/-- Code that was made in a container of its own. -/
inductive Made where
  /-- One expression. -/
  | thunk (code : Code)
  /-- Statements. -/
  | body (code : Code)

namespace FunctionDef

/-- The default values and static variables of a function. -/
def thunks (f : FunctionDef) : List Code :=
  f.args.filterMap Argument.default? ++ f.statics.map StaticVar.init

end FunctionDef

namespace ClassDef

/-- The values of the attributes, and the thunks of the methods. -/
def thunks (c : ClassDef) : List Code :=
  c.attributes.filterMap Attribute.init ++ c.methods.flatMap fun m => m.function.thunks

def bodies (c : ClassDef) : List Code := c.methods.map fun m => m.function.code

end ClassDef

namespace Program

def thunks (p : Program) : List Code :=
  p.functions.flatMap FunctionDef.thunks ++ p.closures.flatMap FunctionDef.thunks ++
    p.classes.flatMap ClassDef.thunks ++ p.namedConstants.map NamedConstant.code ++
    p.switches.flatMap fun t => t.cases.map CaseEntry.guard

def bodies (p : Program) : List Code :=
  p.functions.map FunctionDef.code ++ p.closures.map FunctionDef.code ++ p.classes.flatMap ClassDef.bodies ++
    p.exceptions.flatMap fun catches => catches.map CatchEntry.code

end Program

/-! ### The listing misses no container -/

/-- Whether code is listed among containers. -/
def Lists (ks : List Container) (c : Code) : Prop := ∃ k ∈ ks, k.code = c

namespace Lists

variable {α : Type} {ks ls : List Container} {c : Code}

theorem append_iff : Lists (ks ++ ls) c ↔ Lists ks c ∨ Lists ls c := by
  unfold Lists
  constructor
  · rintro ⟨k, hk, rfl⟩
    rcases List.mem_append.mp hk with hk | hk
    · exact .inl ⟨k, hk, rfl⟩
    · exact .inr ⟨k, hk, rfl⟩
  · rintro (⟨k, hk, rfl⟩ | ⟨k, hk, rfl⟩)
    · exact ⟨k, List.mem_append_left _ hk, rfl⟩
    · exact ⟨k, List.mem_append_right _ hk, rfl⟩

theorem singleton_iff (title : String) (code : Code) : Lists [⟨title, code⟩] c ↔ c = code := by
  unfold Lists
  constructor
  · rintro ⟨k, hk, rfl⟩
    rw [List.mem_singleton.mp hk]
  · rintro rfl
    exact ⟨_, List.mem_singleton.mpr rfl, rfl⟩

theorem flatMap_iff (xs : List α) (f : α → List Container) :
    Lists (xs.flatMap f) c ↔ ∃ x ∈ xs, Lists (f x) c := by
  unfold Lists
  constructor
  · rintro ⟨k, hk, rfl⟩
    obtain ⟨x, hx, hk⟩ := List.mem_flatMap.mp hk
    exact ⟨x, hx, k, hk, rfl⟩
  · rintro ⟨x, hx, k, hk, rfl⟩
    exact ⟨k, List.mem_flatMap.mpr ⟨x, hx, hk⟩, rfl⟩

theorem map_iff (xs : List α) (title : α → String) (code : α → Code) :
    Lists (xs.map fun x => ⟨title x, code x⟩) c ↔ c ∈ xs.map code := by
  unfold Lists
  constructor
  · rintro ⟨k, hk, rfl⟩
    obtain ⟨x, hx, rfl⟩ := List.mem_map.mp hk
    exact List.mem_map.mpr ⟨x, hx, rfl⟩
  · intro hc
    obtain ⟨x, hx, rfl⟩ := List.mem_map.mp hc
    exact ⟨_, List.mem_map.mpr ⟨x, hx, rfl⟩, rfl⟩

theorem filterMap_iff (xs : List α) (title : α → String) (code? : α → Option Code) :
    Lists (xs.filterMap fun x => (code? x).map fun code => ⟨title x, code⟩) c ↔
      c ∈ xs.filterMap code? := by
  unfold Lists
  constructor
  · rintro ⟨k, hk, rfl⟩
    obtain ⟨x, hx, hk⟩ := List.mem_filterMap.mp hk
    obtain ⟨code, hcode, rfl⟩ := Option.map_eq_some_iff.mp hk
    exact List.mem_filterMap.mpr ⟨x, hx, hcode⟩
  · intro hc
    obtain ⟨x, hx, hcode⟩ := List.mem_filterMap.mp hc
    exact ⟨_, List.mem_filterMap.mpr ⟨x, hx, Option.map_eq_some_iff.mpr ⟨c, hcode, rfl⟩⟩, rfl⟩

end Lists

theorem FunctionDef.lists_containers (f : FunctionDef) (title : String) (c : Code) :
    Lists (f.containers title) c ↔ c = f.code ∨ c ∈ f.thunks := by
  unfold FunctionDef.containers FunctionDef.thunks
  rw [Lists.append_iff, Lists.append_iff, Lists.filterMap_iff, Lists.map_iff, Lists.singleton_iff,
    List.mem_append, or_comm]

theorem ClassDef.lists_containers (d : ClassDef) (c : Code) :
    Lists d.containers c ↔ c ∈ d.bodies ∨ c ∈ d.thunks := by
  unfold ClassDef.containers ClassDef.bodies ClassDef.thunks
  rw [Lists.append_iff, Lists.filterMap_iff, Lists.flatMap_iff]
  simp only [FunctionDef.lists_containers, List.mem_append, List.mem_map, List.mem_flatMap]
  constructor
  · rintro (h | ⟨m, hm, rfl | h⟩)
    · exact .inr (.inl h)
    · exact .inl ⟨m, hm, rfl⟩
    · exact .inr (.inr ⟨m, hm, h⟩)
  · rintro (⟨m, hm, rfl⟩ | h | ⟨m, hm, h⟩)
    · exact .inr ⟨m, hm, .inl rfl⟩
    · exact .inl h
    · exact .inr ⟨m, hm, .inr h⟩

namespace Program

/-- Numbering entries neither adds nor drops any. -/
theorem exists_numbered {α : Type} (xs : List α) (P : α → Prop) :
    (∃ x ∈ numbered xs, P x.2) ↔ ∃ x ∈ xs, P x := by
  unfold numbered
  constructor
  · rintro ⟨⟨i, x⟩, hx, hp⟩
    obtain ⟨⟨y, j⟩, hy, hxy⟩ := List.mem_map.mp hx
    obtain ⟨rfl, rfl⟩ := Prod.mk.inj hxy
    exact ⟨y, List.fst_mem_of_mem_zipIdx hy, hp⟩
  · rintro ⟨x, hx, hp⟩
    obtain ⟨i, hi, rfl⟩ := List.mem_iff_getElem.mp hx
    refine ⟨(i, xs[i]), List.mem_map.mpr ⟨(xs[i], i), ?_, rfl⟩, hp⟩
    exact List.mem_zipIdx_iff_getElem?.mpr (List.getElem?_eq_getElem hi)

/-- Every container is the main one, a body or a thunk. -/
theorem lists_containers (p : Program) (c : Code) :
    Lists p.containers c ↔ c = p.main ∨ c ∈ p.bodies ∨ c ∈ p.thunks := by
  unfold Program.containers Program.bodies Program.thunks
  simp only [Lists.append_iff, Lists.singleton_iff, Lists.map_iff, Lists.flatMap_iff,
    FunctionDef.lists_containers, ClassDef.lists_containers, List.mem_map]
  rw [exists_numbered p.closures fun f => c = f.code ∨ c ∈ f.thunks,
    exists_numbered p.switches fun t => ∃ e ∈ numbered t.cases, e.2.guard = c,
    exists_numbered p.exceptions fun catches => ∃ e ∈ catches, e.code = c]
  simp only [exists_numbered _ fun e : CaseEntry => e.guard = c, List.mem_append, List.mem_map,
    List.mem_flatMap]
  grind

end Program

/-! ### Code that finds its place in a table -/

/-- The code in the tables of something. -/
structure Stock where
  thunks : List Code
  bodies : List Code

def ClassDef.stock (c : ClassDef) : Stock := ⟨c.thunks, c.bodies⟩

def Program.stock (p : Program) : Stock := ⟨p.thunks, p.bodies⟩

/-- What arguments bring along. -/
def Argument.made (args : List Argument) : List Made := (args.filterMap Argument.default?).map .thunk

/-- What a function brings along. -/
def FunctionDef.made (f : FunctionDef) : List Made :=
  Argument.made f.args ++ ([.body f.code] ++ f.statics.map fun v => .thunk v.init)

@[simp] theorem FunctionDef.thunk_mem_made (f : FunctionDef) (c : Code) :
    .thunk c ∈ f.made ↔ c ∈ f.thunks := by
  simp [FunctionDef.made, Argument.made, FunctionDef.thunks]

@[simp] theorem FunctionDef.body_mem_made (f : FunctionDef) (c : Code) : .body c ∈ f.made ↔ c = f.code := by
  simp [FunctionDef.made, Argument.made]

/-- One stock is another one with the code made on the side taken in.  Thunks may be dropped, bodies are
all kept; what has no code at all needs not be made. -/
structure Stock.Takes (made : List Made) (a b : Stock) : Prop where
  thunks : ∀ c ∈ b.thunks, c ∈ a.thunks ∨ .thunk c ∈ made
  bodies : ∀ c ∈ b.bodies, c ∈ a.bodies ∨ .body c ∈ made ∨ c = #[]
  kept : ∀ c ∈ a.bodies, c ∈ b.bodies
  filed : ∀ c, .body c ∈ made → c ∈ b.bodies

namespace Stock.Takes

theorem refl (a : Stock) : Takes [] a a where
  thunks := fun _ hc => .inl hc
  bodies := fun _ hc => .inl hc
  kept := fun _ hc => hc
  filed := fun _ hc => absurd hc (List.not_mem_nil)

theorem trans {made made' : List Made} {a b c : Stock} (h : Takes made a b) (h' : Takes made' b c) :
    Takes (made ++ made') a c where
  thunks := by
    intro k hk
    rcases h'.thunks k hk with hk | hk
    · rcases h.thunks k hk with hk | hk
      · exact .inl hk
      · exact .inr (List.mem_append_left _ hk)
    · exact .inr (List.mem_append_right _ hk)
  bodies := by
    intro k hk
    rcases h'.bodies k hk with hk | hk | hk
    · rcases h.bodies k hk with hk | hk | hk
      · exact .inl hk
      · exact .inr (.inl (List.mem_append_left _ hk))
      · exact .inr (.inr hk)
    · exact .inr (.inl (List.mem_append_right _ hk))
    · exact .inr (.inr hk)
  kept := fun k hk => h'.kept k (h.kept k hk)
  filed := by
    intro k hk
    rcases List.mem_append.mp hk with hk | hk
    · exact h'.kept k (h.filed k hk)
    · exact h'.filed k hk

end Stock.Takes

/-- A program is another one with the code made on the side filed in its tables, and nothing else about
it is different. -/
structure Files (made : List Made) (p q : Program) : Prop where
  stock : Stock.Takes made p.stock q.stock
  main : q.main = p.main
  constants : q.constants = p.constants
  switches : q.switches = p.switches
  foreachs : q.foreachs = p.foreachs
  classLinks : q.classLinks = p.classLinks
  exceptions : q.exceptions.length = p.exceptions.length
  closures : p.closures <+: q.closures

theorem ClassDef.takes_attribute (c : ClassDef) (a : Attribute) :
    Stock.Takes (a.init.toList.map .thunk) c.stock { c with attributes := c.attributes ++ [a] }.stock where
  thunks := by
    intro k hk
    simp only [ClassDef.stock, ClassDef.thunks, List.filterMap_append, List.mem_append,
      List.filterMap_cons, List.filterMap_nil] at hk ⊢
    cases ha : a.init <;> simp only [ha] at hk <;> simp <;> grind
  bodies := fun _ hk => .inl hk
  kept := fun _ hk => hk
  filed := by
    intro k hk
    obtain ⟨_, -, h⟩ := List.mem_map.mp hk
    cases h

theorem ClassDef.takes_method (c : ClassDef) (m : Method) :
    Stock.Takes m.function.made c.stock { c with methods := c.methods ++ [m] }.stock := by
  constructor <;>
    simp only [ClassDef.stock, ClassDef.thunks, ClassDef.bodies, List.flatMap_append, List.flatMap_singleton,
      List.map_append, List.map_singleton, List.mem_append, List.mem_singleton, FunctionDef.thunk_mem_made,
      FunctionDef.body_mem_made] <;>
    grind only

/-- A method without a body only brings its thunks along. -/
theorem ClassDef.takes_signature (c : ClassDef) (m : Method) (hcode : m.function.code = #[])
    (hstatics : m.function.statics = []) :
    Stock.Takes (Argument.made m.function.args) c.stock { c with methods := c.methods ++ [m] }.stock := by
  constructor <;>
    simp only [ClassDef.stock, ClassDef.thunks, ClassDef.bodies, Argument.made, FunctionDef.thunks] <;>
    intro k hk <;> simp at hk ⊢ <;> grind

namespace Program

variable {p q : Program}

theorem files_function {f : FunctionDef} (h : p.installFunction? f = some q) : Files f.made p q := by
  unfold installFunction? at h
  split at h
  · cases h
  · cases h
    refine ⟨?_, rfl, rfl, rfl, rfl, rfl, rfl, List.prefix_rfl⟩
    constructor <;> simp only [stock, thunks, bodies, List.flatMap_append, List.flatMap_singleton, List.map_append,
      List.map_singleton, List.mem_append, List.mem_singleton, FunctionDef.thunk_mem_made,
      FunctionDef.body_mem_made] <;> grind only

theorem files_closure (f : FunctionDef) : Files f.made p { p with closures := p.closures ++ [f] } := by
  refine ⟨?_, rfl, rfl, rfl, rfl, rfl, rfl, List.prefix_append _ _⟩
  constructor <;> simp only [stock, thunks, bodies, List.flatMap_append, List.flatMap_singleton, List.map_append,
    List.map_singleton, List.mem_append, List.mem_singleton, FunctionDef.thunk_mem_made,
    FunctionDef.body_mem_made] <;> grind only

theorem files_class {made : List Made} {c : ClassDef} (hc : Stock.Takes made ⟨[], []⟩ c.stock)
    (h : p.installClass? c = some q) : Files made p q := by
  unfold installClass? at h
  split at h
  · cases h
  · cases h
    refine ⟨?_, rfl, rfl, rfl, rfl, rfl, rfl, List.prefix_rfl⟩
    have hthunks := hc.thunks
    have hbodies := hc.bodies
    have hfiled := hc.filed
    simp only [ClassDef.stock, List.not_mem_nil, false_or] at hthunks hbodies hfiled
    constructor <;> simp only [stock, thunks, bodies, List.flatMap_append, List.flatMap_singleton,
      List.mem_append] <;> grind only

theorem files_constant (name : String) (code : Code) :
    Files [.thunk code] p { p with namedConstants := defineConstant p.namedConstants name code } := by
  refine ⟨?_, rfl, rfl, rfl, rfl, rfl, rfl, List.prefix_rfl⟩
  have hmem : ∀ c ∈ defineConstant p.namedConstants name code, c ∈ p.namedConstants ∨ c.code = code := by
    intro c hc
    unfold defineConstant at hc
    split at hc
    · obtain ⟨d, hd, rfl⟩ := List.mem_map.mp hc
      split
      · exact .inr rfl
      · exact .inl hd
    · rcases List.mem_append.mp hc with hc | hc
      · exact .inl hc
      · rw [List.mem_singleton.mp hc]
        exact .inr rfl
  constructor
  · simp only [stock, thunks, List.mem_append, List.mem_map, List.mem_singleton]
    grind only
  all_goals
    simp only [stock, bodies, List.mem_singleton]
    grind only

/-- A clause added to one table is the only clause the tables gain. -/
theorem mem_clauses (tables : List (List CatchEntry)) (id : Nat) (entry : CatchEntry)
    (hid : id < tables.length) (c : Code) :
    c ∈ (tables.modify id (· ++ [entry])).flatMap (·.map CatchEntry.code) ↔
      c ∈ tables.flatMap (·.map CatchEntry.code) ∨ c = entry.code := by
  induction tables generalizing id with
  | nil => exact absurd hid (Nat.not_lt_zero id)
  | cons table tables ih =>
      cases id with
      | zero =>
          simp only [List.modify_zero_cons, List.flatMap_cons, List.map_append, List.mem_append,
            List.map_cons, List.map_nil, List.mem_singleton]
          grind
      | succ id =>
          simp only [List.modify_succ_cons, List.flatMap_cons, List.mem_append]
          rw [ih id (Nat.lt_of_succ_lt_succ hid), or_assoc]

theorem files_catch {id : Nat} (hid : id < p.exceptions.length) (entry : CatchEntry) :
    Files [.body entry.code] p { p with exceptions := p.exceptions.modify id (· ++ [entry]) } := by
  refine ⟨?_, rfl, rfl, rfl, rfl, rfl, List.length_modify .., List.prefix_rfl⟩
  have hmem := mem_clauses p.exceptions id entry hid
  constructor <;> simp only [stock, thunks, bodies, List.mem_append, hmem] <;> intro k hk <;> grind

end Program

end StackScript
