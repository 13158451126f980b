/-
The registry of functions and classes.

Functions of one name are overloads and are told apart by the digests of their signatures; classes have unique names.
A program keeps both in the order in which they were installed, and searches them by name.  `Registry` is the same with
an index: for each name it keeps the positions of what has that name, so that nothing is searched.  The index is touched
even by a request that is refused, so what has to be shown is that it stays in step with the tables (`Indexes.install`).

The digest is one of the flattened key and not of the signature, and a key does not tell where the name of a class ends,
nor whether it is the class or an array of it: overloads that differ only there are taken for duplicates.
-/
import Mathlib.Data.List.Nodup
import Std.Data.HashMap.Lemmas
import StackScript.Program

namespace StackScript

/-- What can be installed. -/
inductive Declaration where
  | function (f : FunctionDef)
  | class_ (c : ClassDef)

namespace Declaration

def function? : Declaration → Option FunctionDef
  | function f => some f
  | class_ _ => none

def class? : Declaration → Option ClassDef
  | function _ => none
  | class_ c => some c

end Declaration

namespace Program

/-- Installs a declaration, unless it is a duplicate. -/
def install? (p : Program) : Declaration → Option Program
  | .function f => p.installFunction? f
  | .class_ c => p.installClass? c

/-- The program after some requests: duplicates are refused and leave it as it is. -/
def install (p : Program) : List Declaration → Program
  | [] => p
  | d :: ds => ((p.install? d).getD p).install ds

/-- The declarations that are not refused, in the order of the requests. -/
def installed (p : Program) : List Declaration → List Declaration
  | [] => []
  | d :: ds => (if (p.install? d).isSome then [d] else []) ++ ((p.install? d).getD p).installed ds

variable {p q : Program} {d : Declaration}

/-- What is installed comes last. -/
theorem tables_install? (h : p.install? d = some q) :
    q.functions = p.functions ++ d.function?.toList ∧ q.classes = p.classes ++ d.class?.toList := by
  cases d with
  | function f =>
      unfold install? installFunction? at h
      dsimp only at h
      split at h
      · cases h
      · cases h
        exact ⟨rfl, (List.append_nil _).symm⟩
  | class_ c =>
      unfold install? installClass? at h
      dsimp only at h
      split at h
      · cases h
      · cases h
        exact ⟨(List.append_nil _).symm, rfl⟩

theorem tables_install (p : Program) (ds : List Declaration) :
    (p.install ds).functions = p.functions ++ (p.installed ds).filterMap Declaration.function? ∧
      (p.install ds).classes = p.classes ++ (p.installed ds).filterMap Declaration.class? := by
  induction ds generalizing p with
  | nil => exact ⟨(List.append_nil _).symm, (List.append_nil _).symm⟩
  | cons d ds ih =>
      rw [install, installed]
      cases hd : p.install? d with
      | none => exact ih p
      | some q =>
          obtain ⟨hfunctions, hclasses⟩ := tables_install? hd
          obtain ⟨ihfunctions, ihclasses⟩ := ih q
          rw [Option.getD_some, ihfunctions, ihclasses, hfunctions, hclasses]
          constructor
          · cases d <;> simp [List.filterMap_cons, Declaration.function?]
          · cases d <;> simp [List.filterMap_cons, Declaration.class?]

theorem tables_empty (constants : ConstantPool) (ds : List Declaration) :
    ((empty constants).install ds).functions = ((empty constants).installed ds).filterMap Declaration.function? ∧
      ((empty constants).install ds).classes = ((empty constants).installed ds).filterMap Declaration.class? :=
  tables_install (empty constants) ds

theorem mem_installed {constants : ConstantPool} {ds : List Declaration} {f : FunctionDef} :
    .function f ∈ (empty constants).installed ds ↔ f ∈ ((empty constants).install ds).functions := by
  rw [(tables_empty constants ds).1, List.mem_filterMap]
  refine ⟨fun hf => ⟨_, hf, rfl⟩, ?_⟩
  rintro ⟨_ | _, hf, h⟩
  · cases h
    exact hf
  · cases h

theorem install_append (p : Program) (ds es : List Declaration) : p.install (ds ++ es) = (p.install ds).install es := by
  induction ds generalizing p with
  | nil => rfl
  | cons d ds ih => exact ih _

theorem installed_append (p : Program) (ds es : List Declaration) :
    p.installed (ds ++ es) = p.installed ds ++ (p.install ds).installed es := by
  induction ds generalizing p with
  | nil => rfl
  | cons d ds ih => rw [List.cons_append, installed, installed, ih, List.append_assoc, install]

/-! ### Classes -/

/-- Classes have different names. -/
def Unambiguous (p : Program) : Prop := (p.classes.map ClassDef.name).Nodup

theorem Unambiguous.install? (h : p.Unambiguous) (hd : p.install? d = some q) : q.Unambiguous := by
  unfold Unambiguous at h ⊢
  rw [(tables_install? hd).2]
  cases d with
  | function f =>
      rw [Declaration.class?, Option.toList_none, List.append_nil]
      exact h
  | class_ c =>
      have fresh : ∀ e ∈ p.classes, e.name ≠ c.name := by
        intro e he hname
        have taken : (p.class? c.name).isSome := List.find?_isSome.mpr ⟨e, he, beq_iff_eq.mpr hname⟩
        rw [Program.install?, installClass?, if_pos taken] at hd
        cases hd
      rw [Declaration.class?, Option.toList_some, List.map_append, List.nodup_append]
      refine ⟨h, List.pairwise_singleton _ _, fun a ha b hb => ?_⟩
      obtain ⟨e, he, rfl⟩ := List.mem_map.mp ha
      obtain rfl := List.mem_singleton.mp hb
      exact fresh e he

theorem Unambiguous.install (h : p.Unambiguous) (ds : List Declaration) : (p.install ds).Unambiguous := by
  induction ds generalizing p with
  | nil => exact h
  | cons d ds ih =>
      rw [Program.install]
      cases hd : p.install? d with
      | none => exact ih h
      | some q => exact ih (h.install? hd)

theorem class?_eq_some_iff (h : p.Unambiguous) {name : String} {c : ClassDef} :
    p.class? name = some c ↔ c ∈ p.classes ∧ c.name = name := by
  have found {name : String} {c : ClassDef} (hc : p.class? name = some c) : c ∈ p.classes ∧ c.name = name := by
    unfold class? at hc
    exact ⟨List.mem_of_find?_eq_some hc, beq_iff_eq.mp (List.find?_some hc :)⟩
  refine ⟨found, ?_⟩
  rintro ⟨hc, rfl⟩
  obtain ⟨e, he⟩ : ∃ e, p.class? c.name = some e :=
    Option.isSome_iff_exists.mp (List.find?_isSome.mpr ⟨c, hc, beq_self_eq_true _⟩)
  rw [he, List.inj_on_of_nodup_map h (found he).1 hc (found he).2]

/-! ### Duplicates -/

/-- No overload of a function has a signature with the digest of the function's one and another key. -/
def Collisionless (p : Program) (f : FunctionDef) : Prop :=
  ∀ g ∈ p.overloads f.name, ∀ a b, g.signature = some a → f.signature = some b → a.digest = b.digest → a.key = b.key

theorem Collisionless.clash_iff {f g : FunctionDef} (h : p.Collisionless f) (hg : g ∈ p.functions) :
    clash f g = true ↔ g.name = f.name ∧ g.signatureKey = f.signatureKey := by
  rw [clash, Bool.and_eq_true, beq_iff_eq, beq_iff_eq, eq_comm (a := f.name), FunctionDef.signatureKey,
    FunctionDef.signatureKey]
  refine and_congr_right fun hname => ?_
  have overload : g ∈ p.overloads f.name := List.mem_filter.mpr ⟨hg, beq_iff_eq.mpr hname⟩
  cases ha : g.signature with
  | none => cases hb : f.signature <;> simp
  | some a =>
      cases hb : f.signature with
      | none => simp
      | some b =>
          simp only [Option.map_some, Option.some.injEq]
          exact ⟨fun hdigest => h g overload a b ha hb hdigest.symm, fun hkey => congrArg Digest.ofString hkey.symm⟩

theorem installFunction?_eq_none {f : FunctionDef} :
    p.installFunction? f = none ↔ ∃ g ∈ p.functions, clash f g = true := by
  unfold installFunction?
  split
  · rename_i h
    exact iff_of_true rfl (List.any_eq_true.mp h)
  · rename_i h
    exact iff_of_false nofun fun hclash => h (List.any_eq_true.mpr hclash)

end Program

namespace DataType

theorem letter_inj {a b : DataType} (h : a.letter = b.letter) : a = b := by
  cases a <;> cases b <;> first | rfl | exact absurd h (by decide)

end DataType

namespace TypeSpec

/-- The letter tells a built-in type, and its case whether it is an array. -/
theorem key_inj {a b : TypeSpec} (ha : a.isClass = false) (hb : b.isClass = false) (h : a.key = b.key) : a = b := by
  have type (x : DataType) (i : Bool) : (if i then x.letter.toUpper else x.letter).toLower = x.letter := by
    cases x <;> cases i <;> rfl
  have array (x : DataType) (i : Bool) : (if i then x.letter.toUpper else x.letter).isUpper = i := by
    cases x <;> cases i <;> rfl
  obtain ⟨x | _, i⟩ := a
  · obtain ⟨y | _, j⟩ := b
    · replace h : (if i then x.letter.toUpper else x.letter) = if j then y.letter.toUpper else y.letter :=
        String.singleton_inj.mp h
      obtain rfl : x = y := DataType.letter_inj (by rw [← type x i, h, type])
      obtain rfl : i = j := by rw [← array x i, h, array]
      rfl
    · cases hb
  · cases ha

theorem length_key {a : TypeSpec} (ha : a.isClass = false) : a.key.toList.length = 1 := by
  obtain ⟨x | _, i⟩ := a
  · exact congrArg List.length (String.toList_singleton _)
  · cases ha

end TypeSpec

namespace Signature

theorem toList_key_cons (a : TypeSpec) (as : List TypeSpec) :
    (key ⟨a :: as⟩).toList = a.key.toList ++ (key ⟨as⟩).toList := by
  rw [key, List.map_cons, String.join_cons, String.toList_append]
  rfl

/-- Signatures of built-in types are told apart by their keys: each type is one letter of it. -/
theorem key_inj {as bs : List TypeSpec} (ha : ∀ a ∈ as, a.isClass = false) (hb : ∀ b ∈ bs, b.isClass = false)
    (h : (key ⟨as⟩).toList = (key ⟨bs⟩).toList) : as = bs := by
  induction as generalizing bs with
  | nil =>
      cases bs with
      | nil => rfl
      | cons b bs =>
          have length := congrArg List.length h
          rw [toList_key_cons, List.length_append, TypeSpec.length_key (hb b List.mem_cons_self)] at length
          exact absurd length (Nat.ne_of_lt (Nat.lt_add_right _ Nat.one_pos))
  | cons a as ih =>
      obtain ⟨ha₀, ha⟩ := List.forall_mem_cons.mp ha
      cases bs with
      | nil =>
          have length := congrArg List.length h
          rw [toList_key_cons, List.length_append, TypeSpec.length_key ha₀] at length
          exact absurd length.symm (Nat.ne_of_lt (Nat.lt_add_right _ Nat.one_pos))
      | cons b bs =>
          obtain ⟨hb₀, hb⟩ := List.forall_mem_cons.mp hb
          rw [toList_key_cons, toList_key_cons] at h
          obtain ⟨hfirst, hrest⟩ := List.append_inj h (by rw [TypeSpec.length_key ha₀, TypeSpec.length_key hb₀])
          rw [TypeSpec.key_inj ha₀ hb₀ (String.toList_inj.mp hfirst), ih ha hb hrest]

/-- The name of a class may read like the key of other types. -/
theorem key_class (s : Signature) (isArray : Bool) : key ⟨[⟨.named s.key, isArray⟩]⟩ = s.key := by
  rw [key, List.map_singleton, String.join_cons]
  exact String.append_empty

theorem exists_key_eq (a : Signature) : ∃ b : Signature, b ≠ a ∧ b.key = a.key := by
  by_cases h : a = ⟨[⟨.named a.key, true⟩]⟩
  · refine ⟨⟨[⟨.named a.key, false⟩]⟩, fun heq => ?_, a.key_class false⟩
    rw [h] at heq
    simp at heq
  · exact ⟨_, fun heq => h heq.symm, a.key_class true⟩

end Signature

namespace Program

/-- A function is refused exactly if there is a function of its name with the same key; functions with the same
signature have the same key, and if no class is named, only they have.  Every signature has the key of another one. -/
theorem installFunction_refused_iff {constants : ConstantPool} {ds : List Declaration} {f : FunctionDef}
    (hdigest : ((empty constants).install ds).Collisionless f) :
    (((empty constants).install ds).install? (.function f) = none ↔
      ∃ g, .function g ∈ (empty constants).installed ds ∧ g.name = f.name ∧ g.signatureKey = f.signatureKey) ∧
    (∀ g, .function g ∈ (empty constants).installed ds → g.name = f.name → g.signature = f.signature →
      ((empty constants).install ds).install? (.function f) = none) ∧
    (∀ a b : Signature, (∀ t ∈ a.items, t.isClass = false) → (∀ t ∈ b.items, t.isClass = false) →
      (a.key = b.key ↔ a = b)) ∧
    ∀ a : Signature, ∃ b : Signature, b ≠ a ∧ b.key = a.key := by
  have refused : ((empty constants).install ds).install? (.function f) = none ↔
      ∃ g, .function g ∈ (empty constants).installed ds ∧ g.name = f.name ∧ g.signatureKey = f.signatureKey := by
    rw [install?, installFunction?_eq_none]
    refine exists_congr fun g => ?_
    rw [mem_installed]
    exact and_congr_right hdigest.clash_iff
  refine ⟨refused, fun g hg hname hsignature => ?_, ?_, Signature.exists_key_eq⟩
  · exact refused.mpr ⟨g, hg, hname, congrArg (Option.map Signature.key) hsignature⟩
  · rintro ⟨as⟩ ⟨bs⟩ ha hb
    exact ⟨fun h => congrArg Signature.mk (Signature.key_inj ha hb (congrArg String.toList h)), congrArg Signature.key⟩

/-- A function without a body. -/
def bodiless (name : String) (types : List TypeSpec) : FunctionDef :=
  { name := name, returns := .mixed, line := 1, signature := some ⟨types⟩ }

/-- An argument of a class `ii` is taken for two of the type `int`. -/
theorem installFunction_refused_class :
    ((empty (.empty 32)).install [.function (bodiless "f" [⟨.named "ii", false⟩])]).install?
      (.function (bodiless "f" [⟨.builtin .int, false⟩, ⟨.builtin .int, false⟩])) = none := by
  refine (installFunction_refused_iff fun g hg a b ha hb _ => ?_).1.mpr ⟨_, List.mem_singleton_self _, rfl, rfl⟩
  obtain rfl := List.mem_singleton.mp (List.mem_of_mem_filter hg)
  cases ha
  cases hb
  rfl

end Program

/-! ### Index -/

/-- Tables with an index: for each name the positions of its functions, each with the digest of its signature, and the
position of its class. -/
structure Registry where
  functions : Array FunctionDef := #[]
  overloads : Std.HashMap String (List (Option UInt64 × Nat)) := ∅
  classes : Array ClassDef := #[]
  classIndex : Std.HashMap String Nat := ∅

namespace Registry

/-- Installs a function, unless its name has one whose signature has the same digest; the name has an entry from now on
in any case. -/
def installFunction (r : Registry) (f : FunctionDef) : Bool × Registry :=
  let digest := f.signature.map Signature.digest
  let entry := r.overloads.getD f.name []
  if entry.any (·.1 == digest) then (false, { r with overloads := r.overloads.insert f.name entry })
  else (true, { r with
    overloads := r.overloads.insert f.name (entry ++ [(digest, r.functions.size)])
    functions := r.functions.push f })

/-- Installs a class, unless its name has one. -/
def installClass (r : Registry) (c : ClassDef) : Bool × Registry :=
  if r.classIndex.contains c.name then (false, r)
  else (true, { r with classIndex := r.classIndex.insert c.name r.classes.size, classes := r.classes.push c })

/-- Installs a declaration, and says whether it is new. -/
def install (r : Registry) : Declaration → Bool × Registry
  | .function f => r.installFunction f
  | .class_ c => r.installClass c

/-- The registry after some requests. -/
def run (r : Registry) : List Declaration → Registry
  | [] => r
  | d :: ds => (r.install d).2.run ds

/-- The functions at the positions of a name. -/
def overloadsOf (r : Registry) (name : String) : List FunctionDef :=
  (r.overloads.getD name []).filterMap fun entry => r.functions[entry.2]?

/-- The class at the position of a name. -/
def class? (r : Registry) (name : String) : Option ClassDef := r.classIndex[name]?.bind fun i => r.classes[i]?

/-- The registry holds the tables of a program, and its index tells the positions in them. -/
structure Indexes (r : Registry) (p : Program) : Prop where
  functions : r.functions.toList = p.functions
  classes : r.classes.toList = p.classes
  overloads : ∀ name, r.overloads.getD name [] =
    (p.functions.zipIdx.filter (·.1.name == name)).map fun entry => (entry.1.signature.map Signature.digest, entry.2)
  classIndex : ∀ name, r.classIndex[name]? = p.classes.findIdx? (·.name == name)

namespace Indexes

variable {r : Registry} {p : Program}

/-- The index finds a duplicate where the table has one. -/
theorem any_digest (h : r.Indexes p) (f : FunctionDef) :
    (r.overloads.getD f.name []).any (·.1 == f.signature.map Signature.digest) = p.functions.any (Program.clash f) := by
  conv_rhs => rw [← List.zipIdx_map_fst 0 p.functions, List.any_map]
  rw [h.overloads, List.any_map, List.any_filter]
  congr 1
  funext entry
  rw [Function.comp_apply, Function.comp_apply, Program.clash, BEq.comm (a := f.name),
    BEq.comm (a := Option.map _ f.signature)]

theorem installFunction (h : r.Indexes p) (f : FunctionDef) :
    (r.installFunction f).1 = (p.installFunction? f).isSome ∧
      (r.installFunction f).2.Indexes ((p.installFunction? f).getD p) := by
  unfold Registry.installFunction Program.installFunction?
  dsimp only
  rw [h.any_digest]
  split
  · refine ⟨rfl, h.functions, h.classes, fun name => ?_, h.classIndex⟩
    show (r.overloads.insert f.name (r.overloads.getD f.name [])).getD name [] = _
    rw [Std.HashMap.getD_insert]
    split
    · rename_i hname
      rw [beq_iff_eq.mp hname]
      exact h.overloads name
    · exact h.overloads name
  · refine ⟨rfl, ?_, h.classes, fun name => ?_, h.classIndex⟩
    · show (r.functions.push f).toList = p.functions ++ [f]
      rw [Array.toList_push, h.functions]
    · show (r.overloads.insert f.name _).getD name [] = List.map _ (List.filter _ (p.functions ++ [f]).zipIdx)
      rw [Std.HashMap.getD_insert, List.zipIdx_append, List.filter_append, List.map_append, ← h.overloads name,
        ← h.functions, Array.length_toList, List.zipIdx_singleton, List.filter_cons, List.filter_nil, Nat.zero_add]
      by_cases hname : (f.name == name) = true
      · rw [if_pos hname, if_pos hname, beq_iff_eq.mp hname]
        rfl
      · rw [if_neg hname, if_neg hname]
        exact (List.append_nil _).symm

theorem installClass (h : r.Indexes p) (c : ClassDef) :
    (r.installClass c).1 = (p.installClass? c).isSome ∧ (r.installClass c).2.Indexes ((p.installClass? c).getD p) := by
  have taken : r.classIndex.contains c.name = (p.class? c.name).isSome := by
    rw [Std.HashMap.contains_eq_isSome_getElem?, h.classIndex, List.findIdx?_isSome, Program.class?, List.isSome_find?]
  unfold Registry.installClass Program.installClass?
  rw [taken]
  split
  · exact ⟨rfl, h⟩
  · rename_i hnew
    refine ⟨rfl, h.functions, ?_, h.overloads, fun name => ?_⟩
    · show (r.classes.push c).toList = p.classes ++ [c]
      rw [Array.toList_push, h.classes]
    · show (r.classIndex.insert c.name r.classes.size)[name]? = (p.classes ++ [c]).findIdx? (·.name == name)
      have fresh : r.classIndex[c.name]? = none := by
        rw [← Option.not_isSome_iff_eq_none, ← Std.HashMap.contains_eq_isSome_getElem?, taken]
        exact hnew
      rw [Std.HashMap.getElem?_insert, List.findIdx?_append, ← h.classIndex name, ← h.classes, Array.length_toList,
        List.findIdx?_singleton]
      split
      · rename_i hname
        rw [← beq_iff_eq.mp hname, fresh]
        exact congrArg some (Nat.zero_add _).symm
      · exact (Option.or_none).symm

/-- Requests keep the index in step with the tables, and are refused by both or by none. -/
theorem install (h : r.Indexes p) (d : Declaration) :
    (r.install d).1 = (p.install? d).isSome ∧ (r.install d).2.Indexes ((p.install? d).getD p) := by
  cases d with
  | function f => exact h.installFunction f
  | class_ c => exact h.installClass c

theorem run (h : r.Indexes p) (ds : List Declaration) : (r.run ds).Indexes (p.install ds) := by
  induction ds generalizing r p with
  | nil => exact h
  | cons d ds ih => exact ih (h.install d).2

/-- The positions of a name are those of its functions. -/
theorem overloadsOf (h : r.Indexes p) (name : String) : r.overloadsOf name = p.overloads name := by
  have positions {entry : FunctionDef × Nat} (hentry : entry ∈ p.functions.zipIdx.filter (·.1.name == name)) :
      r.functions[entry.2]? = some entry.1 := by
    rw [← Array.getElem?_toList, h.functions]
    exact List.mem_zipIdx_iff_getElem?.mp (List.mem_of_mem_filter hentry)
  rw [Registry.overloadsOf, h.overloads, List.filterMap_map, Program.overloads]
  conv_rhs => rw [← List.zipIdx_map_fst 0 p.functions, List.filter_map, ← List.filterMap_eq_map]
  exact List.filterMap_congr fun entry hentry => positions hentry

theorem class? (h : r.Indexes p) (name : String) : r.class? name = p.class? name := by
  rw [Registry.class?, h.classIndex, Program.class?, List.find?_eq_bind_findIdx?_getElem?]
  simp only [← h.classes, Array.getElem?_toList]

end Indexes

end Registry

/-! ### Observations -/

/-- What can be asked of a registry. -/
structure Observations where
  functions : List FunctionDef
  classes : List ClassDef
  overloads : String → List FunctionDef
  function? : String → Option FunctionDef
  class? : String → Option ClassDef

/-- The answers are about these functions and classes and no others: the tables hold them in their order, each name has
its functions in that order, and classes have different names. -/
structure Observations.About (o : Observations) (fs : List FunctionDef) (cs : List ClassDef) : Prop where
  functions : o.functions = fs
  classes : o.classes = cs
  overloads : ∀ name, o.overloads name = fs.filter (·.name == name)
  function? : ∀ name, o.function? name = (o.overloads name).head?
  unambiguous : (cs.map ClassDef.name).Nodup
  class? : ∀ name c, o.class? name = some c ↔ c ∈ cs ∧ c.name = name

def Program.observations (p : Program) : Observations := ⟨p.functions, p.classes, p.overloads, p.function?, p.class?⟩

def Registry.observations (r : Registry) : Observations where
  functions := r.functions.toList
  classes := r.classes.toList
  overloads := r.overloadsOf
  function? name := (r.overloadsOf name).head?
  class? := r.class?

theorem Registry.Indexes.observations {r : Registry} {p : Program} (h : r.Indexes p) :
    r.observations = p.observations := by
  have overloads : r.overloadsOf = p.overloads := funext h.overloadsOf
  unfold Registry.observations Program.observations
  simp only [h.functions, h.classes, overloads, funext h.class?, Observations.mk.injEq, true_and, and_true]
  exact funext fun name => List.head?_filter

namespace Program

variable (constants : ConstantPool) (ds : List Declaration)

/-- However requests are mixed, the answers are about what was not refused, and a refused request changes none of them;
this holds as well of the tables with an index, which refuse the same requests. -/
theorem registry_consistent :
    ((empty constants).install ds).observations.About (((empty constants).installed ds).filterMap Declaration.function?)
        (((empty constants).installed ds).filterMap Declaration.class?) ∧
      (({} : Registry).run ds).observations = ((empty constants).install ds).observations ∧
      ∀ d, ((({} : Registry).run ds).install d).1 = (((empty constants).install ds).install? d).isSome ∧
        (((empty constants).install ds).install? d = none →
          (empty constants).installed (ds ++ [d]) = (empty constants).installed ds ∧
            ((empty constants).install (ds ++ [d])).observations = ((empty constants).install ds).observations ∧
            ((({} : Registry).run ds).install d).2.observations = (({} : Registry).run ds).observations) := by
  have fresh : ({} : Registry).Indexes (empty constants) :=
    ⟨rfl, rfl, fun _ => Std.HashMap.getD_empty, fun _ => Std.HashMap.getElem?_empty⟩
  have indexes := fresh.run ds
  have unambiguous : ((empty constants).install ds).Unambiguous :=
    Unambiguous.install (p := empty constants) List.nodup_nil ds
  obtain ⟨functions, classes⟩ := tables_empty constants ds
  refine ⟨⟨functions, classes, fun name => ?_, fun name => ?_, ?_, fun name c => ?_⟩, indexes.observations, fun d => ?_⟩
  · exact congrArg (List.filter _) functions
  · exact List.head?_filter.symm
  · rw [← classes]
    exact unambiguous
  · rw [← classes]
    exact class?_eq_some_iff unambiguous
  · obtain ⟨outcome, next⟩ := indexes.install d
    refine ⟨outcome, fun hrefused => ?_⟩
    rw [hrefused, Option.getD_none] at next
    have unchanged : (empty constants).install (ds ++ [d]) = (empty constants).install ds := by
      rw [install_append, install, hrefused]
      rfl
    refine ⟨?_, congrArg observations unchanged, next.observations.trans indexes.observations.symm⟩
    rw [installed_append, installed, hrefused]
    exact List.append_nil _

end Program

end StackScript
