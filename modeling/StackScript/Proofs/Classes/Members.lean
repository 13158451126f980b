/-
What a class holds.

What a member adds to its class depends on how it was read: only some members fit the head of the declaration, a
constant is marked as one, and a method has a body exactly where it can be called.  `Member.Fits` says so of what was
read, and a class to which only such members are added is well formed.  Nothing of this asks whether the members are
free of errors, but for the place of virtual methods: one that may not be virtual is kept together with an error.
-/
import StackScript.Proofs.ClassDeclarations

namespace StackScript

open Gen

/-! ### Well-formed classes -/

/-- A container that ends where a script or a function does. -/
def Code.EndsInDone (code : Code) : Prop := ∃ last, code.back? = some last ∧ last.op = .done

/-- An attribute of a class of this kind: a constant has a value and no type, and everything else has a type and is in
no interface. -/
structure Attribute.WellFormed (kind : ClassFlags) (a : Attribute) : Prop where
  interface : kind.isInterface = true → a.flags.isConstant = true
  constant : a.flags.isConstant = true → a.type = none ∧ ∃ code, a.init = some code ∧ code.EndsInDone
  typed : a.flags.isConstant = false → a.type.isSome = true

/-- A method of a class of this kind, and its signature, which lists the types of the arguments where each has one. -/
structure Method.WellFormed (kind : ClassFlags) (m : Method) : Prop where
  body : m.hasBody = true ↔ kind.isInterface = false ∧ m.flags.isVirtual = false
  visible : kind.isInterface = true → m.visibility = .public_
  signed : m.function.signature.isSome = true ↔
    m.function.args ≠ [] ∧ ∀ a ∈ m.function.args, a.type.isSome = true
  listed : ∀ signature, m.function.signature = some signature →
    signature.items.map some = m.function.args.map Argument.type

structure ClassDef.WellFormed (c : ClassDef) : Prop where
  attributes : ∀ a ∈ c.attributes, a.WellFormed c.flags
  methods : ∀ m ∈ c.methods, m.WellFormed c.flags

/-- Whether a virtual method may stand in a class of this kind. -/
def Method.InPlace (kind : ClassFlags) (m : Method) : Prop :=
  m.flags.isVirtual = true → kind.isVirtual = true ∧ m.visibility ≠ .private_

/-- Every virtual method may stand where it does. -/
def ClassDef.InPlace (c : ClassDef) : Prop := ∀ m ∈ c.methods, m.InPlace c.flags

/-! ### Signatures -/

namespace FunctionDef

/-- The types of arguments are known together when each of them is. -/
theorem mapM_type_eq_some {args : List Argument} {types : List TypeSpec} :
    args.mapM Argument.type = some types ↔ types.map some = args.map Argument.type := by
  induction args generalizing types with
  | nil => cases types <;> simp
  | cons a args ih =>
      rw [List.mapM_cons, List.map_cons]
      cases types with
      | nil => cases a.type <;> cases args.mapM Argument.type <;> simp
      | cons type types =>
          rw [List.map_cons, List.cons.injEq, ← ih, eq_comm (a := some type)]
          cases a.type <;> cases args.mapM Argument.type <;> simp

theorem signatureOf_eq_some {args : List Argument} {signature : Signature} :
    signatureOf args = some signature ↔ args ≠ [] ∧ signature.items.map some = args.map Argument.type := by
  unfold signatureOf
  cases args with
  | nil => simp
  | cons a args =>
      rw [if_neg (by simp), Option.map_eq_some_iff, ← mapM_type_eq_some]
      constructor
      · rintro ⟨types, htypes, rfl⟩
        exact ⟨List.cons_ne_nil _ _, htypes⟩
      · exact fun h => ⟨signature.items, h.2, rfl⟩

theorem isSome_signatureOf {args : List Argument} :
    (signatureOf args).isSome = true ↔ args ≠ [] ∧ ∀ a ∈ args, a.type.isSome = true := by
  rw [Option.isSome_iff_exists]
  constructor
  · rintro ⟨signature, h⟩
    obtain ⟨hargs, htypes⟩ := signatureOf_eq_some.mp h
    refine ⟨hargs, fun a ha => ?_⟩
    have hmem : a.type ∈ signature.items.map some := htypes ▸ List.mem_map_of_mem ha
    obtain ⟨type, -, htype⟩ := List.mem_map.mp hmem
    rw [← htype]
    rfl
  · rintro ⟨hargs, htyped⟩
    refine ⟨⟨args.filterMap Argument.type⟩, signatureOf_eq_some.mpr ⟨hargs, ?_⟩⟩
    rw [List.map_filterMap_some_eq_filter_map_isSome, List.filter_eq_self]
    intro type htype
    obtain ⟨a, ha, rfl⟩ := List.mem_map.mp htype
    exact htyped a ha

end FunctionDef

/-! ### The values and bodies of members -/

namespace Gen

/-- The container of an expression ends in a return. -/
theorem thunk_endsInDone (line : Nat) (isPresent : Bool) (value : Gen Unit) (s : GenState) :
    (result (thunk line isPresent value) s).EndsInDone := ⟨_, Array.back?_push, rfl⟩

theorem memberValue_endsInDone (head : MemberHead) (problem : Problem) (line : Nat) (isPresent : Bool)
    (value : Gen Unit) (s : GenState) : (result (memberValue head problem line isPresent value) s).EndsInDone := by
  cases isPresent with
  | true => exact thunk_endsInDone line true value s
  | false => exact thunk_endsInDone line false value s

/-- The container of a body ends in a return, too, so it is not empty. -/
theorem functionBody_endsInDone (name : String) (className : Option String) (body : Gen Unit) (s : GenState) :
    (result (functionBody name className body) s).1.EndsInDone := ⟨_, Array.back?_push, rfl⟩

theorem functionDef_endsInDone (head : FunctionHead) (args : List Argument) (body : Gen Unit) (s : GenState) :
    (result (functionDef head args body) s).code.EndsInDone := by
  unfold functionDef
  split
  · exact functionBody_endsInDone head.name _ body _
  · exact functionBody_endsInDone head.name none body s

/-- The body of a function has nothing to do with its signature. -/
theorem functionDef_signature (head : FunctionHead) (args : List Argument) (body : Gen Unit) (s : GenState) :
    (result (functionDef head args body) s).signature =
      FunctionDef.signatureOf (result (functionDef head args body) s).args := by
  unfold functionDef
  split
  · rfl
  · rfl

end Gen

/-! ### Members that fit -/

/-- A member as it may be read in a declaration of this kind. -/
def Member.Fits (kind : ClassFlags) : Member → Prop
  | .report _ => True
  | .constant head _ _ => head.flags.isConstant = true
  | .attribute head _ | .attributeValue head _ _ _ => kind.isInterface = false ∧ head.flags.isConstant = false
  | .signature head _ _ _ =>
    (kind.isInterface = true ∨ head.flags.isVirtual = true) ∧ (kind.isInterface = true → head.visibility = .public_)
  | .method head _ _ _ _ => kind.isInterface = false ∧ head.flags.isVirtual = false

/-- A virtual method stands where it may, if the member is one. -/
def Member.InPlace (kind : ClassFlags) : Member → Prop
  | .signature head _ _ _ | .method head _ _ _ _ =>
    head.flags.isVirtual = true → kind.isVirtual = true ∧ head.visibility ≠ .private_
  | _ => True

/-- Members of a declaration of this kind.  They tell of an error, or every virtual method among them stands where it
may. -/
structure Member.AllFit (kind : ClassFlags) (members : List Member) : Prop where
  fits : ∀ m ∈ members, m.Fits kind
  accounted : (∃ r : Report, .report r ∈ members ∧ r.isError = true) ∨ ∀ m ∈ members, m.InPlace kind

namespace ClassDef

variable {c : ClassDef}

theorem WellFormed.addAttribute (h : c.WellFormed) (head : MemberHead) (type : Option TypeSpec) (init : Option Code)
    (ha : (Attribute.mk head.name type head.visibility head.flags init head.line).WellFormed c.flags) :
    (addAttribute head type init c).WellFormed where
  attributes := List.forall_mem_append.mpr ⟨h.attributes, fun a h' => by rwa [List.mem_singleton.mp h']⟩
  methods := h.methods

theorem WellFormed.addMethod (h : c.WellFormed) (head : MemberHead) (f : FunctionDef)
    (hm : (Method.mk f head.visibility head.flags).WellFormed c.flags) : (addMethod head f c).WellFormed where
  attributes := h.attributes
  methods := List.forall_mem_append.mpr ⟨h.methods, fun m h' => by rwa [List.mem_singleton.mp h']⟩

theorem InPlace.addMethod (h : c.InPlace) (head : MemberHead) (f : FunctionDef)
    (hm : (Method.mk f head.visibility head.flags).InPlace c.flags) : (addMethod head f c).InPlace :=
  List.forall_mem_append.mpr ⟨h, fun m h' => by rwa [List.mem_singleton.mp h']⟩

end ClassDef

namespace Method.WellFormed

variable {kind : ClassFlags} {m : Method}

/-- A method without a body. -/
theorem of_abstract (hsignature : m.function.signature = FunctionDef.signatureOf m.function.args)
    (hcode : m.function.code = #[]) (habstract : kind.isInterface = true ∨ m.flags.isVirtual = true)
    (hvisible : kind.isInterface = true → m.visibility = .public_) : m.WellFormed kind where
  body := by
    have empty : m.hasBody = false := by simp [hasBody, hcode]
    rw [empty]
    refine ⟨fun h => Bool.noConfusion h, fun h => ?_⟩
    rcases habstract with hkind | hvirtual
    · exact h.1.symm.trans hkind
    · exact h.2.symm.trans hvirtual
  visible := hvisible
  signed := hsignature ▸ FunctionDef.isSome_signatureOf
  listed := fun _ h => (FunctionDef.signatureOf_eq_some.mp (hsignature ▸ h)).2

/-- A method with a body. -/
theorem of_concrete (hsignature : m.function.signature = FunctionDef.signatureOf m.function.args)
    (hcode : m.function.code.EndsInDone) (hkind : kind.isInterface = false) (hvirtual : m.flags.isVirtual = false) :
    m.WellFormed kind where
  body := by
    obtain ⟨last, hlast, -⟩ := hcode
    have filled : m.function.code ≠ #[] := by
      intro hempty
      rw [hempty] at hlast
      cases hlast
    exact ⟨fun _ => ⟨hkind, hvirtual⟩, fun _ => by simpa [hasBody] using filled⟩
  visible := fun h => Bool.noConfusion (h.symm.trans hkind)
  signed := hsignature ▸ FunctionDef.isSome_signatureOf
  listed := fun _ h => (FunctionDef.signatureOf_eq_some.mp (hsignature ▸ h)).2

end Method.WellFormed

namespace Member

variable {kind : ClassFlags} {c : ClassDef}

theorem flags_gen (m : Member) (c : ClassDef) (s : GenState) : (result (m.gen c) s).flags = c.flags :=
  congrArg (fun title => title.2.1) (m.title_gen c s)

/-- A member that fits is added to a well-formed class. -/
theorem wellFormed_gen (m : Member) (h : m.Fits c.flags) (hc : c.WellFormed) (s : GenState) :
    (result (m.gen c) s).WellFormed := by
  cases m with
  | report r => exact hc
  | constant head line value =>
      have done := memberValue_endsInDone head (.emptyClassConstant head.name) line value.isPresent (value.gen {} none) s
      exact hc.addAttribute head none _
        ⟨fun _ => h, fun _ => ⟨rfl, _, rfl, done⟩, fun hnot => Bool.noConfusion (h.symm.trans hnot)⟩
  | «attribute» head type =>
      exact hc.addAttribute head (some type) none
        ⟨fun hkind => Bool.noConfusion (hkind.symm.trans h.1), fun hconst => Bool.noConfusion (hconst.symm.trans h.2),
          fun _ => rfl⟩
  | attributeValue head type line value =>
      exact hc.addAttribute head (some type) _
        ⟨fun hkind => Bool.noConfusion (hkind.symm.trans h.1), fun hconst => Bool.noConfusion (hconst.symm.trans h.2),
          fun _ => rfl⟩
  | signature head function params fault => exact hc.addMethod head _ (.of_abstract rfl rfl h.1 h.2)
  | method head function params fault body =>
      exact hc.addMethod head _ (.of_concrete (functionDef_signature function _ body.gen _)
        (functionDef_endsInDone function _ body.gen _) h.1 h.2)

/-- A virtual method that stands where it may still does so in its class. -/
theorem inPlace_gen (m : Member) (h : m.InPlace c.flags) (hc : c.InPlace) (s : GenState) :
    (result (m.gen c) s).InPlace := by
  cases m with
  | report r => exact hc
  | constant head line value => exact hc
  | «attribute» head type => exact hc
  | attributeValue head type line value => exact hc
  | signature head function params fault => exact hc.addMethod head _ h
  | method head function params fault body => exact hc.addMethod head _ h

theorem wellFormed_genAll (ms : List Member) (h : ∀ m ∈ ms, m.Fits c.flags) (hc : c.WellFormed) (s : GenState) :
    (result (genAll ms c) s).WellFormed := by
  induction ms generalizing c s with
  | nil => exact hc
  | cons m ms ih =>
      have rest : ∀ m' ∈ ms, m'.Fits (result (m.gen c) s).flags := by
        intro m' hm'
        rw [m.flags_gen]
        exact h m' (List.mem_cons_of_mem _ hm')
      exact ih rest (m.wellFormed_gen (h m List.mem_cons_self) hc s) _

theorem inPlace_genAll (ms : List Member) (h : ∀ m ∈ ms, m.InPlace c.flags) (hc : c.InPlace) (s : GenState) :
    (result (genAll ms c) s).InPlace := by
  induction ms generalizing c s with
  | nil => exact hc
  | cons m ms ih =>
      have rest : ∀ m' ∈ ms, m'.InPlace (result (m.gen c) s).flags := by
        intro m' hm'
        rw [m.flags_gen]
        exact h m' (List.mem_cons_of_mem _ hm')
      exact ih rest (m.inPlace_gen (h m List.mem_cons_self) hc s) _

/-- An error among the members is reported. -/
theorem errors_lt_genAll (ms : List Member) {r : Report} (hr : .report r ∈ ms) (he : r.isError = true) (c : ClassDef)
    (s : GenState) : s.errors < (after (genAll ms c) s).errors := by
  have rises (ms : List Member) (c : ClassDef) (s : GenState) : s.errors ≤ (after (genAll ms c) s).errors := by
    obtain ⟨made, h, -⟩ := addsMembers_genAll ms c s
    exact Grown.errors_le h.frame
  induction ms generalizing c s with
  | nil => cases hr
  | cons m ms ih =>
      rw [genAll, after_bind]
      rcases List.mem_cons.mp hr with rfl | hr
      · have reported : s.errors < (after ((Member.report r).gen c) s).errors :=
          errors_lt_report r.line s (of_decide_eq_true he)
        exact Nat.lt_of_lt_of_le reported (rises ms _ _)
      · obtain ⟨made, h, -⟩ := addsMembers_gen m c s
        exact Nat.lt_of_le_of_lt (Grown.errors_le h.frame) (ih hr _ _)

end Member

end StackScript
