/-
What is decided about handlers before a container is finished.

Containers that hold one expression have no handlers at all.  The others are filled with statements, and
whether they are balanced depends on the jumps recorded while they were filled.  `Judges` says that a run
has added nothing but what these jumps account for; it is passed along from one run to the next, for code
that computes values by `Apart` and for statements by `Flow`.
-/
import StackScript.Proofs.Aims
import StackScript.Proofs.Tables

namespace StackScript

open Gen

/-! ### Recorded jumps -/

/-- None of the jumps recorded between two states leaves a protected body. -/
def Stays (s t : GenState) : Prop := ∀ js ∈ t.jumps.drop s.jumps.length, ∀ b ∈ js, b.isProtected = false

theorem stays_same {s t : GenState} (h : t.jumps = s.jumps) : Stays s t := by
  unfold Stays
  rw [h, List.drop_length]
  exact fun js hjs => absurd hjs (List.not_mem_nil)

theorem stays_trans {s t u : GenState} (h : s.jumps <+: t.jumps) (h' : t.jumps <+: u.jumps) :
    Stays s u ↔ Stays s t ∧ Stays t u := by
  obtain ⟨js, hjs⟩ := h
  obtain ⟨ks, hks⟩ := h'
  unfold Stays
  rw [← hks, ← hjs, List.drop_left, List.append_assoc, List.drop_left, ← List.append_assoc, List.drop_left]
  constructor
  · intro h
    exact ⟨fun l hl => h l (List.mem_append_left _ hl), fun l hl => h l (List.mem_append_right _ hl)⟩
  · rintro ⟨h, h'⟩ l hl
    rcases List.mem_append.mp hl with hl | hl
    · exact h l hl
    · exact h' l hl

/-! ### Verdicts -/

section

variable (F : List SwitchTable)

/-- Code that holds one expression is balanced, in whatever table it is. -/
structure Calm (s : GenState) : Prop where
  thunks : ∀ c ∈ s.program.thunks, Balanced F c
  statics : ∀ frame ∈ s.statics, ∀ v ∈ frame, Balanced F v.init

variable {F} in
theorem Calm.congr {s t : GenState} (h : Calm F s) (hp : t.program.stock = s.program.stock)
    (hs : t.statics = s.statics) : Calm F t where
  thunks := by
    have : t.program.thunks = s.program.thunks := congrArg Stock.thunks hp
    rw [this]
    exact h.thunks
  statics := by
    rw [hs]
    exact h.statics

def Bodies (s : GenState) : Prop := ∀ c ∈ s.program.bodies, Balanced F c

/-- What was added between two states, as far as `P` says so, and all bodies are balanced exactly when the
bodies were before and no jump since then leaves a protected body. -/
def Judges (P : Prop) (s t : GenState) : Prop := P ∧ Bodies F t ↔ Bodies F s ∧ Stays s t

variable {F}

theorem Judges.trans {P Q : Prop} {s t u : GenState} (h : Judges F P s t) (h' : Judges F Q t u)
    (hs : s.jumps <+: t.jumps) (ht : t.jumps <+: u.jumps) : Judges F (P ∧ Q) s u := by
  unfold Judges at h h' ⊢
  rw [stays_trans hs ht, ← and_assoc, ← h, and_assoc, and_assoc, h']

/-- A step that neither files code nor records a jump. -/
theorem Judges.still {P : Prop} {s t : GenState} (hp : P) (hb : t.program.bodies = s.program.bodies)
    (hj : t.jumps = s.jumps) : Judges F P s t := by
  unfold Judges Bodies
  rw [hb]
  exact ⟨fun h => ⟨h.2, stays_same hj⟩, fun h => ⟨hp, h.1⟩⟩

theorem Judges.congr {P Q : Prop} {s t : GenState} (h : Judges F P s t) (hpq : P ↔ Q) : Judges F Q s t := by
  unfold Judges at h ⊢
  rw [← hpq]
  exact h

/-! ### Code that computes values -/

variable (F) in
/-- What comes of a run that computes values: of what it makes on the side, only bodies need a verdict. -/
structure Apart (made : List Made) (s t : GenState) : Prop where
  calm : Calm F t
  thunks : ∀ c, .thunk c ∈ made → Balanced F c
  judges : Judges F (∀ c, .body c ∈ made → Balanced F c) s t

namespace Apart

variable {made made' : List Made} {s t u : GenState}

theorem trans (h : Apart F made s t) (h' : Apart F made' t u) (hk : Keeps s t) (hk' : Keeps t u) :
    Apart F (made ++ made') s u where
  calm := h'.calm
  thunks := by
    intro c hc
    rcases List.mem_append.mp hc with hc | hc
    · exact h.thunks c hc
    · exact h'.thunks c hc
  judges := by
    refine (h.judges.trans h'.judges hk.jumps hk'.jumps).congr ?_
    simp only [List.mem_append]
    exact ⟨fun hp c hc => hc.elim (hp.1 c) (hp.2 c), fun hp => ⟨fun c hc => hp c (.inl hc), fun c hc => hp c (.inr hc)⟩⟩

/-- A step that makes nothing. -/
theorem still (hs : Calm F s) (hp : t.program.stock = s.program.stock) (hst : t.statics = s.statics)
    (hj : t.jumps = s.jumps) : Apart F [] s t where
  calm := hs.congr hp hst
  thunks := fun _ hc => absurd hc (List.not_mem_nil)
  judges := .still (fun _ hc => absurd hc (List.not_mem_nil)) (congrArg Stock.bodies hp) hj

/-- The same run between states that differ in nothing that matters here. -/
theorem congr {s' t' : GenState} (h : Apart F made s t) (hs : s'.program = s.program) (hsj : s'.jumps = s.jumps)
    (ht : t'.program = t.program) (htj : t'.jumps = t.jumps) (hst : t'.statics = t.statics) :
    Apart F made s' t' where
  calm := ⟨by rw [ht]; exact h.calm.thunks, by rw [hst]; exact h.calm.statics⟩
  thunks := h.thunks
  judges := by
    have := h.judges
    unfold Judges Bodies Stays at this ⊢
    rw [hs, hsj, ht, htj]
    exact this

theorem thunk (h : Apart F made s t) {code : Code} (hc : Level #[] code) : Apart F (made ++ [Made.thunk code]) s t where
  calm := h.calm
  thunks := by
    intro c hmem
    rcases List.mem_append.mp hmem with hmem | hmem
    · exact h.thunks c hmem
    · cases List.mem_singleton.mp hmem
      exact hc.balanced F
  judges := by
    refine h.judges.congr ?_
    simp

theorem statics (h : Apart F made { s with statics := [] :: s.statics } t) :
    Apart F (made ++ (t.statics.headD []).map fun v => Made.thunk v.init) s { t with statics := t.statics.tail } where
  calm := ⟨h.calm.thunks, fun frame hf => h.calm.statics frame (List.mem_of_mem_tail hf)⟩
  thunks := by
    intro c hc
    rcases List.mem_append.mp hc with hc | hc
    · exact h.thunks c hc
    · obtain ⟨v, hv, heq⟩ := List.mem_map.mp hc
      cases heq
      exact StaticVar.forall_last h.calm.statics v hv
  judges := by
    refine h.judges.congr ?_
    simp

theorem static (h : Apart F made s t) {v : StaticVar}
    (hv : made = [.thunk v.init] ∨ made = [] ∧ v.init = #[]) {frame : List StaticVar}
    {frames : List (List StaticVar)} (hs : t.statics = frame :: frames) :
    Apart F [] s { t with statics := (frame ++ [v]) :: frames } where
  calm := by
    refine ⟨h.calm.thunks, ?_⟩
    have old := h.calm.statics
    rw [hs] at old
    have hinit : Balanced F v.init := by
      rcases hv with rfl | ⟨-, hv⟩
      · exact h.thunks _ (List.mem_singleton.mpr rfl)
      · rw [hv]
        exact balanced_empty F
    exact StaticVar.forall_add old hinit
  thunks := fun c hc => absurd hc (List.not_mem_nil)
  judges := by
    refine h.judges.congr ⟨fun _ c hc => absurd hc (List.not_mem_nil), fun _ c hc => ?_⟩
    rcases hv with rfl | ⟨rfl, -⟩
    · cases List.mem_singleton.mp hc
    · exact absurd hc (List.not_mem_nil)

/-- What was made finds its place. -/
theorem file (h : Apart F made s t) {q : Program} (hq : Files made t.program q) :
    Apart F [] s { t with program := q } where
  calm := by
    refine ⟨fun c hc => ?_, h.calm.statics⟩
    rcases hq.stock.thunks c hc with hc | hc
    · exact h.calm.thunks c hc
    · exact h.thunks c hc
  thunks := fun c hc => absurd hc (List.not_mem_nil)
  judges := by
    have judged := h.judges
    unfold Judges at judged ⊢
    refine Iff.trans ⟨?_, ?_⟩ judged
    · rintro ⟨-, hb⟩
      exact ⟨fun c hc => hb c (hq.stock.filed c hc), fun c hc => hb c (hq.stock.kept c hc)⟩
    · rintro ⟨hmade, hb⟩
      refine ⟨fun c hc => absurd hc (List.not_mem_nil), fun c hc => ?_⟩
      rcases hq.stock.bodies c hc with hc | hc | rfl
      · exact hb c hc
      · exact hmade c hc
      · exact balanced_empty F

end Apart

/-! ### Statements -/

/-- What of an instruction never changes once it is emitted and its operands are done. -/
def Instruction.form (x : Instruction) : Opcode × Operand := (x.op, x.p3)

/-- Filling in targets changes no form. -/
theorem forms_fill {α : Type} (index : α → Nat) (target : Nat) (js : List α) (code : Code) (i : Nat) :
    (js.foldl (fun code j => code.patch (index j) target) code)[i]?.map Instruction.form =
      code[i]?.map Instruction.form := by
  rw [getElem?_foldl_patch]
  split
  · rw [Option.map_map]
    rfl
  · rfl

/-- The jumps added between two states aim where as many handlers are installed as where they are. -/
def Straight (E : Nat → Nat) (s t : GenState) : Prop :=
  ∀ (i : Nat) (x : Instruction), s.code.size ≤ i → t.code[i]? = some x → x.op.isEdge = true → E i = handlers t.code i

variable (F) in
/-- Wherever a switch added between two states goes, as many handlers are installed as where it is. -/
def Dispatches (s t : GenState) : Prop :=
  ∀ (i : Nat) (x : Instruction), s.code.size ≤ i → t.code[i]? = some x → x.op = .switch → ∀ j ∈ x.targets F,
    j ≤ t.code.size ∧ handlers t.code j = handlers t.code i

variable (F) in
/-- Statements have been added: earlier instructions have at most got their targets. -/
structure Flow (E E' : Nat → Nat) (s t : GenState) : Prop where
  grows : s.code.size ≤ t.code.size
  aims : ∀ i < s.code.size, E' i = E i
  forms : ∀ i < s.code.size, t.code[i]?.map Instruction.form = s.code[i]?.map Instruction.form
  pops : ∀ (i : Nat) (x : Instruction), s.code.size ≤ i → t.code[i]? = some x → x.op = .popException →
    0 < handlers t.code i
  jumps : s.jumps <+: t.jumps
  judges : Judges F (Straight E' s t) s t

namespace Flow

variable {E E' E'' : Nat → Nat} {s t u : GenState}

theorem ops (h : Flow F E E' s t) {i : Nat} (hi : i < s.code.size) :
    t.code[i]?.map Instruction.op = s.code[i]?.map Instruction.op := by
  have := congrArg (Option.map Prod.fst) (h.forms i hi)
  rw [Option.map_map, Option.map_map] at this
  exact this

theorem handlers (h : Flow F E E' s t) {i : Nat} (hi : i ≤ s.code.size) :
    StackScript.handlers t.code i = StackScript.handlers s.code i :=
  handlers_congr (fun _ hk => h.ops hk) i hi

/-- An instruction that was there has not changed its form. -/
theorem earlier (h : Flow F E E' s t) {i : Nat} (hi : i < s.code.size) {y : Instruction} (hy : t.code[i]? = some y) :
    ∃ x, s.code[i]? = some x ∧ x.op = y.op ∧ x.p3 = y.p3 := by
  have hform := h.forms i hi
  rw [hy] at hform
  obtain ⟨x, hx, heq⟩ := Option.map_eq_some_iff.mp hform.symm
  exact ⟨x, hx, congrArg Prod.fst heq, congrArg Prod.snd heq⟩

theorem later (h : Flow F E E' s t) {i : Nat} (hi : i < s.code.size) {x : Instruction} (hx : s.code[i]? = some x) :
    ∃ y, t.code[i]? = some y ∧ y.op = x.op ∧ y.p3 = x.p3 := by
  have hform := h.forms i hi
  rw [hx] at hform
  obtain ⟨y, hy, heq⟩ := Option.map_eq_some_iff.mp hform
  exact ⟨y, hy, congrArg Prod.fst heq, congrArg Prod.snd heq⟩

theorem straight_trans (h : Flow F E' E'' t u) (hst : s.code.size ≤ t.code.size) :
    Straight E'' s u ↔ Straight E' s t ∧ Straight E'' t u := by
  constructor
  · refine fun hs => ⟨fun i x hi hx he => ?_, fun i x hi => hs i x (Nat.le_trans hst hi)⟩
    have hlt := (Array.getElem?_eq_some_iff.mp hx).1
    obtain ⟨y, hy, hop, -⟩ := h.later hlt hx
    rw [← h.aims i hlt, ← h.handlers (Nat.le_of_lt hlt)]
    exact hs i y hi hy (by rw [hop]; exact he)
  · rintro ⟨hs, ht⟩ i y hi hy he
    by_cases hlt : i < t.code.size
    · obtain ⟨x, hx, hop, -⟩ := h.earlier hlt hy
      rw [h.aims i hlt, h.handlers (Nat.le_of_lt hlt)]
      exact hs i x hi hx (by rw [hop]; exact he)
    · exact ht i y (Nat.le_of_not_lt hlt) hy he

theorem trans (h : Flow F E E' s t) (h' : Flow F E' E'' t u) : Flow F E E'' s u where
  grows := Nat.le_trans h.grows h'.grows
  aims := by
    intro i hi
    rw [h'.aims i (Nat.lt_of_lt_of_le hi h.grows), h.aims i hi]
  forms := by
    intro i hi
    rw [h'.forms i (Nat.lt_of_lt_of_le hi h.grows), h.forms i hi]
  pops := by
    intro i y hi hy hop
    by_cases hlt : i < t.code.size
    · obtain ⟨x, hx, hxop, -⟩ := h'.earlier hlt hy
      rw [h'.handlers (Nat.le_of_lt hlt)]
      exact h.pops i x hi hx (hxop.trans hop)
    · exact h'.pops i y (Nat.le_of_not_lt hlt) hy hop
  jumps := h.jumps.trans h'.jumps
  judges := (h.judges.trans h'.judges h.jumps h'.jumps).congr (h'.straight_trans h.grows).symm

/-- A step that adds no code. -/
theorem still (hsize : t.code.size = s.code.size)
    (hforms : ∀ i : Nat, t.code[i]?.map Instruction.form = s.code[i]?.map Instruction.form)
    (hb : t.program.bodies = s.program.bodies) (hj : t.jumps = s.jumps) : Flow F E E s t where
  grows := Nat.le_of_eq hsize.symm
  aims := fun _ _ => rfl
  forms := fun i _ => hforms i
  pops := by
    intro i x hi hx
    rw [Array.getElem?_eq_none (by rw [hsize]; exact hi)] at hx
    cases hx
  jumps := by simp [hj]
  judges := by
    refine .still (fun i x hi hx => ?_) hb hj
    rw [Array.getElem?_eq_none (by rw [hsize]; exact hi)] at hx
    cases hx

/-- One instruction is added. -/
theorem push {x : Instruction} {e : Nat} (hc : t.code = s.code.push x) (hpop : x.op = .popException → 0 < s.depth)
    (hb : t.program.bodies = s.program.bodies) (hjumps : s.jumps <+: t.jumps)
    (hj : (x.op.isEdge = true → e = s.depth) ↔ Stays s t) : Flow F E (aim E s.code.size e) s t := by
  have hkept : Extends s.code t.code := by
    rw [hc]
    exact Extends.push _ _
  have hlast : ∀ (i : Nat) (y : Instruction), s.code.size ≤ i → t.code[i]? = some y → i = s.code.size ∧ y = x := by
    intro i y hi hy
    rw [hc, Array.getElem?_push] at hy
    split at hy
    · cases hy
      exact ⟨‹_›, rfl⟩
    · rw [Array.getElem?_eq_none hi] at hy
      cases hy
  have hdepth : StackScript.handlers t.code s.code.size = s.depth := hkept.handlers (Nat.le_refl _)
  refine ⟨hkept.grows, fun i hi => aim_of_ne (Nat.ne_of_lt hi) _ _, fun i hi => by rw [hkept.kept i hi],
    fun i y hi hy hop => ?_, hjumps, ?_⟩
  · obtain ⟨rfl, rfl⟩ := hlast i y hi hy
    rw [hdepth]
    exact hpop hop
  · unfold Judges Bodies
    rw [hb, ← hj, and_comm]
    refine and_congr_right fun _ => ⟨fun hs he => ?_, fun he i y hi hy hedge => ?_⟩
    · have := hs s.code.size x (Nat.le_refl _) (by rw [hc]; exact Array.getElem?_push_size) he
      rwa [aim_self, hdepth] at this
    · obtain ⟨rfl, rfl⟩ := hlast i y hi hy
      rw [aim_self, hdepth]
      exact he hedge

end Flow

end

end StackScript
