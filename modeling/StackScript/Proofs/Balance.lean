/-
Exception handlers are balanced.

Of the jumps in a program only a `break` or `continue` can leave a protected body, and it does so without
removing the handlers of the bodies it leaves.  `Config.handlers_balanced_iff` says that nothing else goes wrong: of a
source without errors every container is balanced exactly when no `break` or `continue` in it leaves a
protected body.
-/
import StackScript.Proofs.Evaluation
import StackScript.Proofs.Verdicts

namespace StackScript

open Gen

section

variable {F : List SwitchTable}

/-! ### One step after another -/

variable (F) in
/-- A state in the middle of statements whose jumps are all aimed. -/
structure Ready (E : Nat → Nat) (s : GenState) : Prop where
  filed : Filed s
  opened : Open s
  calm : Calm F s
  aimed : Aimed E s.depth s

variable (F) in
/-- From one state in the middle of statements to another. -/
structure Moves (E E' : Nat → Nat) (s t : GenState) : Prop where
  ready : Ready F E' t
  flow : Flow F E E' s t
  dispatches : Dispatches F s t

variable (F) in
/-- Statements leave as many handlers as they found. -/
structure Step (E E' : Nat → Nat) (s t : GenState) : Prop extends Moves F E E' s t where
  depth : t.depth = s.depth

theorem Instruction.targets_congr {x y : Instruction} (hop : x.op = y.op) (hp3 : x.p3 = y.p3) (hs : y.op = .switch) :
    x.targets F = y.targets F := by
  unfold Instruction.targets
  rw [hop, hp3, hs]
  cases y.p3 <;> rfl

theorem Dispatches.trans {E E' : Nat → Nat} {s t u : GenState} (h : Dispatches F s t) (h' : Dispatches F t u)
    (hf : Flow F E E' t u) : Dispatches F s u := by
  intro i y hi hy hop j hj
  by_cases hlt : i < t.code.size
  · obtain ⟨x, hx, hxop, hxp3⟩ := hf.earlier hlt hy
    rw [← Instruction.targets_congr hxop hxp3 hop] at hj
    obtain ⟨hle, hj⟩ := h i x hi hx (hxop.trans hop) j hj
    rw [hf.handlers hle, hf.handlers (Nat.le_of_lt hlt)]
    exact ⟨Nat.le_trans hle hf.grows, hj⟩
  · exact h' i y (Nat.le_of_not_lt hlt) hy hop j hj

theorem Moves.trans {E E' E'' : Nat → Nat} {s t u : GenState} (h : Moves F E E' s t) (h' : Moves F E' E'' t u) :
    Moves F E E'' s u :=
  ⟨h'.ready, h.flow.trans h'.flow, h.dispatches.trans h'.dispatches h'.flow⟩

/-- Where no switch is added. -/
theorem dispatches_of {s t : GenState}
    (h : ∀ (i : Nat) (x : Instruction), s.code.size ≤ i → t.code[i]? = some x → x.op ≠ .switch) : Dispatches F s t :=
  fun i x hi hx hop => absurd hop (h i x hi hx)

theorem dispatches_push {s t : GenState} {x : Instruction} (hc : t.code = s.code.push x) (hx : x.op ≠ .switch) :
    Dispatches F s t := by
  refine dispatches_of fun i y hi hy => ?_
  rw [hc, Array.getElem?_push] at hy
  split at hy
  · cases hy
    exact hx
  · rw [Array.getElem?_eq_none hi] at hy
    cases hy

namespace Step

variable {E E' E'' : Nat → Nat} {s t u : GenState} {id : Nat} {b : Block}

theorem trans (h : Step F E E' s t) (h' : Step F E' E'' t u) : Step F E E'' s u :=
  ⟨h.toMoves.trans h'.toMoves, h'.depth.trans h.depth⟩

/-- A step that changes at most blocks and targets. -/
theorem still (hr : Ready F E t) (hsize : t.code.size = s.code.size)
    (hforms : ∀ i : Nat, t.code[i]?.map Instruction.form = s.code[i]?.map Instruction.form)
    (hb : t.program.bodies = s.program.bodies) (hj : t.jumps = s.jumps) : Step F E E s t := by
  have flow : Flow F E E s t := .still hsize hforms hb hj
  refine ⟨⟨hr, flow, dispatches_of fun i x hi hx => ?_⟩, ?_⟩
  · rw [Array.getElem?_eq_none (by rw [hsize]; exact hi)] at hx
    cases hx
  · unfold GenState.depth
    rw [hsize, flow.handlers (Nat.le_refl _)]

theorem same (hr : Ready F E t) (hc : t.code = s.code) (hb : t.program.bodies = s.program.bodies)
    (hj : t.jumps = s.jumps) : Step F E E s t :=
  still hr (by rw [hc]) (fun _ => by rw [hc]) hb hj

/-- One steady instruction. -/
theorem push {x : Instruction} {e : Nat} (hc : t.code = s.code.push x) (hx : x.op.isSteady = true)
    (hfiled : Filed t) (hopened : Open t) (hcalm : Calm F t) (haimed : Aimed (aim E s.code.size e) s.depth t)
    (hb : t.program.bodies = s.program.bodies) (hjumps : s.jumps <+: t.jumps)
    (hj : (x.op.isEdge = true → e = s.depth) ↔ Stays s t) : Step F E (aim E s.code.size e) s t := by
  have hdepth : t.depth = s.depth := by
    unfold GenState.depth
    rw [hc, Array.size_push, handlers_succ Array.getElem?_push_size, Opcode.handlers_of_isSteady hx]
    exact (Extends.push _ _).handlers (Nat.le_refl _)
  refine ⟨⟨⟨hfiled, hopened, hcalm, by rw [hdepth]; exact haimed⟩, ?_, ?_⟩, hdepth⟩
  · exact .push hc (fun hop => by rw [hop] at hx; cases hx) hb hjumps hj
  · exact dispatches_push hc fun hop => by rw [hop] at hx; cases hx

/-- Code that computes values. -/
theorem value {made : List Made} (h : Ready F E s) (run : Run (.value made) s t) (he : t.errors = 0)
    (ha : Apart F made s t) (hmade : ∀ c, .body c ∉ made) :
    Step F E (fun i => if i < s.code.size then E i else s.depth) s t := by
  have level := run.level he
  have beside := run.sound h.filed
  have hopened := h.opened.beside beside
  have hdepth : t.depth = s.depth := level.handlers level.longer.grows
  have hold : ∀ {i : Nat}, i < s.code.size → (if i < s.code.size then E i else s.depth) = E i := fun hi => if_pos hi
  have hnew : ∀ {i : Nat}, s.code.size ≤ i → (if i < s.code.size then E i else s.depth) = s.depth :=
    fun hi => if_neg (Nat.not_lt.mpr hi)
  have hcode : ∀ {i : Nat} {x : Instruction}, i < s.code.size → t.code[i]? = some x → s.code[i]? = some x := by
    intro i x hi hx
    rwa [level.longer.kept i hi] at hx
  refine ⟨⟨⟨beside.filed, hopened, ha.calm, ?_⟩, ⟨level.longer.grows, fun i hi => hold hi,
    fun i hi => by rw [level.longer.kept i hi], fun i x hi hx hop => ?_, run.keeps.jumps, ?_⟩,
    dispatches_of fun i x hi hx hop => ?_⟩, hdepth⟩
  · rw [hdepth]
    refine ⟨fun i x hx hedge => ?_, fun id i hr hw => ?_, fun id b hb hr hloop => ?_,
      fun id b hb hr j hj hop x hx => ?_, by rw [beside.blocks]; exact h.aimed.own⟩
    · by_cases hi : i < s.code.size
      · have hx' := hcode hi hx
        rw [hold hi, level.longer.handlers (h.opened.jumps i x hx' (Opcode.isJump_of_isEdge hedge)), beside.blocks]
        exact h.aimed.edges i x hx' hedge
      · have hi' := Nat.le_of_not_lt hi
        rw [hnew hi']
        exact .inl (level.handlers ((level.fresh i x hi' hx).target hedge).1)
    · rw [beside.blocks] at hr hw ⊢
      rw [hold (h.opened.waits_lt hr hw)]
      exact h.aimed.waits id i hr hw
    · rw [beside.blocks] at hb hr ⊢
      rw [level.longer.handlers (h.opened.blocks id b hb hr).first]
      exact h.aimed.firsts id b hb hr hloop
    · rw [beside.blocks] at hb hr
      exact h.aimed.others id b hb hr j hj hop x (hcode ((h.opened.blocks id b hb hr).pending j hj) hx)
  · have := (level.fresh i x hi hx).op
    rw [hop] at this
    cases this
  · refine ha.judges.congr ⟨fun _ i x hi hx hedge => ?_, fun _ c hc => absurd hc (hmade c)⟩
    exact (hnew hi).trans (level.handlers hi).symm
  · have := (level.fresh i x hi hx).op
    rw [hop] at this
    cases this

theorem put (h : Ready F E s) (op : Opcode) (hop : op.isSteady = true) (p1 : Int) (p2 : Nat) (p3 : Operand)
    (hp : op.isJump = true → p2 ≤ s.code.size) (hedge : op.isEdge = true → handlers s.code p2 = s.depth) :
    Step F E (aim E s.code.size s.depth) s (after (Gen.put op p1 p2 p3) s) := by
  refine .push rfl hop (h.filed.congr rfl rfl rfl rfl) (h.opened.put op p1 p2 p3 hp) ⟨h.calm.thunks, h.calm.statics⟩
    (h.aimed.put h.opened op p1 p2 p3 s.depth fun he => ⟨hedge he, hp (Opcode.isJump_of_isEdge he)⟩) rfl
    List.prefix_rfl ⟨fun _ => stays_same rfl, fun _ _ => rfl⟩

/-- An instruction of a construct that waits on its own block. -/
theorem wait (h : Ready F E s) (hb : s.blocks.Innermost id b) (op : Opcode) (hop : op.isSteady = true) (p3 : Operand)
    (hany : b.hasAny [.loop, .conditional] = true) :
    Step F E (aim E s.code.size s.depth) s (after (await id op p3) s) := by
  have hopened : Open (after (await id op p3) s) := by
    refine h.opened.await p3 fun c hc => .inl ?_
    obtain rfl : b = c := Option.some.inj (hb.block.symm.trans hc)
    exact Block.hasAny_mono (by decide) hany
  refine .push rfl hop (h.filed.await id op p3) hopened ⟨h.calm.thunks, h.calm.statics⟩
    (h.aimed.await h.opened hb.block hb.reaches op p3 s.depth fun _ => ⟨?_, hany⟩) rfl List.prefix_rfl
    ⟨fun _ => stays_same rfl, fun _ _ => rfl⟩
  rw [BlockStack.guards_innermost hb]
  rfl

/-- A thrown exception jumps by other means. -/
theorem throw (h : Ready F E s) : Step F E (aim E s.code.size s.depth) s
    (after (await (s.blocks.nearest [.exception, .function]) .throw .none) s) := by
  obtain ⟨hr, b, hb, -⟩ := h.opened.catches h.filed
  exact .push rfl rfl (h.filed.await _ .throw .none) (h.opened.throw h.filed) ⟨h.calm.thunks, h.calm.statics⟩
    (h.aimed.await h.opened hb hr .throw .none s.depth fun he => by cases he) rfl List.prefix_rfl
    ⟨fun _ => stays_same rfl, fun _ _ => rfl⟩

/-- A `break` or `continue` keeps the handlers that are installed, so it is straight exactly when it leaves no
protected body. -/
theorem leap (h : Ready F E s) {level : Nat} (jump : LoopJump)
    (hid : s.blocks.enclosing? [.loop] level = some id) (hb : s.blocks.get? id = some b) :
    ∃ e, Step F E (aim E s.code.size e) s (after (jumpOn jump id b) (after (recordJump id) s)) := by
  obtain ⟨hr, c, hc, hloop⟩ := BlockStack.enclosing?_reaches hid
  obtain rfl : b = c := Option.some.inj (hb.symm.trans hc)
  have hwithin := Within.jumpOn h.filed h.opened jump hb hr hloop
  have hfirst := h.aimed.firsts id b hb hr hloop
  have hany : b.hasAny [.loop, .conditional] = true := Block.hasAny_mono (by decide) hloop
  -- The record of the jump holds the bodies it leaves.
  have hstays : ∀ {t : GenState}, t.jumps = s.jumps ++ [s.blocks.inside id] →
      ((handlers s.code b.first = s.depth) ↔ Stays s t) := by
    intro t ht
    unfold Stays
    rw [ht, List.drop_left]
    have hguards : s.blocks.guards id = 0 ↔ ∀ c ∈ s.blocks.inside id, c.isProtected = false := by
      unfold BlockStack.guards
      rw [List.countP_eq_zero]
      simp
    simp only [List.mem_singleton, forall_eq]
    rw [← hguards]
    omega
  have hrecord : Open (after (recordJump id) s) := ⟨h.opened.jumps, h.opened.blocks⟩
  have haimed : Aimed E s.depth (after (recordJump id) s) :=
    ⟨h.aimed.edges, h.aimed.waits, h.aimed.firsts, h.aimed.others, h.aimed.own⟩
  refine ⟨handlers s.code b.first, ?_⟩
  unfold jumpOn at hwithin ⊢
  by_cases hout : (jump = .break_ || b.hasAny [.switch]) = true
  · rw [if_pos hout] at hwithin ⊢
    exact .push rfl rfl hwithin.filed hwithin.opened ⟨h.calm.thunks, h.calm.statics⟩
      (haimed.await hrecord hb hr .jmp .none _ fun _ => ⟨hfirst, hany⟩) rfl (List.prefix_append _ _)
      ((forall_prop_of_true rfl).trans (hstays rfl))
  · rw [if_neg hout] at hwithin ⊢
    by_cases hdeferred : b.deferred.isSome = true
    · rw [if_pos hdeferred] at hwithin ⊢
      exact .push rfl rfl hwithin.filed hwithin.opened ⟨h.calm.thunks, h.calm.statics⟩
        (haimed.awaitContinue hrecord hb hr hdeferred _ hfirst hany) rfl (List.prefix_append _ _)
        ((forall_prop_of_true rfl).trans (hstays rfl))
    · rw [if_neg hdeferred] at hwithin ⊢
      exact .push rfl rfl hwithin.filed hwithin.opened ⟨h.calm.thunks, h.calm.statics⟩
        (haimed.put hrecord .jmp 0 b.first .none _ fun _ => ⟨rfl, (h.opened.blocks id b hb hr).first⟩) rfl
        (List.prefix_append _ _) ((forall_prop_of_true rfl).trans (hstays rfl))

/-- The jumps that wait on the innermost block are filled in. -/
theorem settle (h : Ready F E s) (hb : s.blocks.Innermost id b) (op : Option Opcode) :
    Step F E E s (after (Gen.settle id op) s) := by
  have hsize : (after (Gen.settle id op) s).code.size = s.code.size := s.blocks.size_settle ..
  have hforms := fun i => forms_fill PendingJump.index s.code.size
    ((((s.blocks.get? id).map Block.pending).getD []).filter (BlockStack.settles op s.code)) s.code i
  have hdepth : (after (Gen.settle id op) s).depth = s.depth := by
    unfold GenState.depth
    rw [hsize]
    exact handlers_fill ..
  refine .still ⟨h.filed.settle id op, h.opened.settle id op, ⟨h.calm.thunks, h.calm.statics⟩, ?_⟩ hsize hforms rfl rfl
  rw [hdepth]
  exact h.aimed.settle hb rfl op

theorem settleContinue (h : Ready F E s) (hb : s.blocks.Innermost id b) :
    Step F E E s (after (Gen.settleContinue id) s) := by
  have hsize : (after (Gen.settleContinue id) s).code.size = s.code.size := s.blocks.size_settleContinue ..
  have hforms := fun i => forms_fill (fun i => i) s.code.size
    (((s.blocks.get? id).bind Block.deferred).getD []) s.code i
  have hdepth : (after (Gen.settleContinue id) s).depth = s.depth := by
    unfold GenState.depth
    rw [hsize]
    exact handlers_fill ..
  refine .still ⟨h.filed.settleContinue id, h.opened.settleContinue id, ⟨h.calm.thunks, h.calm.statics⟩, ?_⟩ hsize
    hforms rfl rfl
  rw [hdepth]
  exact h.aimed.settleContinue hb rfl

/-! ### Blocks that are entered and left -/

theorem restartHere (h : Ready F E s) (hb : s.blocks.Innermost id b) : Step F E E s (after (Gen.restartHere id) s) :=
  .same ⟨h.filed.modify rfl (fun _ => rfl) rfl rfl rfl, h.opened.restartHere id, ⟨h.calm.thunks, h.calm.statics⟩,
    h.aimed.restartHere hb rfl⟩ rfl rfl rfl

theorem enter (h : Ready F E s) (tags : List BlockTag) (deferred : Option (List Nat))
    (hdeferred : deferred.getD [] = []) (ht : tags.contains .guarded = false ∧ tags.contains .function = false)
    (hprotected : tags.contains .exception = false) :
    Step F E E s (after (Gen.enter tags s.code.size .none deferred) s) := by
  have haimed := h.aimed.enter tags s.code.size .none deferred hdeferred ht fun _ => by rw [hprotected]; rfl
  rw [hprotected] at haimed
  exact .same ⟨h.filed.enter .., h.opened.enter tags (Nat.le_refl _) .none deferred hdeferred ht,
    ⟨h.calm.thunks, h.calm.statics⟩, haimed⟩ rfl rfl rfl

/-- A block other than a protected body is left when nothing waits on it. -/
theorem leave (h : Ready F E s) (hb : s.blocks.Innermost id b) (hid : 0 < id) (hn : b.isBoundary = false)
    (hprotected : b.isProtected = false) (hs : b.Settled) : Step F E E s (after Gen.leave s) := by
  have haimed := h.aimed.leave hb hid hn (k := s.depth) (by rw [hprotected]; rfl) fun i hw => ?_
  · exact .same ⟨h.filed.leave hb hid hs, h.opened.leave hb hid hn, ⟨h.calm.thunks, h.calm.statics⟩, haimed⟩ rfl rfl rfl
  · rcases hw with ⟨j, hj, -⟩ | hi
    · rw [hs.1] at hj
      exact absurd hj (List.not_mem_nil)
    · rw [hs.2] at hi
      exact absurd hi (List.not_mem_nil)

/-- The end of a construct. -/
theorem exitBlock (h : Ready F E s) (hb : s.blocks.Innermost id b) (hid : 0 < id) (hn : b.isBoundary = false)
    (hprotected : b.isProtected = false) : Step F E E s (s.exitBlock id) := by
  have first := settle h hb none
  have hb1 := hb.settle none
  rw [(h.opened.blocks _ b hb.block hb.reaches).settled (.inl rfl)] at hb1
  have second := settleContinue first.ready hb1
  refine (first.trans second).trans (leave second.ready hb1.settleContinue hid hn hprotected ⟨rfl, ?_⟩)
  cases hd : b.deferred <;> rfl

/-- A construct is entered, and left at its end. -/
theorem construct (h : Ready F E s) {tags : List BlockTag} {deferred : Option (List Nat)}
    (ht : IsConstruct tags deferred) (hframe : Frame (after (Gen.enter tags s.code.size .none deferred) s) t)
    (step : Step F E E' (after (Gen.enter tags s.code.size .none deferred) s) t) :
    Step F E E' s (t.exitBlock s.blocks.blocks.size) := by
  obtain ⟨b, hb, hshape⟩ := hframe.innermost (innermost_enter tags s.code.size .none deferred s)
  have hboundary : b.isBoundary = false := by
    rw [Block.isBoundary, Block.hasAny_congr hshape]
    simpa [Block.hasAny] using ht.hides
  have hunprotected : b.isProtected = false := by
    rw [Block.isProtected, Block.hasAny_congr hshape]
    simpa [Block.hasAny] using ht.unprotected
  exact ((enter h tags deferred ht.undeferred ht.hides ht.unprotected).trans step).trans
    (exitBlock step.ready hb h.filed.stack hboundary hunprotected)

/-- Braces are entered, and left again. -/
theorem braces (h : Ready F E s) (hframe : Frame (after (Gen.enter [.braces] s.code.size .none none) s) t)
    (step : Step F E E' (after (Gen.enter [.braces] s.code.size .none none) s) t) :
    Step F E E' s (after Gen.leave t) := by
  obtain ⟨b, hb, hshape⟩ := hframe.innermost (innermost_enter [.braces] s.code.size .none none s)
  have hnone : b.hasAny [.loop, .conditional, .exception, .function, .global] = false := by
    rw [Block.hasAny_congr hshape]
    rfl
  have hpending := (step.ready.opened.blocks _ b hb.block hb.reaches).waits hnone
  have entered := enter h [.braces] none rfl ⟨by decide, by decide⟩ (by decide)
  refine (entered.trans step).trans (leave step.ready hb h.filed.stack ?_ ?_ ⟨hpending, ?_⟩)
  · rw [Block.isBoundary, Block.hasAny_congr hshape]
    rfl
  · rw [Block.isProtected, Block.hasAny_congr hshape]
    rfl
  · rw [Block.undeferred_congr hshape rfl]
    rfl

end Step

/-! ### Protected bodies -/

/-- A protected body is entered where its handler is installed. -/
theorem Moves.protect {E : Nat → Nat} {s : GenState} (h : Ready F E s) (p3 : Operand) :
    Moves F E (aim E s.code.size 0) s (after (await s.blocks.blocks.size .loadException p3)
        (after reserveException (after (enter [.exception] s.code.size .none none) s))) ∧
      (after (await s.blocks.blocks.size .loadException p3)
        (after reserveException (after (enter [.exception] s.code.size .none none) s))).depth = s.depth + 1 := by
  let s₂ := after reserveException (after (enter [.exception] s.code.size .none none) s)
  have hin := innermost_enter [.exception] s.code.size .none none s
  have hopened : Open s₂ := by
    have := h.opened.enter [.exception] (Nat.le_refl _) .none none rfl ⟨by decide, by decide⟩
    exact ⟨this.jumps, this.blocks⟩
  have haimed : Aimed E (s.depth + 1) s₂ := by
    have := h.aimed.enter [.exception] s.code.size .none none rfl ⟨by decide, by decide⟩
      fun hloop => absurd hloop (by decide)
    exact ⟨this.edges, this.waits, this.firsts, this.others, this.own⟩
  have hdepth : (after (await s.blocks.blocks.size .loadException p3) s₂).depth = s.depth + 1 := by
    unfold GenState.depth
    rw [after_await]
    show handlers (s.code.push _) (s.code.push _).size = _
    rw [Array.size_push, handlers_succ Array.getElem?_push_size, (Extends.push _ _).handlers (Nat.le_refl _)]
    rfl
  have hstock := stock_reserveException (after (enter [.exception] s.code.size .none none) s)
  refine ⟨⟨⟨(h.filed.enter ..).reserveException.await .., ?_, h.calm.congr hstock rfl, ?_⟩, ?_, ?_⟩, hdepth⟩
  · refine hopened.await p3 fun b hb => .inl ?_
    obtain rfl := Option.some.inj (hin.block.symm.trans hb)
    rfl
  · rw [hdepth]
    exact haimed.await hopened hin.block hin.reaches .loadException p3 0 fun he => by cases he
  · exact .push rfl (fun hop => by cases hop) (congrArg Stock.bodies hstock) List.prefix_rfl
      ⟨fun _ => stays_same rfl, fun _ he => by cases he⟩
  · exact dispatches_push rfl fun hop => by cases hop

/-- A protected body is left where its handler is removed. -/
theorem Moves.unprotect {E : Nat → Nat} {t : GenState} {id d : Nat} {b : Block} (h : Ready F E t)
    (hb : t.blocks.Innermost id b) (hid : 0 < id) (hn : b.isBoundary = false) (hprotected : b.isProtected = true)
    (hdeferred : b.deferred = none) (hd : t.depth = d + 1) (p3 : Operand) :
    Moves F E (aim E t.code.size 0) t (after leave (after (Gen.put .popException 0 0 p3) (after (settle id none) t))) ∧
      (after leave (after (Gen.put .popException 0 0 p3) (after (settle id none) t))).depth = d := by
  have settled := Step.settle h hb none
  have hsize : (after (settle id none) t).code.size = t.code.size := t.blocks.size_settle ..
  have hb' := hb.settle none
  rw [(h.opened.blocks _ b hb.block hb.reaches).settled (.inl rfl)] at hb'
  have hopened := settled.ready.opened.put .popException 0 0 p3 fun _ => Nat.zero_le _
  have haimed := settled.ready.aimed.put settled.ready.opened .popException 0 0 p3 0 fun he => by cases he
  rw [settled.depth, hd, hsize] at haimed
  have hdepth : (after leave (after (Gen.put .popException 0 0 p3) (after (settle id none) t))).depth = d := by
    have hsettled : (after (settle id none) t).depth = d + 1 := settled.depth.trans hd
    unfold GenState.depth at hsettled ⊢
    rw [after_leave, after_put]
    show handlers ((after (settle id none) t).code.push _) ((after (settle id none) t).code.push _).size = _
    rw [Array.size_push, handlers_succ Array.getElem?_push_size, (Extends.push _ _).handlers (Nat.le_refl _), hsettled]
    rfl
  refine ⟨settled.toMoves.trans ⟨⟨?_, hopened.leave hb' hid hn, ?_, ?_⟩, ?_, ?_⟩, hdepth⟩
  · refine Filed.leave (settled.ready.filed.congr rfl rfl rfl rfl) hb' hid ⟨rfl, ?_⟩
    rw [hdeferred]
    rfl
  · exact ⟨h.calm.thunks, h.calm.statics⟩
  · rw [hdepth]
    have hless : d + 1 = d + b.isProtected.toNat := by
      rw [hprotected]
      rfl
    refine haimed.leave hb' hid hn hless fun i hw => ?_
    rcases hw with ⟨j, hj, -⟩ | hi
    · exact absurd hj (List.not_mem_nil)
    · have hi' : i ∈ b.deferred.getD [] := hi
      rw [hdeferred] at hi'
      exact absurd hi' (List.not_mem_nil)
  · rw [← hsize]
    refine .push rfl (fun _ => ?_) rfl List.prefix_rfl ⟨fun _ => stays_same rfl, fun _ he => by cases he⟩
    rw [settled.depth, hd]
    exact Nat.succ_pos d
  · exact dispatches_push rfl fun hop => by cases hop

/-- A protected body has one handler more, and leaves it to nobody. -/
theorem Step.guarded {E E' : Nat → Nat} {s t : GenState} (h : Ready F E s)
    (hframe : Frame (after (Gen.enter [.exception] s.code.size .none none) s) t) (body : Moves F E E' s t)
    (hd : t.depth = s.depth + 1) (p3 : Operand) :
    Step F E (aim E' t.code.size 0) s (after Gen.leave (after (Gen.put .popException 0 0 p3)
      (after (Gen.settle s.blocks.blocks.size none) t))) := by
  obtain ⟨b, hb, hshape⟩ := hframe.innermost (innermost_enter [.exception] s.code.size .none none s)
  obtain ⟨pop, hpop⟩ := Moves.unprotect body.ready hb h.filed.stack
    (by rw [Block.isBoundary, Block.hasAny_congr hshape]; rfl)
    (by rw [Block.isProtected, Block.hasAny_congr hshape]; rfl) (Block.undeferred_congr hshape rfl) hd p3
  exact ⟨body.trans pop, hpop⟩

/-! ### Containers -/

/-- No block can be reached on which a jump might wait. -/
def BlockStack.Sealed (bs : BlockStack) : Prop :=
  ∀ id b, bs.get? id = some b → bs.Reaches id → b.hasAny [.loop, .conditional] = false

theorem BlockStack.Sealed.congr {bs cs : BlockStack} (h : bs.Sealed) (hshapes : cs.shapes = bs.shapes) : cs.Sealed := by
  intro id c hc hr
  obtain ⟨b, hb, hshape⟩ := get?_congr hshapes.symm hc
  rw [← Block.hasAny_congr hshape]
  exact h id b hb ((reaches_congr hshapes id).mp hr)

/-- An empty container has no jumps. -/
theorem Aimed.empty {s : GenState} (hc : s.code = #[]) (hs : s.blocks.Sealed)
    (hw : ∀ id b, s.blocks.get? id = some b → s.blocks.Reaches id → b.Settled) (E : Nat → Nat) (d : Nat) :
    Aimed E d s where
  edges := by
    intro i x hx
    rw [hc] at hx
    simp at hx
  waits := by
    rintro id i hr ⟨b, hb, ⟨j, hj, -⟩ | hi⟩
    · rw [(hw id b hb hr).1] at hj
      exact absurd hj (List.not_mem_nil)
    · rw [(hw id b hb hr).2] at hi
      exact absurd hi (List.not_mem_nil)
  firsts := by
    intro id b hb hr hloop
    rw [Block.hasAny_anti (by decide) (hs id b hb hr)] at hloop
    cases hloop
  others := by
    intro id b hb hr j hj
    rw [(hw id b hb hr).1] at hj
    exact absurd hj (List.not_mem_nil)
  own := by
    rintro id b hb hr - i ⟨c, hc, ⟨j, hj, -⟩ | hi⟩
    · rw [(hw id c hc hr).1] at hj
      exact absurd hj (List.not_mem_nil)
    · rw [(hw id c hc hr).2] at hi
      exact absurd hi (List.not_mem_nil)

/-- When nothing can wait any more, a container is balanced if its jumps are straight. -/
theorem Step.balanced_iff {E E' : Nat → Nat} {s t : GenState} (h : Step F E E' s t) (hs : s.code = #[])
    (hsealed : t.blocks.Sealed) : Balanced F t.code ↔ Straight E' s t := by
  have hzero : ∀ i, s.code.size ≤ i := fun i => by
    rw [hs]
    exact Nat.zero_le i
  -- A target is that of a jump or one of a switch.
  have htargets : ∀ (x : Instruction) j, j ∈ x.targets F → x.op.isEdge = true ∧ j = x.p2 ∨ x.op = .switch := by
    intro x j hj
    unfold Instruction.targets at hj
    split at hj <;> simp_all [Opcode.isEdge]
  have hregular : Regular F t.code := by
    refine ⟨fun i x => h.flow.pops i x (hzero i), fun i x hx j hj => ?_⟩
    rcases htargets x j hj with ⟨he, rfl⟩ | hswitch
    · exact h.ready.opened.jumps i x hx (Opcode.isJump_of_isEdge he)
    · exact (h.dispatches i x (hzero i) hx hswitch j hj).1
  have haims : ∀ (i : Nat) (x : Instruction), t.code[i]? = some x → x.op.isEdge = true →
      handlers t.code x.p2 = E' i := by
    intro i x hx he
    rcases h.ready.aimed.edges i x hx he with hp | ⟨id, hr, b, hb, hw⟩
    · exact hp
    · exact absurd ⟨b, hb, hw⟩ (h.ready.aimed.own id b hb hr (hsealed id b hb hr) i)
  rw [hregular.balanced_iff]
  refine ⟨fun hj i x _ hx he => ?_, fun hstraight i x hx j hj => ?_⟩
  · rw [← haims i x hx he]
    refine hj i x hx x.p2 ?_
    unfold Instruction.targets
    cases hop : x.op <;> rw [hop] at he <;> first | exact List.mem_singleton.mpr rfl | cases he
  · rcases htargets x j hj with ⟨he, rfl⟩ | hswitch
    · rw [haims i x hx he]
      exact hstraight i x (hzero i) hx he
    · exact (h.dispatches i x (hzero i) hx hswitch j hj).2

/-- The end of a container: exceptions that nobody has caught go there. -/
theorem Step.container {E E' : Nat → Nat} {s t : GenState} {id : Nat} {b : Block} (h : Step F E E' s t)
    (hs : s.code = #[]) (hsealed : s.blocks.Sealed) (hshapes : t.blocks.shapes = s.blocks.shapes)
    (hb : s.blocks.Innermost id b) (op : Option Opcode) :
    Judges F (Balanced F (after (Gen.put .done 0 0 .none) (after (Gen.settle id op) t)).code) s
      (after (Gen.put .done 0 0 .none) (after (Gen.settle id op) t)) := by
  obtain ⟨b', hb', -⟩ := hb.congr hshapes
  have settled := h.trans (settle h.ready hb' op)
  have all := settled.trans (put settled.ready .done rfl 0 0 .none (fun hj => by cases hj) fun he => by cases he)
  refine all.flow.judges.congr (all.balanced_iff hs ?_).symm
  exact hsealed.congr ((t.blocks.shapes_settle id op t.code.size t.code).trans hshapes)

/-- The container of a body starts out without jumps. -/
theorem Ready.body {s : GenState} {id : Nat} {b : Block} {op : Option Opcode} (hb : s.blocks.Innermost id b)
    (hop : IsBody b op) (hs : Filed s) (hc : Calm F s) (E : Nat → Nat) :
    Ready F E (after openContainer s) ∧ (after openContainer s).blocks.Sealed := by
  have hsealed : (after openContainer s).blocks.Sealed := by
    intro k c hget hr
    obtain ⟨-, rfl⟩ := hop.reached hb hget hr
    rcases hop.tags with ⟨htags, -⟩ | ⟨htags, -⟩ <;> rw [Block.hasAny, htags] <;> rfl
  refine ⟨⟨hs.congr rfl rfl rfl rfl, open_body hb hop, ⟨hc.thunks, hc.statics⟩, ?_⟩, hsealed⟩
  refine Aimed.empty rfl hsealed (fun k c hget hr => ?_) E _
  obtain ⟨-, rfl⟩ := hop.reached hb hget hr
  exact ⟨hop.pending, by rw [hop.deferred]; rfl⟩

/-- Whether a body is balanced is told by the jumps in it. -/
theorem Apart.body {s t : GenState} {id : Nat} {b : Block} {op : Option Opcode} {E E' : Nat → Nat}
    (hb : s.blocks.Innermost id b) (hsealed : (after openContainer s).blocks.Sealed)
    (hshapes : t.blocks.shapes = s.blocks.shapes) (h : Step F E E' (after openContainer s) t) :
    Apart F [.body (after (Gen.put .done 0 0 .none) (after (settle id op) t)).code] s
      (after (closeContainer s.container) (after (Gen.put .done 0 0 .none) (after (settle id op) t))) where
  calm := ⟨h.ready.calm.thunks, h.ready.calm.statics⟩
  thunks := by
    intro c hc
    cases List.mem_singleton.mp hc
  judges := by
    have judged := h.container rfl hsealed hshapes hb op
    refine Judges.congr judged ⟨fun hbalanced c hc => ?_, fun hall => hall _ (List.mem_singleton.mpr rfl)⟩
    cases List.mem_singleton.mp hc
    exact hbalanced

/-! ### Switches -/

/-- A switch is in place, and its table is still empty. -/
theorem Ready.dispatch {E : Nat → Nat} {s : GenState} (h : Ready F E s) (p3 : Operand) :
    Ready F (aim E s.code.size 0) (after (Gen.put .switch 0 0 p3) (after reserveSwitch s)) ∧
      (after (Gen.put .switch 0 0 p3) (after reserveSwitch s)).depth = s.depth ∧
      Flow F E (aim E s.code.size 0) s (after (Gen.put .switch 0 0 p3) (after reserveSwitch s)) := by
  have hopened : Open (after reserveSwitch s) := ⟨h.opened.jumps, h.opened.blocks⟩
  have haimed : Aimed E s.depth (after reserveSwitch s) :=
    ⟨h.aimed.edges, h.aimed.waits, h.aimed.firsts, h.aimed.others, h.aimed.own⟩
  have hdepth : (after (Gen.put .switch 0 0 p3) (after reserveSwitch s)).depth = s.depth := by
    unfold GenState.depth
    rw [after_put]
    show handlers (s.code.push _) (s.code.push _).size = _
    rw [Array.size_push, handlers_succ Array.getElem?_push_size, (Extends.push _ _).handlers (Nat.le_refl _)]
    rfl
  refine ⟨⟨h.filed.reserveSwitch.congr rfl rfl rfl rfl, hopened.put .switch 0 0 p3 fun _ => Nat.zero_le _,
    h.calm.congr (stock_reserveSwitch s) rfl, ?_⟩, hdepth, ?_⟩
  · rw [hdepth]
    exact haimed.put hopened .switch 0 0 p3 0 fun he => by cases he
  · exact .push rfl (fun hop => by cases hop) (congrArg Stock.bodies (stock_reserveSwitch s)) List.prefix_rfl
      ⟨fun _ => stays_same rfl, fun _ he => by cases he⟩

/-- Where a switch goes is known when its sections are done and its table is filled in. -/
theorem Step.dispatch {E E' : Nat → Nat} {s t : GenState} {table : SwitchTable} {id : Nat} (h : Ready F E s)
    (sections : Step F (aim E s.code.size 0) E' (after (Gen.put .switch 0 0 (.switch id)) (after reserveSwitch s)) t)
    (hwhole : ∀ e ∈ table.cases, Whole e.guard) (hguards : ∀ e ∈ table.cases, Balanced F e.guard)
    (hstarts : ∀ j ∈ table.starts, j ≤ t.code.size ∧ handlers t.code j = s.depth)
    (hF : F[id]? = some { table with out := t.code.size }) :
    Step F E E' s (after (fillSwitch id { table with out := t.code.size }) t) := by
  obtain ⟨-, hdepth, flow⟩ := h.dispatch (.switch id)
  have hcalm : Calm F (after (fillSwitch id { table with out := t.code.size }) t) := by
    refine ⟨fun c hc => ?_, sections.ready.calm.statics⟩
    rcases thunks_fillSwitch hc with hc | ⟨e, he, rfl⟩
    · exact sections.ready.calm.thunks c hc
    · exact hguards e he
  have filled : Step F E' E' t (after (fillSwitch id { table with out := t.code.size }) t) :=
    .same ⟨sections.ready.filed.fillSwitch id hwhole, ⟨sections.ready.opened.jumps, sections.ready.opened.blocks⟩,
      hcalm, ⟨sections.ready.aimed.edges, sections.ready.aimed.waits, sections.ready.aimed.firsts,
        sections.ready.aimed.others, sections.ready.aimed.own⟩⟩ rfl rfl rfl
  have hall : Flow F E E' s t := flow.trans sections.flow
  have hsize : (after (Gen.put .switch 0 0 (.switch id)) (after reserveSwitch s)).code.size = s.code.size + 1 := by
    rw [after_put]
    exact Array.size_push _
  refine Step.trans ⟨⟨sections.ready, hall, fun i y hi hy hop j hj => ?_⟩, sections.depth.trans hdepth⟩ filled
  by_cases hlast : i = s.code.size
  · -- The switch itself: its targets are the sections and the end.
    obtain ⟨x, hx, -, hp3⟩ := sections.flow.earlier (by omega) hy
    have hx' : (s.code.push ⟨.switch, 0, 0, .switch id, s.buffer.line⟩)[i]? = some x := hx
    rw [hlast, Array.getElem?_push_size] at hx'
    cases hx'
    rw [Instruction.targets, hop, ← hp3] at hj
    dsimp only at hj
    rw [hF] at hj
    rw [hlast, hall.handlers (Nat.le_refl _)]
    rcases List.mem_append.mp hj with hj | hj
    · exact hstarts j hj
    · rw [List.mem_singleton.mp hj]
      exact ⟨Nat.le_refl _, sections.depth.trans hdepth⟩
  · exact sections.dispatches i y (by omega) hy hop j hj

/-! ### A whole run -/

variable (F) in
/-- What is known about the handlers behind a run of a kind without errors. -/
def Judged : Kind → GenState → GenState → Prop
  | .value made, s, t => t.errors = 0 → Agrees F s t → Filed s → Calm F s → Apart F made s t
  | .flow, s, t => t.errors = 0 → Agrees F s t → ∀ E, Ready F E s → ∃ E', Step F E E' s t
  | .sections before after, s, t => t.errors = 0 → Agrees F s t → ∀ E, Ready F E s →
      (∀ e ∈ before.cases, Balanced F e.guard) → ∃ E', Step F E E' s t ∧
        (∀ e ∈ after.cases, Balanced F e.guard) ∧ ∀ j ∈ after.starts, j ∈ before.starts ∨
          j ≤ t.code.size ∧ handlers t.code j = s.depth

/-- Values on their own are steps between statements. -/
theorem Judged.step {made : List Made} {s t : GenState} {E : Nat → Nat} (h : Judged F (.value made) s t)
    (run : Run (.value made) s t) (hmade : ∀ c, .body c ∉ made) (he : t.errors = 0) (ha : Agrees F s t)
    (hr : Ready F E s) : ∃ E', Step F E E' s t :=
  ⟨_, .value hr run he (h he ha hr.filed hr.calm) hmade⟩

theorem Judged.each {s t u : GenState} {p3 : Operand}
    (run : Run (.value []) (after (enter [.loop] s.code.size .none none) s) t)
    (run' : Run .flow (after (await s.blocks.blocks.size .foreachStep p3) (after (restartHere s.blocks.blocks.size)
      (after (await s.blocks.blocks.size .foreachInit p3) t))) u)
    (ih : Judged F (.value []) (after (enter [.loop] s.code.size .none none) s) t)
    (ih' : Judged F .flow (after (await s.blocks.blocks.size .foreachStep p3)
      (after (restartHere s.blocks.blocks.size) (after (await s.blocks.blocks.size .foreachInit p3) t))) u) :
    Judged F .flow s ((after (Gen.put .jmp 0 (t.code.size + 1) .none) u).exitBlock s.blocks.blocks.size) := by
  intro he ha E hr
  rw [GenState.errors_exitBlock] at he
  have ha : Agrees F s u := .within .refl (.exitBlock (.put .refl)) ha
  have hmono := GenState.errors_mono run'.frame he
  have hin := innermost_enter [.loop] s.code.size .none none s
  have entered := Step.enter hr [.loop] none rfl ⟨by decide, by decide⟩ (by decide)
  obtain ⟨E₁, source⟩ := ih.step run (fun c hc => absurd hc (List.not_mem_nil)) hmono
    (ha.front (run'.keeps.congr rfl rfl rfl rfl rfl List.prefix_rfl)) entered.ready
  obtain ⟨b, hb, hshape⟩ := run.frame.innermost hin
  have hany : ∀ c : Block, c.shape = b.shape → c.hasAny [.loop, .conditional] = true := by
    intro c hc
    rw [Block.hasAny_congr (hc.trans hshape)]
    rfl
  have init := Step.wait source.ready hb .foreachInit rfl p3 (hany b rfl)
  have finit : Frame t (after (await s.blocks.blocks.size .foreachInit p3) t) := .await _ _ _
  have frestart : Frame _ (after (restartHere s.blocks.blocks.size) _) := finit.trans (.restartHere _)
  obtain ⟨b₁, hb₁, -⟩ := finit.innermost hb
  have restart := Step.restartHere init.ready hb₁
  obtain ⟨b₂, hb₂, hshape₂⟩ := frestart.innermost hb
  have next := Step.wait restart.ready hb₂ .foreachStep rfl p3 (hany b₂ hshape₂)
  obtain ⟨E₂, body⟩ := ih' he (ha.back (run.keeps.congr rfl rfl rfl rfl rfl List.prefix_rfl)) _ next.ready
  -- The loop goes back to where the source has been taken.
  have inside := (restart.trans next).trans body
  have hinit : (after (await s.blocks.blocks.size .foreachInit p3) t).code.size = t.code.size + 1 := by
    rw [after_await]
    exact Array.size_push _
  have hle := inside.flow.grows
  have hnext := inside.flow.handlers (Nat.le_refl _)
  rw [hinit] at hle hnext
  have back := Step.put body.ready .jmp rfl 0 (t.code.size + 1) .none (fun _ => hle) fun _ => by
    rw [hnext, inside.depth, GenState.depth, hinit]
  refine ⟨_, Step.construct hr .loop ?_ (((source.trans init).trans inside).trans back)⟩
  exact (((run.frame.trans frestart).trans (.await _ _ _)).trans run'.frame).trans (.put _ _ _ _)

/-- Where a section starts, as many handlers are installed as in front of the switch. -/
theorem Judged.start {E E' E'' : Nat → Nat} {s t u : GenState} (h : Step F E E' s t) (h' : Step F E' E'' t u) :
    t.code.size ≤ u.code.size ∧ handlers u.code t.code.size = s.depth := by
  rw [h'.flow.handlers (Nat.le_refl _)]
  exact ⟨h'.flow.grows, h.depth⟩

theorem Judged.switch {s t u : GenState} {table : SwitchTable}
    (run : Run (.value []) (after (enter [.loop, .switch] s.code.size .none none) s) t)
    (run' : Run (.sections {} table)
      (after (Gen.put .switch 0 0 (.switch t.program.switches.length)) (after reserveSwitch t)) u)
    (ih : Judged F (.value []) (after (enter [.loop, .switch] s.code.size .none none) s) t)
    (ih' : Judged F (.sections {} table)
      (after (Gen.put .switch 0 0 (.switch t.program.switches.length)) (after reserveSwitch t)) u) :
    Judged F .flow s ((after (fillSwitch t.program.switches.length { table with out := u.code.size }) u).exitBlock
      s.blocks.blocks.size) := by
  intro he ha E hr
  have entered := Step.enter hr [.loop, .switch] none rfl ⟨by decide, by decide⟩ (by decide)
  -- Of the tables only that of this switch changes when it is filled in.
  have keeps : Keeps (after reserveSwitch t) u := runLaw_keeps.between (.put .refl) run'.keeps .refl
  have inside : Agrees F (after (enter [.loop, .switch] s.code.size .none none) s) _ :=
    .within (.enter .refl) (.exitBlock .refl) ha
  obtain ⟨hF, hsections⟩ := (inside.back run.keeps).reserved keeps
  have ha₁ := inside.front keeps.reserved
  have ha₂ : Agrees F (after (Gen.put .switch 0 0 (.switch t.program.switches.length)) (after reserveSwitch t)) u :=
    .within (.put .refl) .refl hsections
  have he' := GenState.errors_mono run'.frame he
  obtain ⟨E₁, subject⟩ := ih.step run (fun c hc => absurd hc (List.not_mem_nil)) he' ha₁ entered.ready
  obtain ⟨ready, hdepth, -⟩ := subject.ready.dispatch (.switch t.program.switches.length)
  obtain ⟨E₂, sections, hguards, hstarts⟩ := ih' he ha₂ _ ready fun e hmem => absurd hmem (List.not_mem_nil)
  obtain ⟨-, hwhole⟩ := run'.sound ready.filed ready.opened fun e hmem => absurd hmem (List.not_mem_nil)
  have all := Step.dispatch subject.ready sections hwhole hguards (fun j hj => ?_) hF
  · refine ⟨E₂, .construct hr .switch ?_ (subject.trans all)⟩
    have reserve : Frame t (after (Gen.put .switch 0 0 (.switch t.program.switches.length)) (after reserveSwitch t)) :=
      Frame.reserveSwitch.trans (.put _ _ _ _)
    exact ((run.frame.trans reserve).trans run'.frame).trans (.fillSwitch _ _)
  · rcases hstarts j hj with hj | ⟨hle, hj⟩
    · exact absurd hj (List.not_mem_nil)
    · exact ⟨hle, hj.trans hdepth⟩

theorem Run.judged {k : Kind} {s t : GenState} (h : Run k s t) : Judged F k s t := by
  induction h with
  | refl s => exact fun _ _ _ hc => .still hc rfl rfl rfl
  | trans h h' ih ih' =>
      intro he ha hs hc
      have first := ih (GenState.errors_mono h'.frame he) (ha.front h'.keeps) hs hc
      exact first.trans (ih' he (ha.back h.keeps) (h.sound hs).filed first.calm) h.keeps h'.keeps
  | quiet h => exact fun _ _ _ hc => .still hc h.stock h.statics h.jumps
  | put => exact fun _ _ _ hc => .still hc rfl rfl rfl
  | rewrite _ _ _ _ _ _ _ _ _ ih => exact fun he ha hs hc => (ih he ha hs hc).congr rfl rfl rfl rfl rfl
  | mark _ _ ih => exact fun he ha hs hc => (ih he ha hs hc).congr rfl rfl rfl rfl rfl
  | skip _ _ ih =>
      intro he ha hs hc
      exact (ih he ha (hs.congr rfl rfl rfl rfl) ⟨hc.thunks, hc.statics⟩).congr rfl rfl rfl rfl rfl
  | @choose made made' s t u h h' ih ih' =>
      intro he ha hs hc
      have he' := GenState.errors_mono h'.frame he
      have keeps : Keeps t u := runLaw_keeps.between (.landHere (.emit .refl)) h'.keeps .refl
      have ha' : Agrees F s u := .within .refl (.landHere .refl) ha
      have first := ih he' (ha'.front keeps) (hs.congr rfl rfl rfl rfl) ⟨hc.thunks, hc.statics⟩
      have second := ih' he (ha'.back (runLaw_keeps.between (.emit .refl) h.keeps (.landHere (.emit .refl))))
        ((h.sound (hs.congr rfl rfl rfl rfl)).filed.congr rfl rfl rfl rfl) ⟨first.calm.thunks, first.calm.statics⟩
      have second' : Apart F made' t u := second.congr rfl rfl rfl rfl rfl
      exact (first.trans second' h.keeps keeps).congr rfl rfl rfl rfl rfl
  | discard _ ih => exact fun he ha hs hc => (ih he ha hs hc).congr rfl rfl rfl rfl rfl
  | @thunk _ _ t p1 h ih =>
      intro he ha hs hc
      have level : Level #[] (after (Gen.put .done p1 1 .none) t).code :=
        (h.level he).trans (.push (steady_plain rfl ..))
      exact ((ih he ha (hs.congr rfl rfl rfl rfl) ⟨hc.thunks, hc.statics⟩).thunk level).congr rfl rfl rfl rfl rfl
  | body hb hop h ih =>
      intro he ha hs hc
      obtain ⟨ready, hsealed⟩ := Ready.body hb hop hs hc fun _ => 0
      obtain ⟨E', step⟩ := ih he ha _ ready
      refine .body hb hsealed (h.frame.shapes ?_) step
      exact hs.stack
  | statics _ ih =>
      intro he ha hs hc
      exact (ih he ha ⟨hs.root, hs.thunks, hs.bodies, List.forall_mem_cons.mpr ⟨List.forall_mem_nil _, hs.statics⟩, hs.left⟩
        ⟨hc.thunks, List.forall_mem_cons.mpr ⟨List.forall_mem_nil _, hc.statics⟩⟩).statics
  | static _ hv hst ih => exact fun he ha hs hc => (ih he ha hs hc).static hv hst
  | owned tags first owner _ ih =>
      intro he ha hs hc
      exact (ih he ha (hs.enter tags first owner none) ⟨hc.thunks, hc.statics⟩).congr rfl rfl rfl rfl rfl
  | file _ hq ih =>
      intro he ha hs hc
      exact (ih he (ha.front (runLaw_keeps.file hq)) hs hc).file hq
  | @lost _ _ t _ line _ hp ih =>
      intro he
      rcases Grown.report (s := t) line hp with hlt | hlt
      · exact absurd hlt (Nat.lt_irrefl _)
      · omega
  | value h ih =>
      exact fun he ha E hr => Judged.step ih h (fun c hc => absurd hc (List.not_mem_nil)) he ha hr
  | seq h h' ih ih' =>
      intro he ha E hr
      obtain ⟨E', first⟩ := ih (GenState.errors_mono h'.frame he) (ha.front h'.keeps) E hr
      obtain ⟨E'', second⟩ := ih' he (ha.back h.keeps) E' first.ready
      exact ⟨E'', first.trans second⟩
  | wait hb hop =>
      intro _ _ E hr
      exact ⟨_, .wait hr hb _ (by cases hop <;> rfl) .none hop.hasAny⟩
  | leap jump hid hb =>
      intro _ _ E hr
      obtain ⟨e, step⟩ := Step.leap hr jump hid hb
      exact ⟨_, step⟩
  | throw s => exact fun _ _ E hr => ⟨_, .throw hr⟩
  | settle hb => exact fun _ _ E hr => ⟨E, .settle hr hb _⟩
  | settleContinue hb => exact fun _ _ E hr => ⟨E, .settleContinue hr hb⟩
  | block ht h ih =>
      intro he ha E hr
      have entered := Step.enter hr _ _ ht.undeferred ht.hides ht.unprotected
      rw [GenState.errors_exitBlock] at he
      obtain ⟨E', body⟩ := ih he ha E entered.ready
      exact ⟨E', .construct hr ht h.frame body⟩
  | @loop s t back hback deferred ht h ih =>
      intro he ha E hr
      have entered := Step.enter hr _ _ ht.undeferred ht.hides ht.unprotected
      rw [GenState.errors_exitBlock, GenState.errors_put] at he
      obtain ⟨E', body⟩ := ih he ha E entered.ready
      have hfirst : handlers t.code s.code.size = t.depth := by
        rw [body.depth, entered.depth]
        exact body.flow.handlers (Nat.le_refl _)
      have again := Step.put body.ready back (by rcases hback with rfl | rfl <;> rfl) 0 s.code.size .none
        (fun _ => h.frame.grows) fun _ => hfirst
      exact ⟨_, .construct hr ht (h.frame.trans (.put _ _ _ _)) (body.trans again)⟩
  | each _ h h' ih ih' => exact .each h h' ih ih'
  | braces h ih =>
      intro he ha E hr
      obtain ⟨E', body⟩ := ih he ha E (Step.enter hr [.braces] none rfl ⟨by decide, by decide⟩ (by decide)).ready
      exact ⟨E', .braces hr h.frame body⟩
  | @try_ s t h ih =>
      intro he ha E hr
      obtain ⟨load, hload⟩ := Moves.protect hr (.exception s.program.exceptions.length)
      obtain ⟨E', body⟩ := ih he ha _ load.ready
      exact ⟨_, .guarded hr ((Frame.reserveException.trans (.await _ _ _)).trans h.frame) (load.trans body.toMoves)
        (body.depth.trans hload) _⟩
  | @switch s t u table h h' ih ih' => exact .switch h h' ih ih'
  | aside table h ih =>
      intro he ha E hr hg
      obtain ⟨E', step⟩ := Judged.step ih h (fun c hc => absurd hc (List.not_mem_nil)) he ha hr
      exact ⟨E', step, hg, fun j hj => .inl hj⟩
  | join h h' ih ih' =>
      intro he ha E hr hg
      obtain ⟨E', first, hg', hstarts⟩ := ih (GenState.errors_mono h'.frame he) (ha.front h'.keeps) E hr hg
      obtain ⟨E'', second, hg'', hstarts'⟩ := ih' he (ha.back h.keeps) E' first.ready hg'
      refine ⟨E'', first.trans second, hg'', fun j hj => ?_⟩
      rcases hstarts' j hj with hj | ⟨hle, hj⟩
      · rcases hstarts j hj with hj | ⟨hle, hj⟩
        · exact .inl hj
        · rw [second.flow.handlers hle]
          exact .inr ⟨Nat.le_trans hle second.flow.grows, hj⟩
      · exact .inr ⟨hle, hj.trans first.depth⟩
  | @case_ table s t u guard h h' ih ih' =>
      intro he ha E hr hg
      have he' := GenState.errors_mono h'.frame he
      have hmade : ∀ c, Made.body c ∉ [.thunk guard] := fun c hc => by cases List.mem_singleton.mp hc
      have apart := ih he' (ha.front h'.keeps) hr.filed hr.calm
      obtain ⟨E', first⟩ := Judged.step ih h hmade he' (ha.front h'.keeps) hr
      obtain ⟨E'', second⟩ := ih' he (ha.back h.keeps) E' first.ready
      refine ⟨E'', first.trans second, fun e hmem => ?_, fun j hj => ?_⟩
      · rcases List.mem_append.mp hmem with hmem | hmem
        · exact hg e hmem
        · rw [List.mem_singleton.mp hmem]
          exact apart.thunks guard (List.mem_singleton.mpr rfl)
      · refine (table.mem_starts_case hj).imp_right ?_
        rintro rfl
        exact Judged.start first second
  | @default_ table s t u h h' ih ih' =>
      intro he ha E hr hg
      obtain ⟨E', first⟩ := Judged.step ih h (fun c hc => absurd hc (List.not_mem_nil))
        (GenState.errors_mono h'.frame he) (ha.front h'.keeps) hr
      obtain ⟨E'', second⟩ := ih' he (ha.back h.keeps) E' first.ready
      refine ⟨E'', first.trans second, hg, fun j hj => (table.mem_starts_default hj).imp_right ?_⟩
      rintro rfl
      exact Judged.start first second

/-! ### A whole compilation -/

theorem ready_initial (config : Config) (E : Nat → Nat) :
    Ready F E (GenState.initial config) ∧ (GenState.initial config).blocks.Sealed := by
  have hroot : ∀ id b, (GenState.initial config).blocks.get? id = some b →
      b = { tags := [.global], first := 0, owner := .none } := by
    intro id b hb
    have hid : id < 1 := (Array.getElem?_eq_some_iff.mp hb).1
    obtain rfl : id = 0 := by omega
    exact (Option.some.inj hb).symm
  have hsealed : (GenState.initial config).blocks.Sealed := by
    intro id b hb _
    rw [hroot id b hb]
    rfl
  have hcalm : Calm F (GenState.initial config) :=
    ⟨fun c hc => absurd hc (List.not_mem_nil), fun frame hf => absurd hf (List.not_mem_nil)⟩
  refine ⟨⟨filed_initial config, open_initial config, hcalm, ?_⟩, hsealed⟩
  refine Aimed.empty rfl hsealed (fun id b hb _ => ?_) E _
  rw [hroot id b hb]
  exact ⟨rfl, rfl⟩

/-- Of a script without errors the jumps tell whether the main container and all bodies are balanced. -/
theorem Finish.judged {config : Config} {t : GenState} (h : Finish (GenState.initial config) t) (he : t.errors = 0) :
    Calm t.program.switches t ∧
      (Balanced t.program.switches t.code ∧ Bodies t.program.switches t ↔
        ∀ js ∈ t.jumps, ∀ b ∈ js, b.isProtected = false) := by
  obtain ⟨ready, hsealed⟩ := ready_initial (F := t.program.switches) config fun _ => 0
  have hbodies : Bodies t.program.switches (GenState.initial config) := fun c hc => absurd hc (List.not_mem_nil)
  -- Nothing was there at the start, so a verdict on what was added is one on everything.
  have whole : Judges t.program.switches (Balanced t.program.switches t.code) (GenState.initial config) t →
      (Balanced t.program.switches t.code ∧ Bodies t.program.switches t ↔
        ∀ js ∈ t.jumps, ∀ b ∈ js, b.isProtected = false) := by
    intro judged
    unfold Judges at judged
    rw [judged, and_iff_right hbodies]
    exact Iff.rfl
  cases h with
  | @statements t run =>
      obtain ⟨E', step⟩ := run.judged (F := t.program.switches) he (fun _ _ _ => rfl) _ ready
      refine ⟨⟨step.ready.calm.thunks, step.ready.calm.statics⟩, whole ?_⟩
      exact step.container rfl hsealed (run.frame.shapes Nat.one_pos) ⟨rfl, rfl⟩ (some .throw)
  | @expression t run p1 =>
      have apart := run.judged (F := t.program.switches) he (fun _ _ _ => rfl) ready.filed ready.calm
      refine ⟨⟨apart.calm.thunks, apart.calm.statics⟩, whole ?_⟩
      have level : Level #[] (after (put .done p1 1 .none) t).code :=
        (run.level he).trans (.push (steady_plain rfl ..))
      refine Judges.congr apart.judges ⟨fun _ => level.balanced _, fun _ c hc => absurd hc (List.not_mem_nil)⟩

end

namespace Config

/-- Of a source without errors every container is balanced exactly when no `break` or `continue` leaves a
protected body.  Such a jump is the only thing that goes wrong: it skips the instruction that removes the
handler of the body. -/
theorem handlers_balanced_iff (config : Config) (source : String) (c : Compilation) (read : Tokens)
    (h : (config.compile source).result = .ok c) (he : c.errors = 0) (hread : config.tokens? source = some read) :
    (∀ k ∈ c.program.containers, Balanced c.program.switches k.code) ↔
      ∀ js ∈ (config.generate source.utf8ByteSize read).jumps, ∀ b ∈ js, b.isProtected = false := by
  obtain ⟨read', hread', hprogram, herrors⟩ := compile_ok h
  obtain rfl : read' = read := Option.some.inj (hread'.symm.trans hread)
  obtain ⟨calm, judged⟩ := (config.finish_generate source.utf8ByteSize read').judged (herrors.symm.trans he)
  rw [← judged, hprogram]
  constructor
  · intro hall
    have hcontainer : ∀ code, _ → Balanced _ code := fun code hcode => by
      obtain ⟨k, hk, rfl⟩ := (Program.lists_containers _ code).mpr hcode
      exact hall k hk
    exact ⟨hcontainer _ (.inl rfl), fun code hcode => hcontainer code (.inr (.inl hcode))⟩
  · rintro ⟨hmain, hbodies⟩ k hk
    rcases (Program.lists_containers _ _).mp ⟨k, hk, rfl⟩ with hk | hk | hk
    · rw [hk]
      exact hmain
    · exact hbodies _ hk
    · exact calm.thunks _ hk

/-- The `break` of this source leaves a protected body with its handler installed: the end of the loop is
reached with a handler and without one. -/
theorem handlers_unbalanced_of_break :
    ∃ c, (({} : Config).compile "while ($a) { try { break; } catch (E $e) { } }").result = .ok c ∧ c.errors = 0 ∧
      (¬∀ k ∈ c.program.containers, Balanced c.program.switches k.code) ∧
      ¬Consistent Opcode.falls c.program.switches c.program.main := by
  let start : List Instruction := [⟨.load, 0, 0, .name "a", 1⟩, ⟨.jmpz, 0, 6, .none, 1⟩,
    ⟨.loadException, 0, 4, .exception 0, 1⟩, ⟨.jmp, 0, 6, .none, 1⟩]
  let source := "while ($a) { try { break; } catch (E $e) { } }"
  have compiled : ((({} : Config).tokens? source).bind fun read =>
      (({} : Config).deliver (({} : Config).generate source.utf8ByteSize read)).result.toOption.map fun c =>
        (c.errors, decide ((c.program.main.toList.take 4).map Instruction.parts = start.map Instruction.parts),
          (({} : Config).generate source.utf8ByteSize read).jumps.any fun js => js.any Block.isProtected)) =
      some (0, true, true) := by
    rw [tokens?_ofList rfl rfl]
    decide +kernel
  obtain ⟨read, c, hread, hr, told⟩ := ok_of_bind compiled
  obtain ⟨errors, told⟩ := Prod.mk.inj told
  obtain ⟨same, hjumps⟩ := Prod.mk.inj told
  obtain ⟨js, hjs, hb⟩ := List.any_eq_true.mp hjumps
  obtain ⟨b, hb, hprotected⟩ := List.any_eq_true.mp hb
  refine ⟨c, hr, errors, fun hall => ?_, ?_⟩
  · have := (handlers_balanced_iff _ _ c read hr errors hread).mp hall js hjs b hb
    exact absurd (hprotected.symm.trans this) (by decide)
  · rintro ⟨depth, hstart, hdepth⟩
    have hcode : ∀ i < 4, c.program.main[i]? = start[i]? := by
      intro i hi
      rw [← Instruction.eq_of_parts (of_decide_eq_true same), List.getElem?_take_of_lt hi, Array.getElem?_toList]
    have load := (hdepth 0 _ (hcode 0 (by decide))).1 rfl
    have test := hdepth 1 _ (hcode 1 (by decide))
    have install := (hdepth 2 _ (hcode 2 (by decide))).1 rfl
    have out := (hdepth 3 _ (hcode 3 (by decide))).2 6 (List.mem_singleton.mpr rfl)
    have leave := test.2 6 (List.mem_singleton.mpr rfl)
    have enter := test.1 rfl
    simp only [Opcode.Passes, Nat.reduceAdd] at load enter install
    omega

end Config

end StackScript
