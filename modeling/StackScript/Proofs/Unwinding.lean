/-
Where the hazards of a statement lie.

A throw waits on the innermost block of a protected body, a function or a catch clause, or on the root.  `Winds`
says of a generator, inside any blocks, that its hazards lie in the finished container between the ends of its
code, where throws go that wait on this block.  Unlike a layout it leaves open where everything else lies, so
the generator of a construct winds what its parts wind, one behind the other.
-/
import StackScript.Proofs.Clauses
import StackScript.Proofs.Hazards

namespace StackScript

open Gen

/-! ### Where throws wait -/

namespace BlockStack

variable {bs cs : BlockStack} {tags : List BlockTag} {b : Block}

/-- The block that a thrown exception waits on. -/
def rescue (bs : BlockStack) : Nat := bs.nearest [.exception, .function]

theorem nearestFrom_congr {n : Nat} (h : ∀ i < n, (cs.get? i).any (·.hasAny tags) = (bs.get? i).any (·.hasAny tags)) :
    cs.nearestFrom tags n = bs.nearestFrom tags n := by
  induction n with
  | zero => rfl
  | succ n ih => rw [nearestFrom, nearestFrom, h n (Nat.lt_succ_self n), ih fun i hi => h i (Nat.lt_succ_of_lt hi)]

theorem rescue_congr (h : cs.shapes = bs.shapes) : cs.rescue = bs.rescue := by
  unfold rescue nearest
  rw [size_congr h, nearestFrom_congr fun i hi => ?_]
  have hb : bs.get? i = some bs.blocks[i] := Array.getElem?_eq_getElem hi
  obtain ⟨c, hc, hshape⟩ := get?_congr h hb
  rw [hc, hb, Option.any_some, Option.any_some, Block.hasAny_congr hshape]

theorem rescue_lt (hs : 0 < bs.blocks.size) : bs.rescue < bs.blocks.size := by
  obtain ⟨b, hb, -⟩ := bs.nearest_target hs
  exact (Array.getElem?_eq_some_iff.mp hb).1

/-- Blocks that stop no exception are passed. -/
theorem rescue_push (hb : b.hasAny [.exception, .function] = false) : (BlockStack.mk (bs.blocks.push b)).rescue = bs.rescue := by
  have passed : ∀ i < bs.blocks.size, ((BlockStack.mk (bs.blocks.push b)).get? i).any (·.hasAny [.exception, .function]) =
      (bs.get? i).any (·.hasAny [.exception, .function]) := fun i hi => by rw [get?_push, if_neg (Nat.ne_of_lt hi)]
  unfold rescue nearest
  rw [Array.size_push, nearestFrom, get?_entered, Option.any_some, hb, if_neg (by decide), nearestFrom_congr passed]

theorem rescue_push_self (hb : b.hasAny [.exception, .function] = true) :
    (BlockStack.mk (bs.blocks.push b)).rescue = bs.blocks.size := by
  unfold rescue nearest
  rw [Array.size_push, nearestFrom, get?_entered, Option.any_some, hb, if_pos rfl, Option.getD_some]

end BlockStack

/-! ### Pieces of code with hazards -/

/-- Targets are told on the blocks from `N` on only, and not on block `n`. -/
def Outer (n N : Nat) (A B : Aims) (_ _ : Nat) : Prop := ∀ id, id = n ∨ id < N → B id = A id

/-- The hazards lie between the ends of a piece, and what is thrown waits on block `n`. -/
def Winding (k n N : Nat) (hs : List Hazard) (s t : GenState) : Prop :=
  Placing k (Outer n N) (fun p F A i j => p.Catches s t → Hazard.AllLie p F (A n (some .throw)) hs i j) s t

section Winding

variable {k n N id : Nat} {hs hs' : List Hazard} {s t u : GenState} {R : Aims → Aims → Nat → Nat → Prop}
  {P : Program → Code → Aims → Nat → Nat → Prop}

theorem Winding.seq (h : Winding k n N hs s t) (h' : Winding k n N hs' t u) (hroot : 0 < s.blocks.blocks.size)
    (longer : s.program.exceptions.length ≤ t.program.exceptions.length)
    (kept : t.program.exceptions <+: u.program.exceptions) : Winding k n N (hs ++ hs') s u := by
  refine (Placing.seq h h' hroot).mono ?_ ?_
  · rintro A C i j ⟨m, B, hAB, hBC⟩ id hid
    rw [hBC id hid, hAB id hid]
  · rintro p F C ⟨m, B, hBC, hhs, hhs'⟩ hp
    have rescue : C n = B n := hBC n (.inl rfl)
    have behind := hhs' (hp.back longer)
    rw [← rescue] at behind
    exact (hhs (hp.front kept)).append behind

/-- A piece that has nothing to do with exceptions. -/
theorem Placing.winding (h : Placing k R P s t) (hR : ∀ A B i j, R A B i j → Outer n N A B i j)
    (hP : ∀ p F A i j, P p F A i j → i ≤ j ∧ F.Calm i j) : Winding k n N [] s t := by
  refine h.mono hR fun p F A h _ => ?_
  rw [Hazard.AllLie]
  exact hP p F A _ _ h

theorem Same.outer {A B : Aims} {i j : Nat} (h : Same A B i j) : Outer n N A B i j := fun _ _ => by rw [h]

end Winding

/-- A generator whose hazards lie in its code, inside blocks of some shape, unless it reports an error. -/
structure Winds {α : Type} (k : Nat) (bs : BlockStack) (N : Nat) (hs : List Hazard) (m : Gen α) : Prop where
  builds : ∀ s, Builds s (after m s)
  keeps : KeepsClauses m
  placed : ∀ s, s.blocks.shapes = bs.shapes → Tidy (s.cleared k) → (after m s).errors = s.errors →
    Winding k bs.rescue N hs s (after m s)

namespace Winds

variable {α β : Type} {k : Nat} {bs : BlockStack} {N : Nat} {hs hs' : List Hazard} {m : Gen α} {f : α → Gen β}
  {R : Aims → Aims → Nat → Nat → Prop} {P : Program → Code → Aims → Nat → Nat → Prop}

theorem bind (h : Winds k bs N hs m) (h' : ∀ a, Winds k bs N hs' (f a)) : Winds k bs N (hs ++ hs') (m >>= f) where
  builds := fun s => (h.builds s).trans ((h' _).builds _)
  keeps := fun s => (h.keeps s).trans ((h' _).keeps _)
  placed := by
    intro s hshapes tidy he
    rw [after_bind] at he ⊢
    have hroot : 0 < s.blocks.blocks.size := by simpa using tidy.root
    obtain ⟨first, second⟩ := (h.builds s).errors_split ((h' _).builds _) he
    have front := h.placed s hshapes tidy first
    exact front.seq ((h' _).placed _ ((front.builds.frame.shapes hroot).trans hshapes) front.tidy second) hroot (h.keeps s).length_le
      ((h' _).keeps _)

/-- What comes first has nothing to do with exceptions. -/
theorem behind (h : Winds k bs N [] m) (h' : ∀ a, Winds k bs N hs (f a)) : Winds k bs N hs (m >>= f) := h.bind h'

/-- What comes last has nothing to do with exceptions. -/
theorem before (h : Winds k bs N hs m) (h' : ∀ a, Winds k bs N [] (f a)) : Winds k bs N hs (m >>= f) := by
  have := h.bind h'
  rwa [List.append_nil] at this

/-- A generator that is placed has no hazards if it has nothing to do with exceptions. -/
theorem of_places (h : Places k bs m R P) (keeps : KeepsClauses m) (hR : ∀ A B i j, R A B i j → Outer bs.rescue N A B i j)
    (hP : ∀ p F A i j, P p F A i j → i ≤ j ∧ F.Calm i j) : Winds k bs N [] m :=
  ⟨h.builds, keeps, fun s hshapes tidy he => (h.placed s hshapes tidy he).winding hR hP⟩

theorem silent (h : Places k bs m Same fun _ _ _ i j => j = i) (keeps : KeepsClauses m) : Winds k bs N [] m :=
  of_places h keeps (fun _ _ _ _ => Same.outer) fun _ F _ i j h => by
    subst h
    exact ⟨Nat.le_refl j, .none F j⟩

theorem valued {m : Gen Unit} (h : Valued m) (keeps : KeepsClauses m) : Winds k bs N [] m := by
  refine of_places (places_valued h) keeps (fun _ _ _ _ => Same.outer) fun _ F _ i j h => ⟨?_, h.calm ‹_›⟩
  obtain ⟨s, rfl, rfl, -, -⟩ := h
  exact (h s).frame.grows

end Winds

theorem Gen.Still.keeps {α : Type} {m : Gen α} (h : Still m) : KeepsClauses m :=
  fun s => (h.clauses s).symm ▸ List.prefix_rfl

theorem Expr.keeps_gen (access : Access) (restriction : Option Restriction) (e : Expr) : KeepsClauses (e.gen access restriction) :=
  keeping.claims_expr access restriction e

/-- The hazards of a statement lie in its code, inside any blocks. -/
def Stmt.IsWound (s : Stmt) : Prop := ∀ k bs, BlockStack.Floor bs k → 0 < bs.blocks.size → ∀ N, Winds k bs N s.hazards s.gen

/-- So do those of several statements. -/
def Stmt.AreWound (ss : List Stmt) : Prop := ∀ k bs, BlockStack.Floor bs k → 0 < bs.blocks.size →
  ∀ N, Winds k bs N (Stmt.allHazards ss) (Stmt.genAll ss)

section Constructs

variable {k : Nat} {bs : BlockStack} {N id : Nat} {b : Block} {hs : List Hazard}

/-- What is built by a statement and the clauses that it keeps are known. -/
theorem Stmt.winds_of {st : Stmt} (h : ∀ s : GenState, s.blocks.shapes = bs.shapes → Tidy (s.cleared k) →
    (after st.gen s).errors = s.errors → Winding k bs.rescue N hs s (after st.gen s)) : Winds k bs N hs st.gen :=
  ⟨fun s => (Stmt.flows_gen st s).builds, keeping.claims_stmt st, h⟩

/-! ### Parts -/

theorem winds_expr (access : Access) (restriction : Option Restriction) (e : Expr) :
    Winds k bs N [] (e.gen access restriction) := .valued (Expr.valued_gen _ _ e) (Expr.keeps_gen _ _ e)

theorem winds_still {m : Gen Unit} (h : Valued m) (still : Still m) : Winds k bs N [] m := .valued h still.keeps

theorem winds_reportAll (rs : List Report) : Winds k bs N [] (reportAll rs) := winds_still (valued_reportAll rs) (still_reportAll rs)

theorem winds_reportStrays (header : Header) (strays : List Token) : Winds k bs N [] (reportStrays header strays) :=
  winds_reportAll _

theorem winds_reportFault (fault : Option Report) : Winds k bs N [] (reportFault fault) :=
  winds_still (valued_reportFault fault) (still_reportFault fault)

theorem winds_report (line : Nat) (problem : Problem) : Winds k bs N [] (report line problem) :=
  winds_still (valued_report line problem) (still_report line problem)

theorem winds_reportIf (isWrong : Bool) (line : Nat) (problem : Problem) : Winds k bs N [] (reportIf isWrong line problem) :=
  winds_still (valued_reportIf isWrong line problem) (still_reportIf isWrong line problem)

theorem winds_here : Winds k bs N [] here := .silent (.silent (Valued.get.bind fun _ => .pure _) fun _ => rfl) still_here.keeps

theorem winds_jumpTo (op : Opcode) (hop : op.unwinds = false) (target : Nat) : Winds k bs N [] (jumpTo op target) :=
  .of_places (places_jumpTo op target) still_put.keeps (fun _ _ _ _ => Same.outer) fun _ F _ i j h => by
    obtain ⟨hjump, rfl⟩ := h
    exact ⟨Nat.le_succ i, .jump hjump hop⟩

/-- A jump that waits on a block and is no throw. -/
theorem winds_await (hk : k ≤ id) (hb : bs.get? id = some b) (htarget : b.isTarget = true) (op : Opcode)
    (hop : op.unwinds = false) (p3 : Operand) : Winds k bs N [] (await id op p3) :=
  .of_places (places_await hk hb (.inr htarget) op p3) still_await.keeps (fun _ _ _ _ => Same.outer) fun _ F _ i j h => by
    obtain ⟨hjump, rfl⟩ := h
    exact ⟨Nat.le_succ i, .jump hjump hop⟩

/-- The jumps of some kinds go here. -/
theorem Aims.set_outer {A B : Aims} {n : Nat} {kinds : Option Opcode → Bool} {i j : Nat} (hn : n ≠ id) (hN : N ≤ id)
    (h : B = A.set id kinds j) : Outer n N A B i j := by
  rintro m hm
  have hne : m ≠ id := by
    rcases hm with rfl | hm
    · exact hn
    · omega
  subst h
  funext kind
  exact if_neg fun hset => hne hset.1

theorem winds_settle (hk : k ≤ id) (hb : bs.get? id = some b) (htarget : b.isTarget = true) (hrescue : bs.rescue ≠ id)
    (hN : N ≤ id) (op : Option Opcode) : Winds k bs N [] (settle id op) :=
  .of_places (places_settle hk hb (.inr htarget) op) still_settle.keeps (fun _ _ _ _ => Aims.set_outer hrescue hN)
    fun _ F _ i j h => by
      obtain rfl : j = i := h
      exact ⟨Nat.le_refl j, .none F j⟩

theorem winds_settleContinue (hk : k ≤ id) (hb : bs.get? id = some b) (htarget : b.isTarget = true)
    (hrescue : bs.rescue ≠ id) (hN : N ≤ id) : Winds k bs N [] (settleContinue id) :=
  .of_places (places_settleContinue hk hb htarget) still_settleContinue.keeps (fun _ _ _ _ => Aims.set_outer hrescue hN)
    fun _ F _ i j h => by
      obtain rfl : j = i := h
      exact ⟨Nat.le_refl j, .none F j⟩

/-- A construct in a block of its own that stops no exception. -/
theorem winding_inBlock {tags : List BlockTag} {deferred : Option (List Nat)} {s : GenState} (body : Nat → Gen Unit)
    (ht : IsConstruct tags deferred) (hb : b.shape = (tags, .none, deferred.isSome)) (hk : k < bs.blocks.size)
    (h : Winds k ⟨bs.blocks.push b⟩ bs.blocks.size hs (body bs.blocks.size)) (hshapes : s.blocks.shapes = bs.shapes)
    (tidy : Tidy (s.cleared k)) (he : (after (inBlock tags deferred body) s).errors = s.errors) :
    Winding k bs.rescue N hs s (after (inBlock tags deferred body) s) := by
  have hsize : s.blocks.blocks.size = bs.blocks.size := BlockStack.size_congr hshapes
  have he' : (after (body s.blocks.blocks.size) (after (enter tags s.code.size .none deferred) s)).errors = s.errors := he
  have rescue : (BlockStack.mk (bs.blocks.push b)).rescue = bs.rescue := by
    refine BlockStack.rescue_push ?_
    have htags : b.tags = tags := congrArg Prod.fst hb
    rw [Block.hasAny, htags]
    cases ht <;> rfl
  have hrescue : bs.rescue < bs.blocks.size := BlockStack.rescue_lt (by omega)
  show Placing _ _ _ s ((after (body s.blocks.blocks.size) (after (enter tags s.code.size .none deferred) s)).exitBlock
    s.blocks.blocks.size)
  rw [← hsize] at h hk hrescue
  have placed := h.placed _ (shapes_entered hshapes hb) (tidy.entered (Nat.le_of_lt hk) ht.undeferred) he'
  rw [rescue] at placed
  refine (Placing.exitBlock (R := fun A B => Outer bs.rescue s.blocks.blocks.size A B 0 0) placed ht hk
    fun A B outer id hid => outer id (.inr hid)).mono (fun _ _ _ _ => Same.outer) ?_
  rintro p F A ⟨C, hagree, -, -, -, hhs⟩ hp
  rw [← hagree _ hrescue]
  exact hhs hp

/-! ### Throws -/

theorem Stmt.wound_throw (line : Nat) (value : Expr) : (Stmt.throw line value).IsWound := by
  intro k bs hf hs₀ N
  refine Stmt.winds_of fun s hshapes tidy he => ?_
  have hroot : 0 < s.blocks.blocks.size := by simpa using tidy.root
  rw [Stmt.gen_throw, Gen.throw, after_bind] at he ⊢
  have given : Winds k bs N [] (value.gen {} (some .throwable)) := winds_expr _ _ value
  cases hvalue : value.isPresent with
  | false =>
      rw [hvalue] at he
      have refused : Winds k bs N [] (Gen.report line .notThrowable) := winds_report _ _
      exact ((tells_error line rfl).told _ ((given.builds s).errors_split (refused.builds _) he).2).elim
  | true =>
      rw [hvalue] at he
      have first := given.placed s hshapes tidy he
      have longer := (given.keeps s).length_le
      generalize after (value.gen {} (some .throwable)) s = t at first longer he ⊢
      have hshapes' : t.blocks.shapes = bs.shapes := (first.builds.frame.shapes hroot).trans hshapes
      obtain ⟨b, hb, htarget⟩ := t.blocks.nearest_target (by simpa using first.tidy.root)
      have thrown := (places_await (hf.congr hshapes').le_nearest hb htarget .throw .none).placed t rfl first.tidy rfl
      refine first.seq (thrown.mono (fun _ _ _ _ => Same.outer) ?_) hroot longer List.prefix_rfl
      rintro p F A ⟨hjump, hj⟩ -
      refine Hazard.Lies.all ?_
      rw [Hazard.Lies, ← BlockStack.rescue_congr hshapes']
      exact ⟨hjump, hj⟩

/-! ### Loops -/

/-- Throws inside a block that stops none wait outside it. -/
theorem BlockStack.rescue_entered (hs₀ : 0 < bs.blocks.size) (hb : b.hasAny [.exception, .function] = false) :
    (BlockStack.mk (bs.blocks.push b)).rescue ≠ bs.blocks.size := by
  rw [BlockStack.rescue_push hb]
  exact Nat.ne_of_lt (BlockStack.rescue_lt hs₀)

theorem Stmt.wound_whileLoop (test : Expr) (strays : List Token) {body : Stmt} (h : body.IsWound) :
    (Stmt.whileLoop test strays body).IsWound := by
  intro k bs hf hs₀ N
  refine Stmt.winds_of fun s hshapes tidy he => ?_
  rw [Stmt.gen_whileLoop, Gen.whileLoop, after_bind, result_here, after_here] at he ⊢
  have hk := hf.lt hs₀
  have inner := (winds_expr {} none test).behind fun _ => (winds_reportStrays .plain strays).behind fun _ =>
    (winds_await (Nat.le_of_lt hk) (get?_entered bs (loopBlock none)) rfl .jmpz rfl .none).behind fun _ =>
    (h k _ (hf.loop hs₀ none) (size_entered ..) bs.blocks.size).before fun _ => winds_jumpTo .jmp rfl s.code.size
  exact winding_inBlock (fun id => do
    test.gen {} none
    reportStrays .plain strays
    await id .jmpz .none
    body.gen
    jumpTo .jmp s.code.size) .loop rfl hk inner hshapes tidy he

theorem Stmt.wound_doLoop (test : Expr) (strays : List Token) {body : Stmt} (h : body.IsWound) :
    (Stmt.doLoop body test strays).IsWound := by
  intro k bs hf hs₀ N
  refine Stmt.winds_of fun s hshapes tidy he => ?_
  rw [Stmt.gen_doLoop, Gen.doLoop, after_bind, result_here, after_here] at he ⊢
  have hk := hf.lt hs₀
  have inner := (h k _ (hf.loop hs₀ (some [])) (size_entered ..) bs.blocks.size).before fun _ =>
    (winds_settleContinue (Nat.le_of_lt hk) (get?_entered bs (loopBlock (some []))) rfl (BlockStack.rescue_entered hs₀ rfl)
      (Nat.le_refl _)).behind fun _ => (winds_expr {} none test).behind fun _ => (winds_reportStrays .plain strays).behind fun _ =>
    winds_jumpTo .jmpnz rfl s.code.size
  exact winding_inBlock (fun id => do
    body.gen
    settleContinue id
    test.gen {} none
    reportStrays .plain strays
    jumpTo .jmpnz s.code.size) .deferring rfl hk inner hshapes tidy he

theorem Stmt.wound_doWithoutTest (r : Report) {body : Stmt} (h : body.IsWound) : (Stmt.doWithoutTest body r).IsWound := by
  intro k bs hf hs₀ N
  refine Stmt.winds_of fun s hshapes tidy he => ?_
  rw [Stmt.gen_doWithoutTest, Gen.doWithoutTest] at he ⊢
  have inner := (h k _ (hf.loop hs₀ (some [])) (size_entered ..) bs.blocks.size).before fun _ => winds_report r.line r.problem
  exact winding_inBlock (fun _ => do
    body.gen
    Gen.report r.line r.problem) .deferring rfl (hf.lt hs₀) inner hshapes tidy he

/-- The jump out of a loop that may have no test. -/
theorem winds_exitIf (hk : k ≤ id) (hb : bs.get? id = some b) (htarget : b.isTarget = true) (hasTest : Bool) :
    Winds k bs N [] (exitIf hasTest id) := by
  unfold exitIf
  cases hasTest with
  | true => exact winds_await hk hb htarget .jmpz rfl .none
  | false => exact winds_still (.pure ()) (still_pure ())

/-- A `for` behind its first part. -/
theorem winds_forRounds (hf : bs.Floor k) (hs₀ : 0 < bs.blocks.size) (line : Nat) (test : Expr) (afterTest : Bool)
    {body : Stmt} (post : Expr) (afterPost : Bool) (h : body.IsWound) :
    Winds k bs N body.hazards (forLoop line (pure ()) test.isPresent (test.gen {} none) afterTest body.gen post.isPresent
      (post.gen {} none) afterPost) := by
  refine ⟨fun s => (flows_forLoop line (Valued.pure ()).flows test.isPresent (Expr.valued_gen {} none test) afterTest
    (Stmt.flows_gen body) post.isPresent (Expr.valued_gen {} none post) afterPost s).builds,
    keeping.forLoop line (keeping.still (still_pure ())) _ (keeping.claims_expr _ _ test) afterTest (keeping.claims_stmt body) _
      (keeping.claims_expr _ _ post) afterPost, fun s hshapes tidy he => ?_⟩
  unfold forLoop at he ⊢
  rw [after_bind, after_pure, after_bind, result_here, after_here] at he ⊢
  have hk := hf.lt hs₀
  have entered := get?_entered bs (loopBlock (some []))
  have rescue := BlockStack.rescue_entered (b := loopBlock (some [])) hs₀ rfl
  have inner := (winds_expr {} none test).behind fun _ =>
    (winds_exitIf (Nat.le_of_lt hk) entered rfl test.isPresent).behind fun _ =>
    (winds_reportIf afterTest line .forAfterTest).behind fun _ =>
    (h k _ (hf.loop hs₀ (some [])) (size_entered ..) bs.blocks.size).before fun _ =>
    (winds_settleContinue (Nat.le_of_lt hk) entered rfl rescue (Nat.le_refl _)).behind fun _ =>
    (winds_expr {} none post).behind fun _ => (winds_still (valued_dropIf post.isPresent) (still_dropIf _)).behind fun _ =>
    (winds_reportIf afterPost line .forAfterPost).behind fun _ => winds_jumpTo .jmp rfl s.code.size
  exact winding_inBlock (fun id => do
    test.gen {} none
    exitIf test.isPresent id
    reportIf afterTest line .forAfterTest
    body.gen
    settleContinue id
    post.gen {} none
    dropIf post.isPresent
    reportIf afterPost line .forAfterPost
    jumpTo .jmp s.code.size) .deferring rfl hk inner hshapes tidy he

theorem Stmt.wound_forLoop (line : Nat) {init : Stmt} (test : Expr) (afterTest : Bool) {body : Stmt} (post : Expr)
    (afterPost : Bool) (hi : init.IsWound) (h : body.IsWound) :
    (Stmt.forLoop line init test afterTest body post afterPost).IsWound := by
  intro k bs hf hs₀ N
  rw [Stmt.gen_forLoop]
  exact (hi k bs hf hs₀ N).bind fun _ => winds_forRounds hf hs₀ line test afterTest post afterPost h

/-! ### Loops over a source -/

/-- The hazards of what follows `as` lie in its code, on the block of a loop. -/
def ForeachHead.IsWound (h : ForeachHead) : Prop := ∀ k bs, BlockStack.Floor bs k → 0 < bs.blocks.size → ∀ line key,
  Winds k ⟨bs.blocks.push (loopBlock none)⟩ bs.blocks.size h.hazards (h.gen bs.blocks.size line key)

theorem winds_discarding {e : Expr} {access : Access} {restriction : Option Restriction} :
    Winds k bs N [] (discarding (e.gen access restriction)) :=
  .silent (places_discarding (Expr.valued_gen _ _ e)) (keeping.discarding (keeping.claims_expr _ _ e))

theorem winds_restartHere (hk : k ≤ bs.blocks.size) (hs₀ : 0 < bs.blocks.size) :
    Winds k ⟨bs.blocks.push (loopBlock none)⟩ bs.blocks.size [] (restartHere bs.blocks.size) where
  builds := fun _ => .of_frame (.restartHere bs.blocks.size) rfl List.prefix_rfl rfl
  keeps := fun _ => List.prefix_rfl
  placed := by
    intro s hshapes tidy _
    obtain ⟨d, hd, hshape⟩ := BlockStack.get?_congr hshapes (get?_entered bs (loopBlock none))
    have restarted := Placing.restart tidy hk hd (by rw [Block.hasAny_congr hshape]; rfl) (Block.undeferred_congr hshape rfl)
    refine restarted.winding ?_ fun _ F _ i j h => ?_
    · rintro A B i j ⟨-, honly⟩ id hid
      have hne : id ≠ bs.blocks.size := by
        rcases hid with rfl | hid
        · exact BlockStack.rescue_entered hs₀ rfl
        · exact Nat.ne_of_lt hid
      funext kind
      exact honly id kind fun hset => hne hset.1
    · obtain rfl : j = i := h
      exact ⟨Nat.le_refl j, .none F j⟩

/-- The loop behind its source. -/
theorem winds_foreachLoop (hf : bs.Floor k) (hs₀ : 0 < bs.blocks.size) (table : ForeachTable) {body : Stmt}
    (h : body.IsWound) : Winds k ⟨bs.blocks.push (loopBlock none)⟩ bs.blocks.size body.hazards
      (foreachLoop bs.blocks.size table body.gen) := by
  have hk := Nat.le_of_lt (hf.lt hs₀)
  have entered := get?_entered bs (loopBlock none)
  exact (Winds.silent (.silent (valued_addForeach table) fun _ => rfl) (still_addForeach table).keeps).behind fun id =>
    (winds_await hk entered rfl .foreachInit rfl (.foreach id)).behind fun _ => (winds_restartHere hk hs₀).behind fun _ =>
    winds_here.behind fun first => (winds_await hk entered rfl .foreachStep rfl (.foreach id)).behind fun _ =>
    (h k _ (hf.loop hs₀ none) (size_entered ..) bs.blocks.size).before fun _ => winds_jumpTo .jmp rfl first

theorem Stmt.wound_foreach (line : Nat) (source : Expr) (strays : List Token) {head : ForeachHead} (h : head.IsWound) :
    (Stmt.foreach line source strays head).IsWound := by
  intro k bs hf hs₀ N
  refine Stmt.winds_of fun s hshapes tidy he => ?_
  rw [Stmt.gen_foreach, Gen.foreach] at he ⊢
  have inner := (winds_expr {} none source).behind fun _ => (winds_reportStrays .foreach strays).behind fun _ =>
    h k bs hf hs₀ line none
  exact winding_inBlock (fun id => do
    source.gen {} none
    reportStrays .foreach strays
    head.gen id line none) .loop rfl (hf.lt hs₀) inner hshapes tidy he

/-! ### Conditionals -/

/-- The hazards of the branches lie in their code, on the block of a conditional. -/
def Chain.IsWound (c : Chain) : Prop := ∀ k bs, BlockStack.Floor bs k → 0 < bs.blocks.size →
  Winds k ⟨bs.blocks.push conditionalBlock⟩ bs.blocks.size c.hazards (c.gen bs.blocks.size)

theorem Chain.wound_branch (test : Expr) (strays : List Token) {body : Stmt} {rest : Chain} (hb : body.IsWound)
    (hr : rest.IsWound) : (Chain.branch test strays body rest).IsWound := by
  intro k bs hf hs₀
  have hk := Nat.le_of_lt (hf.lt hs₀)
  have entered := get?_entered bs conditionalBlock
  have settled := (winds_settle hk entered rfl (BlockStack.rescue_entered hs₀ rfl) (Nat.le_refl _) (some .jmpz)).behind
    fun _ => hr k bs hf hs₀
  refine (winds_expr {} none test).behind fun _ => (winds_reportStrays .plain strays).behind fun _ =>
    (winds_await hk entered rfl .jmpz rfl .none).behind fun _ =>
    (hb k _ (hf.push (hf.lt hs₀) rfl) (size_entered ..) bs.blocks.size).bind fun _ => ?_
  cases rest.isDone with
  | true => exact settled
  | false => exact (winds_await hk entered rfl .jmp rfl .none).behind fun _ => settled

theorem Stmt.wound_conditional {chain : Chain} (h : chain.IsWound) : (Stmt.conditional chain).IsWound := by
  intro k bs hf hs₀ N
  refine Stmt.winds_of fun s hshapes tidy he => ?_
  exact winding_inBlock (fun id => chain.gen id) .conditional rfl (hf.lt hs₀) (h k bs hf hs₀) hshapes tidy he

/-! ### Switches -/

theorem Stmt.wound_switchWithoutBody (subject : Expr) (strays : List Token) (r : Report) :
    (Stmt.switchWithoutBody subject strays r).IsWound := by
  intro k bs hf hs₀ N
  refine Stmt.winds_of fun s hshapes tidy he => ?_
  rw [Stmt.gen_switchWithoutBody, Gen.switchWithoutBody] at he ⊢
  have first : Winds k ⟨bs.blocks.push switchBlock⟩ bs.blocks.size [] (subject.gen {} none) := winds_expr _ _ subject
  have inner := first.behind fun _ => (winds_reportStrays .switch strays).behind fun _ => winds_report r.line r.problem
  exact winding_inBlock (fun _ => do
    subject.gen {} none
    reportStrays .switch strays
    Gen.report r.line r.problem) .switch rfl (hf.lt hs₀) inner hshapes tidy he

/-- The hazards of the sections lie in their code. -/
def Section.AreWound (ss : List Section) : Prop := ∀ k bs, BlockStack.Floor bs k → 0 < bs.blocks.size → ∀ N table,
  Winds k bs N (Section.allHazards ss) (Section.genAll ss table)

theorem winds_sectionBody (hf : bs.Floor k) (hs₀ : 0 < bs.blocks.size) (strays : List Token) {body : List Stmt}
    (h : Stmt.AreWound body) : Winds k bs N (Stmt.allHazards body) (sectionBody strays (Stmt.genAll body)) :=
  (winds_reportAll _).behind fun _ => winds_here.behind fun start => (h k bs hf hs₀ N).before fun _ =>
    .silent (.silent (.pure start) fun _ => rfl) (still_pure start).keeps

/-- The guard of a case fills a container of its own. -/
theorem winds_thunk (line : Nat) (value : Expr) : Winds k bs N [] (thunk line value.isPresent (value.gen {} none)) where
  builds := fun s => (makes_thunk line value.isPresent (Expr.valued_gen {} none value) s).builds
  keeps := keeping.thunk line value (keeping.claims_expr {} none value)
  placed := by
    intro s _ tidy he
    have hroot : 0 < s.blocks.blocks.size := by simpa using tidy.root
    have made := makes_thunk line value.isPresent (Expr.valued_gen {} none value) s
    have placed : Placing k Same (fun _ _ _ i j => j = i) s (after (thunk line value.isPresent (value.gen {} none)) s) :=
      .of_spares tidy (made.spares hroot) made.builds he fun _ _ _ _ _ _ => rfl
    refine placed.winding (fun _ _ _ _ => Same.outer) fun _ F _ i j h => ?_
    obtain rfl : j = i := h
    exact ⟨Nat.le_refl j, .none F j⟩

theorem Section.wound_nil : Section.AreWound [] := by
  intro k bs _ _ N table
  exact .silent (.silent (.pure table) fun _ => rfl) (still_pure table).keeps

theorem Section.wound_case (line : Nat) (guard : Expr) (strays : List Token) {body : List Stmt} {ss : List Section}
    (hb : Stmt.AreWound body) (hr : Section.AreWound ss) : Section.AreWound (.case_ line guard strays body :: ss) := by
  intro k bs hf hs₀ N table
  have first : Winds k bs N (Stmt.allHazards body)
      (caseSection line guard.isPresent (guard.gen {} none) strays (Stmt.genAll body) table) :=
    (winds_thunk line guard).behind fun _ => (winds_sectionBody hf hs₀ strays hb).before fun start =>
      .silent (.silent (.pure _) fun _ => rfl) (still_pure _).keeps
  exact first.bind fun next => hr k bs hf hs₀ N next

theorem Section.wound_default (line : Nat) (strays : List Token) {body : List Stmt} {ss : List Section}
    (hb : Stmt.AreWound body) (hr : Section.AreWound ss) : Section.AreWound (.default_ line strays body :: ss) := by
  intro k bs hf hs₀ N table
  have first : Winds k bs N (Stmt.allHazards body) (defaultSection line strays (Stmt.genAll body) table) := by
    have labelled := (winds_sectionBody (N := N) hf hs₀ strays hb).before fun start =>
      .silent (.silent (.pure _) fun _ => rfl) (still_pure { table with default? := table.default?.or (some start) }).keeps
    unfold defaultSection
    cases table.default?.isSome with
    | false => exact labelled
    | true => exact (winds_report line .repeatedDefault).behind fun _ => labelled
  exact first.bind fun next => hr k bs hf hs₀ N next

theorem winds_switchRest {sections : SwitchTable → Gen SwitchTable} (fault : Option Report)
    (h : ∀ table, Winds k bs N hs (sections table)) : Winds k bs N hs (switchRest sections fault) := by
  -- The state behind the sections, and the table that is filled in there.
  let front (s : GenState) := after (put .switch 0 0 (.switch s.program.switches.length)) (after reserveSwitch s)
  let last (s : GenState) := after (reportFault fault) (after (sections {}) (front s))
  let table (s : GenState) := { result (sections {}) (front s) with out := (last s).code.size }
  have unfolded (s : GenState) : after (switchRest sections fault) s =
      after (fillSwitch s.program.switches.length (table s)) (last s) := rfl
  have inner (id : Nat) : Winds k bs N hs (do put .switch 0 0 (.switch id); let _ ← sections {}; reportFault fault) := by
    have switch : Winds k bs N [] (put .switch 0 0 (.switch id)) :=
      .of_places (places_put ..) still_put.keeps (fun _ _ _ _ => Same.outer) fun _ F _ i j h => by
        obtain ⟨hswitch, rfl⟩ := h
        exact ⟨Nat.le_succ i, .jump hswitch rfl⟩
    exact switch.behind fun _ => (h {}).before fun _ => winds_reportFault fault
  refine ⟨fun s => ?_, fun s => (inner s.program.switches.length).keeps (after reserveSwitch s), fun s hshapes tidy he => ?_⟩
  · rw [unfolded]
    exact ((inner s.program.switches.length).builds (after reserveSwitch s)).reserved
  · rw [unfolded] at he ⊢
    have placed := (inner s.program.switches.length).placed (after reserveSwitch s) hshapes
      ⟨tidy.root, tidy.inside, tidy.sole⟩ he
    refine (Placing.reserved (table s) placed).mono (fun _ _ _ _ h => h) ?_
    rintro p F A ⟨-, h⟩ hp
    exact h hp

theorem Stmt.wound_switch (subject : Expr) (strays : List Token) {ss : List Section} (fault : Option Report)
    (h : Section.AreWound ss) : (Stmt.switch subject strays ss fault).IsWound := by
  intro k bs hf hs₀ N
  refine Stmt.winds_of fun s hshapes tidy he => ?_
  rw [Stmt.gen_switch, Gen.switch] at he ⊢
  have hk := hf.lt hs₀
  have first : Winds k ⟨bs.blocks.push switchBlock⟩ bs.blocks.size [] (subject.gen {} none) := winds_expr _ _ subject
  have inner := first.behind fun _ => (winds_reportStrays .switch strays).behind fun _ =>
    winds_switchRest fault fun table => h k _ (hf.push hk rfl) (size_entered ..) _ table
  exact winding_inBlock (fun _ => do
    subject.gen {} none
    reportStrays .switch strays
    switchRest (fun table => Section.genAll ss table) fault) .switch rfl hk inner hshapes tidy he

/-! ### Statements in braces -/

theorem Stmt.wound_block {items : List Stmt} (unclosed : Option Nat) (h : Stmt.AreWound items) :
    (Stmt.block items unclosed).IsWound := by
  intro k bs hf hs₀ N
  refine Stmt.winds_of fun s hshapes tidy he => ?_
  have hk := hf.lt hs₀
  have hsize : s.blocks.blocks.size = bs.blocks.size := BlockStack.size_congr hshapes
  have placed := ((h k ⟨bs.blocks.push bracesBlock⟩ (hf.push hk rfl) (size_entered ..) bs.blocks.size).before fun _ =>
    winds_reportFault (unclosed.map fun line => ⟨line, .unclosedBlock⟩)).placed
      (after (enter [.braces] s.code.size .none none) s) (shapes_entered hshapes rfl) (tidy.entered (by omega) rfl) he
  rw [BlockStack.rescue_push rfl] at placed
  refine (Placing.unbrace (R := fun A B => Outer bs.rescue bs.blocks.size A B 0 0) placed (by omega)
    fun A B outer id hid => outer id (.inr (by omega))).mono (fun _ _ _ _ => Same.outer) ?_
  rintro p F A ⟨C, hagree, hhs⟩ hp
  rw [← hagree _ (by rw [hsize]; exact BlockStack.rescue_lt hs₀)]
  exact hhs hp

/-! ### Protected bodies -/

/-- A protected body lies between the two instructions of its `try`, and what is thrown in it goes to the second one. -/
theorem placing_tryBody (hf : bs.Floor k) (hs₀ : 0 < bs.blocks.size) {body : Stmt} (h : body.IsWound) {s : GenState}
    (hshapes : s.blocks.shapes = bs.shapes) (tidy : Tidy (s.cleared k)) (he : (after (tryBody body.gen) s).errors = s.errors) :
    Placing k Same (fun p F _ i j => p.Catches (after reserveException s) (after (tryBody body.gen) s) → ∃ n,
      F.JumpsAt .loadException (.exception s.program.exceptions.length) i n ∧ Hazard.AllLie p F n body.hazards (i + 1) n ∧
      F.JumpsAt .popException (.exception s.program.exceptions.length) n 0 ∧ j = n + 1) s (after (tryBody body.gen) s) := by
  rw [errors_tryBody] at he
  have hk := hf.lt hs₀
  have hsize : s.blocks.blocks.size = bs.blocks.size := BlockStack.size_congr hshapes
  have shapes : (after (enter [.exception] s.code.size .none none) s).blocks.shapes =
      (BlockStack.mk (bs.blocks.push tryBlock)).shapes := shapes_entered hshapes rfl
  have load := placed_loadException hk s.program.exceptions.length shapes (tidy.entered (by omega) rfl)
  have hroot : 0 < (after (enter [.exception] s.code.size .none none) s).blocks.blocks.size := stack_enter ..
  rw [← hsize] at load
  have guarded := (h k ⟨bs.blocks.push tryBlock⟩ (hf.push hk rfl) (size_entered ..) (bs.blocks.size + 1)).placed _
    ((load.builds.frame.shapes hroot).trans shapes) load.tidy he
  rw [BlockStack.rescue_push_self rfl, ← hsize] at guarded
  have placed : Placing k (fun A B _ _ => Outer s.blocks.blocks.size (s.blocks.blocks.size + 1) A B 0 0) (fun p F A i j =>
      F.JumpsAt .loadException (.exception s.program.exceptions.length) i (A s.blocks.blocks.size (some .loadException)) ∧
        (p.Catches (after reserveException s) (after (tryBody body.gen) s) →
          Hazard.AllLie p F (A s.blocks.blocks.size (some .throw)) body.hazards (i + 1) j))
      (after (enter [.exception] s.code.size .none none) s)
      (after body.gen (after (await s.blocks.blocks.size .loadException (.exception s.program.exceptions.length))
        (after reserveException (after (enter [.exception] s.code.size .none none) s)))) := by
    refine (load.seq guarded hroot).mono ?_ ?_
    · rintro A C i j ⟨_, B, outer, rfl⟩
      exact outer
    · rintro p F A ⟨_, B, rfl, ⟨hload, rfl⟩, hbody⟩
      exact ⟨hload, hbody⟩
  refine (placed.unprotect (by omega) (fun A B outer id hid => outer id (.inr (by omega)))
    s.program.exceptions.length).mono (fun _ _ _ _ h => h) ?_
  rintro p F A ⟨C, n, -, ⟨B, outer, hout⟩, ⟨hload, hbody⟩, hpop, hj⟩ hp
  have target : ∀ op, C s.blocks.blocks.size (some op) = n := fun op => by rw [outer _ (.inl rfl), hout]
  rw [target] at hload hbody
  exact ⟨n, hload, hbody hp, hpop, hj⟩

theorem BlockStack.Floor.rescue (hf : bs.Floor k) (hsize : bs.blocks.size = k + 1) : bs.rescue = k := by
  have low : k ≤ bs.rescue := hf.le_nearest
  have high : bs.rescue < bs.blocks.size := BlockStack.rescue_lt (by omega)
  omega

/-- The hazards of a statement that fills a container lie in it. -/
theorem Block.Opens.unwinds {op : Option Opcode} (h : b.Opens op) {s : GenState} (hb : s.blocks.Innermost k b)
    (hf : s.blocks.Floor k) (hcode : s.code = #[]) {body : Stmt} (hw : body.IsWound) {p : Program}
    (hp : p.Follows s (after body.gen s)) :
    body.Unwinds p (after (put .done 0 0 .none) (after (settle k op) (after body.gen s))).code := by
  have hroot : 0 < s.blocks.blocks.size := by
    rw [hb.size]
    exact Nat.succ_pos k
  have placed := (hw k _ hf hroot 0).placed s rfl (h.tidy hb) hp.errors
  rw [hf.rescue hb.size] at placed
  obtain ⟨A, n, hthrow, hbody, hend⟩ := h.fills hb hf hcode ((Stmt.flows_gen body s).spares hroot) placed
    (fun _ _ _ _ outer => outer k (.inl rfl)) hp.completes
  rw [hthrow] at hbody
  exact ⟨n, hbody hp.catches, hend⟩

/-- The body of a clause has a container of its own. -/
theorem Stmt.IsWound.catchBody {body : Stmt} (hw : body.IsWound) {s : GenState} {p : Program}
    (hp : p.Follows s (after (Gen.catchBody body.gen) s)) : body.Unwinds p (result (Gen.catchBody body.gen) s) := by
  rw [Gen.catchBody, after_owned, after_inContainer, after_bind, after_bind] at hp
  have hb := innermost_enter [.exception, .guarded] 0 .none none s
  have hop : IsBody { tags := [.exception, .guarded], first := 0, owner := .none } none :=
    ⟨rfl, rfl, rfl, .inr ⟨rfl, rfl⟩⟩
  let front := after (enter [.exception, .guarded] 0 .none none) s
  have entered : p.Follows front _ := .within (.enter .refl) (.leave .refl) hp
  exact hop.opens.unwinds (s := after openContainer front) hb (.body rfl rfl) rfl hw
    (.within .refl (.put (.settle .refl)) entered.container)

/-- The entries of clauses list them. -/
theorem CatchClause.listed_genAll (table : Nat) (cs : List CatchClause) (hw : ∀ b ∈ cs.filterMap CatchClause.body?, b.IsWound)
    {s : GenState} (htable : table < s.program.exceptions.length) {p : Program}
    (hp : p.Follows s (after (CatchClause.genAll table cs) s)) :
    Handler.AllListed p (CatchClause.handlers cs) (CatchClause.entriesFrom table cs s) := by
  induction cs generalizing s with
  | nil => trivial
  | cons c cs ih =>
      obtain ⟨htable', rest⟩ := CatchClause.follows_rest c htable hp
      cases c with
      | malformed r =>
          exact ih hw htable' rest
      | clause className binding body =>
          have behind := ih (fun b hb => hw b (List.mem_cons_of_mem _ hb)) htable' rest
          have container := (hw body (List.mem_cons_self ..)).catchBody (CatchClause.follows_catchBody htable hp)
          exact ⟨_, _, rfl, ⟨rfl, rfl, container⟩, behind⟩

theorem Stmt.wound_tryCatch {body : Stmt} {clauses : List CatchClause} (fault : Option Report) (h : body.IsWound)
    (hw : ∀ b ∈ clauses.filterMap CatchClause.body?, b.IsWound) : (Stmt.tryCatch body clauses fault).IsWound := by
  intro k bs hf hs₀ N
  refine Stmt.winds_of fun s hshapes tidy he => ?_
  have hroot : 0 < s.blocks.blocks.size := by simpa using tidy.root
  have kept := keeping.claims_stmt body
  have caught : ∀ b ∈ clauses.filterMap CatchClause.body?, KeepsClauses b.gen := fun b _ => keeping.claims_stmt b
  have entry := exceptions_tryCatch kept caught fault s
  have amends : Amends s.program.exceptions.length (after (tryBody body.gen) s) (after (Stmt.tryCatch body clauses fault).gen s) :=
    amends_tryCatch caught fault s
  have htable : s.program.exceptions.length < (after (tryBody body.gen) s).program.exceptions.length := by
    have reserved := (keeps_tryBody kept s).length_le
    rwa [List.length_append] at reserved
  have reported : Places k bs (reportFault fault) Same _ := places_reportFault fault
  have tables {p : Program} := @Program.Catches.tryCatch p s body clauses fault
  rw [Stmt.gen_tryCatch, Gen.tryCatch, after_bind, after_bind] at he entry amends tables ⊢
  have run := CatchClause.run_genAll s.program.exceptions.length clauses _ htable
  have builds : Builds s (after (tryBody body.gen) s) := (Stmt.flows_gen body _).try_.builds
  have front := ((builds.trans run.builds).errors_split (reported.builds _) he).1
  obtain ⟨first, second⟩ := builds.errors_split run.builds front
  have guarded := placing_tryBody hf hs₀ h hshapes tidy first
  have behind : Placing k Same (fun p _ _ i j => j = i ∧ (p.Catches (after (tryBody body.gen) s) _ →
      Handler.AllListed p (CatchClause.handlers clauses) (CatchClause.entriesFrom s.program.exceptions.length clauses
        (after (tryBody body.gen) s)))) (after (tryBody body.gen) s) _ :=
    .of_spares guarded.tidy (run.spares (by simpa using guarded.tidy.root)) run.builds second fun p _ _ hc _ _ =>
      ⟨congrArg Array.size (CatchClause.code_genAll _ clauses _), fun hp =>
        CatchClause.listed_genAll _ clauses hw htable ⟨second, hc, hp⟩⟩
  refine (reported.behindPlaced (guarded.seq behind hroot) hshapes tidy he).mono ?_ ?_
  · rintro A C i j ⟨_, B, rfl, _, _, rfl, rfl⟩
    exact Same.outer rfl
  · rintro p F A ⟨l, B, ⟨_, _, rfl, rfl⟩, ⟨_, _, rfl, hbody, rfl, hlisted⟩, hl⟩ hp
    obtain ⟨n, hload, hbody, hpop, hj⟩ := hbody (tables hp).1
    have listed := hlisted (tables hp).2
    have hentries := (hp _ (Nat.le_refl _) (Nat.lt_of_lt_of_le htable amends.longer)).trans entry
    refine Hazard.Lies.all ?_
    rw [Hazard.Lies]
    exact ⟨_, n, _, hload, hbody, hpop, hl.trans hj, hentries, listed⟩

/-! ### Whole statements -/

/-- A statement that is generated like an expression. -/
theorem Stmt.wound_valued {s : Stmt} (h : Valued s.gen) (hnone : s.hazards = []) : s.IsWound := by
  intro k bs _ _ N
  rw [hnone]
  exact .valued h (keeping.claims_stmt s)

theorem Stmt.wound_loopJump (jump : LoopJump) (line level : Nat) (unterminated : Bool) :
    (Stmt.loopJump jump line level unterminated).IsWound := by
  intro k bs hf hs₀ N
  refine .of_places (Stmt.placed_loopJump jump line level unterminated k bs hf hs₀) (keeping.claims_stmt _)
    (fun _ _ _ _ => Same.outer) fun p F A i j h => ?_
  obtain ⟨l, -, hjump, rfl⟩ := h
  exact ⟨Nat.le_succ i, .jump hjump rfl⟩

end Constructs

mutual

theorem Stmt.wound : (s : Stmt) → s.IsWound
  | .empty => Stmt.wound_valued (.pure ()) rfl
  | .sequence items => fun k bs hf hs N => Stmt.all_wound items k bs hf hs N
  | .namespace_ line items => fun k bs hf hs N =>
    (winds_still (valued_noteNamespaces line) (still_noteNamespaces line)).behind fun _ => Stmt.all_wound items k bs hf hs N
  | .onLine line body => fun k bs hf hs N => by
    have mark : Winds k bs N [] markBoundary := winds_still valued_markBoundary still_markBoundary
    exact (winds_still (valued_setLine line) (still_setLine line)).behind fun _ => mark.behind fun _ =>
      (Stmt.wound body k bs hf hs N).before fun _ => mark
  | .block items unclosed => Stmt.wound_block unclosed (Stmt.all_wound items)
  | .conditional chain => Stmt.wound_conditional (Chain.wound chain)
  | .switch subject strays sections fault => Stmt.wound_switch subject strays fault (Section.all_wound sections)
  | .switchWithoutBody subject strays r => Stmt.wound_switchWithoutBody subject strays r
  | .whileLoop test strays body => Stmt.wound_whileLoop test strays (Stmt.wound body)
  | .doLoop body test strays => Stmt.wound_doLoop test strays (Stmt.wound body)
  | .doWithoutTest body r => Stmt.wound_doWithoutTest r (Stmt.wound body)
  | .forLoop line init test afterTest body post afterPost =>
    Stmt.wound_forLoop line test afterTest post afterPost (Stmt.wound init) (Stmt.wound body)
  | .foreach line source strays head => Stmt.wound_foreach line source strays (ForeachHead.wound head)
  | .tryCatch body clauses fault => Stmt.wound_tryCatch fault (Stmt.wound body) (CatchClause.all_wound clauses)
  | .throw line value => Stmt.wound_throw line value
  | .loopJump jump line level unterminated => Stmt.wound_loopJump jump line level unterminated
  | .report r =>
    Stmt.wound_valued (valued_report _ _) rfl
  | .raw text =>
    Stmt.wound_valued (valued_raw text) rfl
  | .expression value =>
    Stmt.wound_valued (valued_expression _ (Expr.valued_gen _ _ value)) rfl
  | .return_ value =>
    Stmt.wound_valued (valued_return_ _ (Expr.valued_gen _ _ value)) rfl
  | .exit value =>
    Stmt.wound_valued (valued_exit _ (Expr.valued_gen _ _ value)) rfl
  | .constant name line value =>
    Stmt.wound_valued (valued_constant name line _ (Expr.valued_gen _ _ value)) rfl
  | .declaration type items fault =>
    Stmt.wound_valued ((Declarator.valued_genAll type items).bind fun _ => valued_reportFault fault) rfl
  | .using_ line =>
    Stmt.wound_valued (valued_noteNamespaces line) rfl
  | .function head params fault body =>
    Stmt.wound_valued (valued_function head (Parameter.makes_genAll params) fault (Stmt.flows_gen body)) rfl
  | .class_ head members fault =>
    Stmt.wound_valued (valued_class_ head (Member.addsMembers_genAll members) fault) rfl

theorem Stmt.all_wound : (ss : List Stmt) → Stmt.AreWound ss
  | [] => fun _ _ _ _ _ => winds_still (.pure ()) (still_pure ())
  | s :: ss => fun k bs hf hs N => (Stmt.wound s k bs hf hs N).bind fun _ => Stmt.all_wound ss k bs hf hs N

theorem Chain.wound : (c : Chain) → c.IsWound
  | .branch test strays body rest => Chain.wound_branch test strays (Stmt.wound body) (Chain.wound rest)
  | .otherwise body => fun k _ hf hs => Stmt.wound body k _ (hf.push (hf.lt hs) rfl) (size_entered ..) _
  | .malformed _ => fun _ _ _ _ => winds_report _ _
  | .done => fun _ _ _ _ => winds_still (.pure ()) (still_pure ())

theorem Section.all_wound : (ss : List Section) → Section.AreWound ss
  | [] => Section.wound_nil
  | .case_ line guard strays body :: ss => Section.wound_case line guard strays (Stmt.all_wound body) (Section.all_wound ss)
  | .default_ line strays body :: ss => Section.wound_default line strays (Stmt.all_wound body) (Section.all_wound ss)

theorem ForeachHead.wound : (h : ForeachHead) → h.IsWound
  | .malformed _ => fun _ _ _ _ _ _ => winds_report _ _
  | .unbound bindingLine binding => fun _ _ _ _ _ _ =>
    .valued (valued_unbound bindingLine (Expr.valued_gen _ _ binding)) (keeping.unbound _ (keeping.claims_expr _ _ binding))
  | .key name _ rest => fun k bs hf hs line _ =>
    winds_discarding.behind fun _ => ForeachHead.wound rest k bs hf hs line (some name)
  | .value byRef name _ body => fun _ _ hf hs _ key =>
    winds_discarding.behind fun _ => winds_foreachLoop hf hs ⟨key, name, byRef⟩ (Stmt.wound body)

theorem CatchClause.all_wound : (cs : List CatchClause) → ∀ b ∈ cs.filterMap CatchClause.body?, b.IsWound
  | [] => nofun
  | .malformed _ :: cs => CatchClause.all_wound cs
  | .clause _ _ body :: cs => by
    have first := Stmt.wound body
    have rest := CatchClause.all_wound cs
    intro b hb
    rcases List.mem_cons.mp hb with rfl | hb
    · exact first
    · exact rest b hb

end

end StackScript
