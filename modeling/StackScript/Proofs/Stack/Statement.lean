/-
What statements leave on the stack.

`Carries` is to statements what `Turns` is to expressions: from a poised state with so many values on the
stack, a generator leads to a poised state with so many values.  A whole statement carries nothing to nothing,
and so do the parts of a construct, except between a value and the instruction that takes it.
-/
import StackScript.Proofs.Stack.Leaf
import StackScript.Proofs.Stack.Poise

namespace StackScript

namespace Gen

variable {F : List SwitchTable} {α β : Type} {n a b c k : Nat}

/-! ### What every statement does -/

theorem goes_await (id : Nat) (op : Opcode) (p3 : Operand) : Goes (await id op p3) :=
  fun _ => ⟨Frame.await id op p3, .same rfl rfl rfl⟩

theorem goes_settle (id : Nat) (op : Option Opcode) : Goes (settle id op) :=
  fun _ => ⟨Frame.settle id op, .same rfl rfl rfl⟩

theorem goes_settleContinue (id : Nat) : Goes (settleContinue id) :=
  fun _ => ⟨Frame.settleContinue id, .same rfl rfl rfl⟩

theorem goes_restartHere (id : Nat) : Goes (restartHere id) := fun _ => ⟨Frame.restartHere id, .same rfl rfl rfl⟩

theorem goes_here : Goes here := (Turns.get.bind fun _ => Turns.pure (F := []) (n := 0) _).goes

theorem goes_inBlock {tags : List BlockTag} {deferred : Option (List Nat)} {body : Nat → Gen Unit}
    (h : ∀ id, Goes (body id)) : Goes (inBlock tags deferred body) := by
  intro s
  have inner := h s.blocks.blocks.size (after (enter tags s.code.size .none deferred) s)
  exact ⟨Frame.exitBlock inner.1, inner.2.congr rfl rfl rfl rfl rfl List.prefix_rfl⟩

theorem goes_owned {tags : List BlockTag} {first : Nat} {owner : BlockOwner} {body : Nat → Gen α}
    (h : ∀ id, Goes (body id)) : Goes (owned tags first owner body) := by
  intro s
  have inner := h s.blocks.blocks.size (after (enter tags first owner none) s)
  exact ⟨Frame.inside inner.1, inner.2.congr rfl rfl rfl rfl rfl List.prefix_rfl⟩

/-! ### Statements in general -/

/-- The depths of a state go on to those of a poised one. -/
def Led (F : List SwitchTable) (pending : List Nat) (depth : Nat → Nat) (height : Nat) (s t : GenState) : Prop :=
  ∃ depth', (∀ i ≤ s.code.size, depth' i = depth i) ∧ Poised F pending depth' height t

variable (F) in
/-- With `a` values on the stack in front of it, and `n` blocks around it, a generator leaves `b`. -/
structure Carries (n a b : Nat) (m : Gen α) : Prop where
  goes : Goes m
  carried : ∀ {s : GenState} {pending : List Nat} {depth : Nat → Nat}, 0 < s.blocks.blocks.size →
    s.blocks.blocks.size = n → Poised F pending depth a s → (after m s).errors = 0 → Agrees F s (after m s) →
    Led F pending depth b s (after m s)

theorem Led.of {pending : List Nat} {depth : Nat → Nat} {height : Nat} {s t : GenState}
    (h : Poised F pending depth height t) : Led F pending depth height s t := ⟨depth, fun _ _ => rfl, h⟩

/-- Only the next instruction has a new depth. -/
theorem Led.next {pending : List Nat} {depth rest : Nat → Nat} {height : Nat} {s t : GenState}
    (h : Poised F pending (beyond depth s.code.size rest) height t) : Led F pending depth height s t :=
  ⟨_, fun _ hi => beyond_of_le hi _ _, h⟩

namespace Carries

theorem bind {m : Gen α} {f : α → Gen β} (hm : Carries F n a b m) (hf : ∀ x, Carries F n b c (f x)) :
    Carries F n a c (m >>= f) where
  goes := hm.goes.bind fun x => (hf x).goes
  carried := by
    intro s pending depth hs hn hp he ha
    rw [after_bind] at he ha ⊢
    have front := hm.goes s
    have rest := (hf (result m s)).goes (after m s)
    obtain ⟨depth', hd, hp'⟩ := hm.carried hs hn hp (GenState.errors_mono rest.1 he) (ha.front rest.2)
    have hsize := front.1.size hs
    obtain ⟨depth'', hd', hp''⟩ := (hf _).carried (by omega) (by omega) hp' he (ha.back front.2)
    refine ⟨depth'', fun i hi => ?_, hp''⟩
    rw [hd' i (Nat.le_trans hi front.1.grows), hd i hi]

theorem pure (x : α) : Carries F n a a (pure x : Gen α) :=
  ⟨(Valued.pure x).goes, fun _ _ hp _ _ => .of hp⟩

/-- A step of any kind that leads from a poised state to one. -/
theorem step {m : Gen α} (hg : Goes m) (h : ∀ {s : GenState} {pending : List Nat} {depth : Nat → Nat},
    s.blocks.blocks.size = n → Poised F pending depth a s → Led F pending depth b s (after m s)) :
    Carries F n a b m := ⟨hg, fun _ hn hp _ _ => h hn hp⟩

end Carries

/-- Code that computes values may stand anywhere. -/
theorem Turns.carries {m : Gen α} (h : Turns F 0 k m) : Carries F n a (a + k) m where
  goes := h.goes
  carried := fun hs _ hp he ha => hp.raise (h.raised hs he ha)

/-- So may code that leaves nothing. -/
theorem Turns.statement {m : Gen α} (h : Turns F 0 0 m) : Carries F n a a m := h.carries

theorem Turns.value {m : Gen α} (h : Turns F 0 k m) : Carries F n 0 k m := by
  have carries := h.carries (n := n) (a := 0)
  rwa [Nat.zero_add] at carries

theorem Fails.carries {m : Gen α} (h : Fails m) : Carries F n a b m :=
  ⟨h.goes, fun _ _ _ he _ => absurd he (h.fails _)⟩

/-- A jump that waits, and takes what is on the stack. -/
theorem carries_await (id : Nat) (op : Opcode) (p3 : Operand) (hj : op.isJump = true)
    (henough : (Instruction.mk op 0 0 p3 0).takes ≤ a)
    (hpass : (Instruction.mk op 0 0 p3 0).pass a = 0) : Carries F n a 0 (await id op p3) :=
  .step (goes_await id op p3) fun _ hp => .next (hp.await id p3 hj henough hpass)

theorem carries_settle {id : Nat} (op : Option Opcode) : Carries F (id + 1) 0 0 (settle id op) :=
  .step (goes_settle id op) fun hn hp => .of (hp.settle hn op)

theorem carries_settleContinue {id : Nat} : Carries F (id + 1) 0 0 (settleContinue id) :=
  .step (goes_settleContinue id) fun hn hp => .of (hp.settleContinue hn)

theorem carries_markBoundary : Carries F n 0 0 markBoundary :=
  .step valued_markBoundary.goes fun _ hp => .of hp.markBoundary

/-! ### Constructs on a block of their own -/

section Block

variable {pending : List Nat} {depth : Nat → Nat} {s t : GenState} {tags : List BlockTag}
  {deferred : Option (List Nat)} {body items test value subject source init post binding : Gen Unit}

/-- Blocks that keep no jump inside. -/
def Yields (tags : List BlockTag) : Prop := tags.contains .guarded = false ∧ tags.contains .function = false

/-- A block that keeps no jump inside is left. -/
theorem poised_leave {first : Nat} {owner : BlockOwner} (ht : Yields tags) (hs : 0 < s.blocks.blocks.size)
    (hf : Frame (after (enter tags first owner deferred) s) t) (hp : Poised F pending depth a t) :
    Poised F pending depth a (after leave t) := by
  obtain ⟨b, hb, hshape⟩ := hf.innermost (innermost_enter tags first owner deferred s)
  refine hp.leave hb hs ?_
  rw [Block.isBoundary, Block.hasAny_congr hshape]
  show (tags.contains .guarded || (tags.contains .function || false)) = false
  rw [ht.1, ht.2]
  rfl

theorem size_enter (tags : List BlockTag) (first : Nat) (owner : BlockOwner) (deferred : Option (List Nat))
    (s : GenState) : (after (enter tags first owner deferred) s).blocks.blocks.size = s.blocks.blocks.size + 1 :=
  Array.size_push _

/-- A construct on a block of its own is over. -/
theorem poised_exitBlock (ht : IsConstruct tags deferred) (hs : 0 < s.blocks.blocks.size)
    (hf : Frame (after (enter tags s.code.size .none deferred) s) t) (hp : Poised F pending depth 0 t) :
    Poised F pending depth 0 (t.exitBlock s.blocks.blocks.size) := by
  have hsize : t.blocks.blocks.size = s.blocks.blocks.size + 1 := by
    have entered := size_enter tags s.code.size .none deferred s
    rw [hf.size (by omega), entered]
  have settled := hp.settle hsize none
  have hf' := hf.trans (Frame.settle s.blocks.blocks.size none)
  have continued := settled.settleContinue ((Frame.settle _ none).size (by omega) |>.trans hsize)
  exact poised_leave ht.hides hs (hf'.trans (Frame.settleContinue s.blocks.blocks.size)) continued

/-- The state inside a construct that has just been entered. -/
theorem poised_enter (ht : IsConstruct tags deferred) (hp : Poised F pending depth 0 s) :
    Poised F pending depth 0 (after (enter tags s.code.size .none deferred) s) :=
  hp.enter tags .none ht.undeferred hp.clear

/-- Something inside a block on which nothing waits. -/
theorem carries_owned (ht : Yields tags) {body : Nat → Gen α} (h : ∀ id, Carries F (id + 1) 0 0 (body id)) :
    Carries F n 0 0 (do owned tags (← here) .none body) where
  goes := goes_here.bind fun _ => goes_owned fun id => (h id).goes
  carried := by
    intro s pending depth hs _ hp he ha
    have hsize := size_enter tags s.code.size .none none s
    have inner := (h s.blocks.blocks.size).goes (after (enter tags s.code.size .none none) s)
    obtain ⟨depth', hd, hp'⟩ := (h s.blocks.blocks.size).carried (by omega) hsize
      (hp.enter tags .none rfl hp.clear) he ha
    exact ⟨depth', hd, poised_leave ht hs inner.1 hp'⟩

theorem carries_inBlock (ht : IsConstruct tags deferred) {body : Nat → Gen Unit}
    (h : ∀ id, Carries F (id + 1) 0 0 (body id)) : Carries F n 0 0 (inBlock tags deferred body) where
  goes := goes_inBlock fun id => (h id).goes
  carried := by
    intro s pending depth hs _ hp he ha
    have hsize := size_enter tags s.code.size .none deferred s
    have inner := (h s.blocks.blocks.size).goes (after (enter tags s.code.size .none deferred) s)
    obtain ⟨depth', hd, hp'⟩ := (h s.blocks.blocks.size).carried (by omega) hsize (poised_enter ht hp) he ha
    exact ⟨depth', hd, poised_exitBlock ht hs inner.1 hp'⟩

/-- A jump back to where the stack was empty. -/
theorem led_back {back : Opcode} (hj : back.isJump = true) (hp : Poised F pending depth 0 s) (hgrows : s.code.size ≤ t.code.size)
    (h : Led F pending depth k s t) (henough : ∀ target, (Instruction.mk back 0 target .none 0).takes ≤ k)
    (hpass : ∀ target, (Instruction.mk back 0 target .none 0).pass k = 0) :
    Led F pending depth 0 s (after (jumpTo back s.code.size) t) := by
  obtain ⟨depth', hd, hp'⟩ := h
  refine ⟨_, fun i hi => ?_, hp'.jump 0 .none hj (henough _) (hpass _) (hp.clear.mono hd hgrows)⟩
  rw [beyond_of_le (Nat.le_trans hi hgrows), hd i hi]

/-- Code and the jump back to its start. -/
theorem carries_back {back : Opcode} (hj : back.isJump = true) {m : Gen Unit} (h : Carries F n 0 k m)
    (henough : ∀ target, (Instruction.mk back 0 target .none 0).takes ≤ k)
    (hpass : ∀ target, (Instruction.mk back 0 target .none 0).pass k = 0) :
    Carries F n 0 0 (do
      let first ← here
      m
      jumpTo back first) where
  goes := goes_here.bind fun first => h.goes.bind fun _ => goes_put _ _ _ _
  carried := by
    intro s pending depth hs hn hp he ha
    exact led_back hj hp (h.goes s).1.grows (h.carried hs hn hp he ha) henough hpass

/-- A loop on a block of its own. -/
theorem carries_loop {back : Opcode} (hj : back.isJump = true) (ht : IsConstruct [.loop] deferred)
    {b : Nat → Gen Unit} (h : ∀ id, Carries F (id + 1) 0 k (b id))
    (henough : ∀ target, (Instruction.mk back 0 target .none 0).takes ≤ k)
    (hpass : ∀ target, (Instruction.mk back 0 target .none 0).pass k = 0) :
    Carries F n 0 0 (do
      let first ← here
      inBlock [.loop] deferred fun id => do
        b id
        jumpTo back first) where
  goes := goes_here.bind fun first => goes_inBlock fun id => (h id).goes.bind fun _ => goes_put _ _ _ _
  carried := by
    intro s pending depth hs _ hp he ha
    have hsize := size_enter [.loop] s.code.size .none deferred s
    have inner := (h s.blocks.blocks.size).goes (after (enter [.loop] s.code.size .none deferred) s)
    have led := (h s.blocks.blocks.size).carried (by omega) hsize (poised_enter ht hp) he ha
    obtain ⟨depth', hd, hp'⟩ := led_back hj (poised_enter ht hp) inner.1.grows led henough hpass
    exact ⟨depth', hd, poised_exitBlock ht hs (inner.1.trans (Frame.put _ _ _ _)) hp'⟩

/-! ### Conditions -/

theorem turns_reportStrays (header : Header) (strays : List Token) : Turns F k k (reportStrays header strays) :=
  turns_reportAll _

/-- Tokens that are left over are errors. -/
theorem fails_reportStrays (header : Header) {strays : List Token} (h : strays.isEmpty = false) :
    Fails (reportStrays header strays) where
  goes := (valued_reportStrays header strays).goes
  fails := by
    intro s he
    cases strays with
    | nil => cases h
    | cons t ts =>
        have : s.errors + (((t :: ts).map fun t => (⟨t.line, .strayToken header t.text⟩ : Report)).countP
            Report.isError) = 0 := by
          rw [← he]
          exact (List.countP_append ..).symm
        rw [List.map_cons, List.countP_cons_of_pos (by cases header <;> rfl)] at this
        omega

/-- A value in parentheses: it is there, or something else is. -/
theorem turns_header (header : Header) {strays : List Token}
    (h : Turns F 0 1 value ∨ Goes value ∧ strays.isEmpty = false) :
    Turns F 0 1 (do value; reportStrays header strays) := by
  rcases h with h | ⟨h, hstrays⟩
  · exact h.bind fun _ => turns_reportStrays header strays
  · exact (Fails.behind h fun _ => fails_reportStrays header hstrays).turns

/-! ### Conditionals -/

theorem carries_branch {id : Nat} (ht : Turns F 0 1 test) (strays : List Token)
    (hb : ∀ n, Carries F n 0 0 body) (isLast : Bool) {rest : Gen Unit} (hr : Carries F (id + 1) 0 0 rest) :
    Carries F (id + 1) 0 0 (branch id test strays body isLast rest) := by
  have settled : Carries F (id + 1) 0 0 (do
      settle id (some .jmpz)
      rest) := (carries_settle (some .jmpz)).bind fun _ => hr
  refine ht.value.bind fun _ => (turns_reportStrays _ strays).carries.bind fun _ =>
    (carries_await id .jmpz .none rfl (Nat.le_refl _) rfl).bind fun _ => (hb _).bind fun _ => ?_
  cases isLast with
  | true => exact settled
  | false => exact (carries_await id .jmp .none rfl (Nat.le_refl _) rfl).bind fun _ => settled

theorem carries_conditional {chain : Nat → Gen Unit} (h : ∀ id, Carries F (id + 1) 0 0 (chain id)) :
    Carries F n 0 0 (conditional chain) := carries_inBlock .conditional h

/-! ### Loops -/

theorem carries_whileLoop {strays : List Token} (ht : Turns F 0 1 (do test; reportStrays .plain strays))
    (hb : ∀ n, Carries F n 0 0 body) : Carries F n 0 0 (whileLoop test strays body) :=
  carries_loop (b := fun id => do
      (do test; reportStrays .plain strays)
      await id .jmpz .none
      body) rfl .loop
    (fun id => ht.value.bind fun _ => (carries_await id .jmpz .none rfl (Nat.le_refl _) rfl).bind fun _ => hb _)
    (fun _ => Nat.le_refl 0) fun _ => rfl

theorem carries_doLoop (hb : ∀ n, Carries F n 0 0 body) {strays : List Token}
    (ht : Turns F 0 1 (do test; reportStrays .plain strays)) : Carries F n 0 0 (doLoop body test strays) :=
  carries_loop (b := fun id => do
      body
      settleContinue id
      (do test; reportStrays .plain strays)) rfl .deferring
    (fun _ => (hb _).bind fun _ => carries_settleContinue.bind fun _ => ht.value)
    (fun _ => Nat.le_refl 1) fun _ => rfl

theorem turns_reportIf (isWrong : Bool) (line : Nat) (problem : Problem) :
    Turns F k k (reportIf isWrong line problem) := by
  unfold reportIf
  split
  · exact turns_report _ _
  · exact .pure ()

theorem turns_dropIf (isPresent : Bool) : Turns F (flag isPresent) 0 (dropIf isPresent) := by
  cases isPresent with
  | true => exact turns_drop
  | false => exact .pure ()

/-- A test, where there is one, takes its value. -/
theorem carries_exitIf (hasTest : Bool) (id : Nat) : Carries F n (flag hasTest) 0 (exitIf hasTest id) := by
  cases hasTest with
  | true => exact carries_await id .jmpz .none rfl (Nat.le_refl _) rfl
  | false => exact .pure ()

theorem carries_forLoop (line : Nat) (hi : ∀ n, Carries F n 0 0 init) (hasTest : Bool)
    (ht : Turns F 0 (flag hasTest) test) (afterTest : Bool) (hb : ∀ n, Carries F n 0 0 body) (hasPost : Bool)
    (hp : Turns F 0 (flag hasPost) post) (afterPost : Bool) :
    Carries F n 0 0 (forLoop line init hasTest test afterTest body hasPost post afterPost) := by
  have last : Turns F 0 0 (do post; dropIf hasPost) := hp.bind fun _ => turns_dropIf hasPost
  refine (hi n).bind fun _ => carries_loop (b := fun id => do
      test
      exitIf hasTest id
      reportIf afterTest line .forAfterTest
      body
      settleContinue id
      (do post; dropIf hasPost)
      reportIf afterPost line .forAfterPost) rfl .deferring (fun id => ?_) (fun _ => Nat.le_refl 0) fun _ => rfl
  refine ht.value.bind fun _ => (carries_exitIf hasTest id).bind fun _ =>
    (turns_reportIf afterTest line _).carries.bind fun _ => (hb _).bind fun _ =>
    carries_settleContinue.bind fun _ => last.statement.bind fun _ => (turns_reportIf afterPost line _).carries

/-- What is generated only for its reports leaves nothing. -/
theorem turns_discarding (h : Turns F 0 k binding) : Turns F 0 0 (discarding binding) := by
  have goes : Goes (discarding binding) := by
    intro s
    obtain ⟨frame, keeps⟩ := h.goes s
    refine ⟨⟨frame.reports, ?_, frame.shapes, frame.exceptions⟩, keeps.congr rfl rfl rfl rfl rfl List.prefix_rfl⟩
    show s.code.size ≤ ((after binding s).code.take s.code.size).size
    have := frame.grows
    rw [Array.take_eq_extract, Array.size_extract]
    omega
  refine .of goes fun s hs he ha => ?_
  have made := h.raised hs he ha
  refine ⟨hs, ?_, made.blocks, made.boundaries, made.orderly⟩
  show Lifts s.code ((after binding s).code.take s.code.size) 0
  rw [made.lifts.longer.take]
  exact .refl _

/-- What does not name a variable to bind is an error. -/
theorem fails_unbound (line : Nat) (h : Turns F 0 k binding) : Fails (unbound line binding) where
  goes := by
    have count : Goes errorCount := Valued.goes (Valued.get.bind fun _ => Valued.pure _)
    refine count.bind fun _ => (turns_discarding h).goes.bind fun _ => count.bind fun _ => ?_
    split
    · exact (valued_report _ _).goes
    · exact (Valued.pure ()).goes
  fails := by
    intro s he
    have grown := Grown.errors_le ((turns_discarding h).goes s).1
    unfold unbound at he
    rw [after_bind, after_bind, after_bind] at he
    split at he
    · exact (Fails.report line rfl).fails _ he
    · rename_i hne
      have he' : (after (discarding binding) s).errors = 0 := he
      exact hne (show (after (discarding binding) s).errors = s.errors by omega)

theorem turns_addForeach (table : ForeachTable) : Turns F k k (addForeach table) :=
  turns_still (valued_of_quiet fun _ =>
    ⟨rfl, rfl, rfl, rfl, rfl, rfl, List.prefix_rfl, .refl, rfl, List.prefix_append _ _, List.prefix_rfl,
     List.prefix_rfl⟩) (fun _ => rfl) (fun _ => rfl) (fun _ => rfl) fun _ => rfl

/-- The loop over a source that is on the stack. -/
theorem carries_foreachLoop {id : Nat} (table : ForeachTable) (hb : ∀ n, Carries F n 0 0 body) :
    Carries F (id + 1) 1 0 (foreachLoop id table body) := by
  refine (turns_addForeach table).carries.bind fun p => (carries_await id .foreachInit (.foreach p) rfl (Nat.le_refl _) rfl).bind fun _ =>
    Carries.bind (.step (goes_restartHere id) fun _ hp => .of (hp.restartHere id)) fun _ => ?_
  exact carries_back (m := do
      await id .foreachStep (.foreach p)
      body) rfl ((carries_await id .foreachStep (.foreach p) rfl (Nat.le_refl _) rfl).bind fun _ => hb _) (fun _ => Nat.le_refl 0) fun _ => rfl

theorem carries_foreach {strays : List Token} (hs : Turns F 0 1 (do source; reportStrays .foreach strays))
    {head : Nat → Gen Unit} (h : ∀ id, Carries F (id + 1) 1 0 (head id)) :
    Carries F n 0 0 (foreach source strays head) := by
  refine carries_inBlock .loop fun id => ?_
  have all : Carries F (id + 1) 0 0 (do
      (do source; reportStrays .foreach strays)
      head id) := hs.value.bind fun _ => h id
  rwa [bind_assoc] at all

/-! ### Jumps and exceptions -/

theorem Led.congr {u : GenState} (h : Led F pending depth a s t) (hc : u.code = t.code) (hblocks : u.blocks = t.blocks)
    (hbound : u.boundaries = t.boundaries) (hfilled : u.filled = t.filled) : Led F pending depth a s u := by
  obtain ⟨depth', hd, hp⟩ := h
  exact ⟨depth', hd, hp.congr hc hblocks hbound hfilled⟩

/-- A `break` waits, and so does a `continue` where it cannot go back to a start that is known. -/
theorem led_jumpOn {id : Nat} {target : Block} (hp : Poised F pending depth 0 s) (jump : LoopJump)
    (htarget : s.blocks.get? id = some target) (hr : s.blocks.Reaches id) :
    Led F pending depth 0 s (after (jumpOn jump id target) s) := by
  unfold jumpOn
  split
  · exact .next (hp.await id .none rfl (Nat.le_refl 0) rfl)
  · split
    · exact .next (hp.awaitContinue id)
    · exact .next (hp.jump 0 .none rfl (Nat.le_refl 0) rfl (hp.blocks id target htarget hr).first)

theorem carries_loopJump (jump : LoopJump) (line level : Nat) (unterminated : Bool) :
    Carries F n 0 0 (loopJump jump line level unterminated) := by
  refine .step (flows_loopJump jump line level unterminated).goes fun {s pending depth} _ hp => ?_
  unfold loopJump
  rw [after_bind, result_get, after_get]
  dsimp only
  split
  · exact (Led.of hp).congr rfl rfl rfl rfl
  · split
    · exact .of hp
    · rename_i id hid _ target htarget
      rw [after_bind, after_bind]
      have recorded : Poised F pending depth 0 (after (recordJump id) s) := hp.congr rfl rfl rfl rfl
      have jumped := led_jumpOn recorded jump htarget (BlockStack.enclosing?_reaches hid).1
      split
      · exact jumped.congr rfl rfl rfl rfl
      · exact jumped

theorem carries_throw (line : Nat) (isPresent : Bool) (h : Turns F 0 (flag isPresent) value) :
    Carries F n 0 0 (throw line isPresent value) := by
  refine h.value.bind fun _ => ?_
  cases isPresent with
  | true =>
      rw [if_pos rfl]
      refine .step (fun s => ?_) fun _ hp => ?_ <;> rw [after_bind, result_get, after_get]
      · exact ⟨Frame.await (s.blocks.nearest [.exception, .function]) .throw .none, .same rfl rfl rfl⟩
      · exact .next (hp.await _ .none rfl (Nat.le_refl 1) rfl)
  | false => exact (Fails.report line rfl).carries

theorem turns_reserveException : Turns F k k reserveException where
  goes := fun s => ⟨⟨List.prefix_rfl, Nat.le_refl _, fun _ => rfl, by
    rw [after_reserveException, List.length_append]
    exact Nat.le_add_right _ _⟩, .same rfl rfl rfl⟩
  turned := fun h _ _ => h.congr rfl rfl rfl rfl

theorem carries_tryCatch (hb : ∀ n, Carries F n 0 0 body) {clauses : Nat → Gen Unit}
    (hc : ∀ table, Turns F 0 0 (clauses table)) (fault : Option Report) :
    Carries F n 0 0 (tryCatch body clauses fault) := by
  have protect : Carries F n 0 0 (tryBody body) := by
    refine carries_owned ⟨rfl, rfl⟩ fun id => turns_reserveException.carries.bind fun table =>
      (carries_await id .loadException (.exception table) rfl (Nat.le_refl _) rfl).bind fun _ => (hb _).bind fun _ => (carries_settle none).bind fun _ => ?_
    have remove : Carries F (id + 1) 0 0 (put .popException 0 0 (.exception table)) :=
      .step (goes_put _ _ _ _) fun _ hp =>
        .next (hp.put .popException 0 0 (.exception table) rfl (by decide) (Nat.le_refl 0) rfl)
    exact remove.bind fun _ => .pure table
  exact protect.bind fun table => (hc table).statement.bind fun _ => (turns_reportFault fault).carries

theorem carries_braces (h : ∀ n, Carries F n 0 0 items) (unclosed : Option Nat) :
    Carries F n 0 0 (braces items unclosed) :=
  carries_owned ⟨rfl, rfl⟩ fun _ => (h _).bind fun _ => (turns_reportFault _).carries

/-! ### Switches -/

variable (F) in
/-- A generator that adds sections to the table of a switch.  The stack is empty where they start. -/
structure Adds (n : Nat) (m : SwitchTable → Gen SwitchTable) : Prop where
  goes : ∀ table, Goes (m table)
  added : ∀ {s : GenState} {pending : List Nat} {depth : Nat → Nat} (table : SwitchTable), 0 < s.blocks.blocks.size →
    s.blocks.blocks.size = n → Poised F pending depth 0 s → (∀ j ∈ table.starts, Clear depth s.code.size j) →
    (after (m table) s).errors = 0 → Agrees F s (after (m table) s) →
    ∃ depth', (∀ i ≤ s.code.size, depth' i = depth i) ∧ Poised F pending depth' 0 (after (m table) s) ∧
      ∀ j ∈ (result (m table) s).starts, Clear depth' (after (m table) s).code.size j

/-- A section starts where the stack is empty. -/
theorem adds_section {m : SwitchTable → Gen SwitchTable} {l : SwitchTable → Gen Unit}
    (hl : ∀ table, Turns F 0 0 (l table)) (hb : ∀ n, Carries F n 0 0 body)
    (hafter : ∀ table s, after (m table) s = after body (after (l table) s))
    (hstarts : ∀ table s, ∀ j ∈ (result (m table) s).starts,
      j ∈ table.starts ∨ j = (after (l table) s).code.size) : Adds F n m where
  goes := by
    intro table s
    rw [hafter]
    have front := (hl table).goes s
    have rest := (hb 0).goes (after (l table) s)
    exact ⟨front.1.trans rest.1, front.2.trans rest.2⟩
  added := by
    intro s pending depth table hs hn hp htable he ha
    rw [hafter] at he ha ⊢
    have front := (hl table).goes s
    have rest := (hb 0).goes (after (l table) s)
    obtain ⟨d, hd, hp'⟩ := (hl table).statement.carried hs hn hp (GenState.errors_mono rest.1 he) (ha.front rest.2)
    have hsize := front.1.size hs
    obtain ⟨d', hd', hp''⟩ := (hb _).carried (by omega) hsize hp' he (ha.back front.2)
    have agree : ∀ i ≤ s.code.size, d' i = depth i := by
      intro i hi
      rw [hd' i (Nat.le_trans hi front.1.grows), hd i hi]
    refine ⟨d', agree, hp'', fun j hj => ?_⟩
    rcases hstarts table s j hj with hj | rfl
    · exact (htable j hj).mono agree (Nat.le_trans front.1.grows rest.1.grows)
    · exact hp'.clear.mono hd' rest.1.grows

theorem adds_case (line : Nat) (isPresent : Bool) {guard : Gen Unit} (hg : Turns F 0 (flag isPresent) guard)
    (strays : List Token) (hb : ∀ n, Carries F n 0 0 body) :
    Adds F n (caseSection line isPresent guard strays body) := by
  exact adds_section (l := fun _ => do
      let _ ← thunk line isPresent guard
      reportAll (strays.map fun t => ⟨t.line, .unexpectedToken t.text⟩))
    (fun _ => (turns_thunk line isPresent hg).bind fun _ => turns_reportAll _) hb (fun _ _ => rfl)
    fun table s j hj => table.mem_starts_case hj

theorem adds_default (line : Nat) (strays : List Token) (hb : ∀ n, Carries F n 0 0 body) :
    Adds F n (defaultSection line strays body) := by
  refine adds_section (l := fun table => do
      if table.default?.isSome then report line .repeatedDefault
      reportAll (strays.map fun t => ⟨t.line, .unexpectedToken t.text⟩))
    (fun table => ?_) hb (fun table s => ?_) fun table s j hj => ?_
  · split
    · exact (turns_report _ _).bind fun _ => turns_reportAll _
    · exact turns_reportAll _
  · unfold defaultSection
    split <;> rfl
  · unfold defaultSection at hj
    split at hj <;> rename_i hd
    · rw [if_pos hd]
      exact table.mem_starts_default hj
    · rw [if_neg hd]
      exact table.mem_starts_default hj

/-- A switch whose table is pending may get it, and one that has its table may be taken for pending. -/
theorem poised_pending {pending' : List Nat} (hp : Poised F pending depth a s)
    (h : ∀ id ∈ pending, id ∈ pending' ∨
      ∀ table, F[id]? = some table → ∀ j ∈ table.targets, Clear depth s.code.size j) :
    Poised F pending' depth a s where
  start := hp.start
  code := by
    intro i x hx
    have rests := hp.code i x hx
    refine ⟨rests.enough, rests.next, rests.jump, fun id hop hp3 => ?_⟩
    obtain ⟨hpass, htable⟩ := rests.table id hop hp3
    exact ⟨hpass, htable.elim (h id) .inr⟩
  blocks := hp.blocks
  boundaries := hp.boundaries
  height := hp.height
  orderly := hp.orderly

/-- The state behind the instruction of a switch, whose table is reserved. -/
def dispatched (s : GenState) : GenState :=
  after (put .switch 0 0 (.switch s.program.switches.length)) (after reserveSwitch s)

theorem Frame.dispatched (s : GenState) : Frame s (dispatched s) :=
  Frame.reserveSwitch.trans (.put _ _ _ _)

/-- The instruction changes no table. -/
theorem keeps_dispatched {u : GenState} (h : Keeps (dispatched s) u) : Keeps (after reserveSwitch s) u :=
  runLaw_keeps.between (.put .refl) h .refl

/-- Behind its instruction a switch is pending. -/
theorem led_dispatched (hp : Poised F pending depth 1 s) :
    Led F (s.program.switches.length :: pending) depth 0 s (dispatched s) := by
  have reserved : Poised F (s.program.switches.length :: pending) depth 1 (after reserveSwitch s) :=
    poised_pending (hp.congr rfl rfl rfl rfl) fun id hid => .inl (List.mem_cons_of_mem _ hid)
  have here : beyond depth s.code.size (fun _ => 0) s.code.size = 1 := by
    rw [beyond_of_le (Nat.le_refl _), hp.height]
  have empty : ∀ line, (Instruction.mk .switch 0 0 (.switch s.program.switches.length) line).pass
      (beyond depth s.code.size (fun _ => 0) s.code.size) = 0 := by
    intro line
    rw [here]
    rfl
  refine .next (reserved.push .switch 0 0 (.switch s.program.switches.length) fun line => ?_)
  refine ⟨Nat.le_of_eq here.symm, fun _ => ?_, fun hj => (by cases hj), fun id _ hid => ⟨empty line, .inl ?_⟩⟩
  · exact (beyond_of_lt (Nat.lt_succ_self _) _ _).trans (empty line).symm
  · cases hid
    exact List.mem_cons_self

/-- A switch on the value on the stack. -/
theorem carries_sections {sections : SwitchTable → Gen SwitchTable} (h : Adds F n sections) (fault : Option Report) :
    Carries F n 1 0 (do
      let id ← reserveSwitch
      put .switch 0 0 (.switch id)
      let table ← sections {}
      reportFault fault
      fillSwitch id { table with out := ← here }) where
  goes := by
    intro s
    have inner := h.goes {} (dispatched s)
    have report := (turns_reportFault (F := F) (n := 0) fault).goes (after (sections {}) (dispatched s))
    exact ⟨(((Frame.dispatched s).trans inner.1).trans report.1).trans (.fillSwitch _ _),
      (keeps_dispatched (inner.2.trans report.2)).reserved⟩
  carried := by
    intro s pending depth hs hn hp he ha
    have inner := h.goes {} (dispatched s)
    have report := (turns_reportFault (F := F) (n := 0) fault).goes (after (sections {}) (dispatched s))
    obtain ⟨hF, hagrees⟩ := ha.reserved (keeps_dispatched (inner.2.trans report.2))
    obtain ⟨d, hd, hp₁⟩ := led_dispatched hp
    obtain ⟨d', hd', hp₂, hstarts⟩ := h.added (s := dispatched s) {} hs hn hp₁ (fun j hj => absurd hj List.not_mem_nil)
      (GenState.errors_mono report.1 he) (.front (.within (.put .refl) .refl hagrees) report.2)
    have hcode : (after (reportFault fault) (after (sections {}) (dispatched s))).code =
        (after (sections {}) (dispatched s)).code := by
      cases fault <;> rfl
    -- The table is complete now, and wherever it goes the stack is empty.
    have known : Poised F pending d' 0 (after (sections {}) (dispatched s)) := by
      refine poised_pending hp₂ fun id hid => ?_
      rcases List.mem_cons.mp hid with rfl | hid
      · refine .inr fun table htable j hj => ?_
        obtain rfl := Option.some.inj (hF.symm.trans htable)
        rcases List.mem_append.mp hj with hj | hj
        · exact hstarts j hj
        · rw [List.mem_singleton.mp hj]
          show Clear d' _ (after (reportFault fault) (after (sections {}) (dispatched s))).code.size
          rw [hcode]
          exact hp₂.clear
      · exact .inl hid
    refine ⟨d', fun i hi => ?_, known.congr hcode ?_ ?_ ?_⟩
    · rw [hd' i (Nat.le_trans hi (Frame.dispatched s).grows), hd i hi]
    all_goals cases fault <;> rfl

theorem carries_switch {strays : List Token} (hs : Turns F 0 1 (do subject; reportStrays .switch strays))
    {sections : SwitchTable → Gen SwitchTable} (h : ∀ n, Adds F n sections) (fault : Option Report) :
    Carries F n 0 0 (switch subject strays sections fault) := by
  refine carries_inBlock .switch fun id => ?_
  have all := hs.value.bind fun _ => carries_sections (n := id + 1) (h _) fault
  rwa [bind_assoc] at all

end Block

end Gen

end StackScript
