/-
Statements are runs.

`Flows` says that a generator is a `flow` run from every state.  Inside a construct the jumps it makes on
its own block need that block to be the innermost one: `FlowsIn` says the same for the states in which it
is, and sequencing keeps it because everything that was entered in between has been left again.
-/
import StackScript.Proofs.Run.Function

namespace StackScript

namespace Gen

variable {α β : Type}

theorem Valued.flows {m : Gen α} (h : Valued m) : Flows m := fun s => Run.value (h s)

theorem Flows.bind {m : Gen α} {f : α → Gen β} (hm : Flows m) (hf : ∀ a, Flows (f a)) : Flows (m >>= f) := by
  intro s
  rw [after_bind]
  exact (hm s).seq (hf _ _)

/-- A generator of statements directly inside a block of a shape. -/
def FlowsIn (shape : List BlockTag × BlockOwner × Bool) (id : Nat) (m : Gen α) : Prop :=
  ∀ (s : GenState) (b : Block), s.blocks.Innermost id b → b.shape = shape → Run .flow s (after m s)

namespace FlowsIn

variable {shape : List BlockTag × BlockOwner × Bool} {id : Nat}

theorem bind {m : Gen α} {f : α → Gen β} (hm : FlowsIn shape id m) (hf : ∀ a, FlowsIn shape id (f a)) :
    FlowsIn shape id (m >>= f) := by
  intro s b hb hshape
  rw [after_bind]
  have first := hm s b hb hshape
  obtain ⟨b', hb', hshape'⟩ := first.frame.innermost hb
  exact first.seq (hf _ _ b' hb' (hshape'.trans hshape))

theorem settleContinue : FlowsIn shape id (settleContinue id) := fun _ _ hb _ => Run.settleContinue hb

end FlowsIn

theorem Flows.inBlock {shape : List BlockTag × BlockOwner × Bool} {id : Nat} {m : Gen α} (h : Flows m) :
    FlowsIn shape id m := fun s _ _ _ => h s

theorem Valued.inBlock {shape : List BlockTag × BlockOwner × Bool} {id : Nat} {m : Gen α} (h : Valued m) :
    FlowsIn shape id m := h.flows.inBlock

variable {test value body subject source init post items : Gen Unit}

/-! ### Simple statements -/

theorem valued_reportStrays (header : Header) (strays : List Token) : Valued (reportStrays header strays) :=
  valued_reportAll _

theorem valued_dropIf (isPresent : Bool) : Valued (dropIf isPresent) := by
  unfold dropIf
  split
  · exact emits_drop.valued
  · exact Valued.pure ()

theorem valued_raw (text : String) : Valued (raw text) :=
  (emits_string text).valued.bind fun _ => (emits_put rfl _ _ _ (by decide) (by exact fun _ => trivial)).valued

theorem valued_expression (isPresent : Bool) (h : Valued value) : Valued (expression isPresent value) :=
  h.bind fun _ => valued_dropIf isPresent

theorem valued_return_ (isPresent : Bool) (h : Valued value) : Valued (return_ isPresent value) :=
  h.bind fun _ => (emits_put rfl _ _ _ (by decide) (by exact fun _ => trivial)).valued

theorem valued_exit (isPresent : Bool) (h : Valued value) : Valued (exit isPresent value) :=
  h.bind fun _ => (emits_put rfl _ _ _ (by decide) (by exact fun _ => trivial)).valued

theorem flows_braces (h : Flows items) (unclosed : Option Nat) : Flows (braces items unclosed) := by
  intro s
  have inner := (h (after (enter [.braces] s.code.size .none none) s)).seq
    (Run.value (valued_reportFault (unclosed.map fun line => ⟨line, .unclosedBlock⟩) _))
  exact inner.braces

/-! ### Conditionals -/

/-- The shape of the block of a conditional. -/
abbrev conditionalShape : List BlockTag × BlockOwner × Bool := ([.conditional], .none, false)

/-- A jump on the block of a conditional. -/
theorem flowsIn_await {id : Nat} {op : Opcode} (hop : op = .jmpz ∨ op = .jmp) :
    FlowsIn conditionalShape id (await id op .none) := by
  intro s b hb hshape
  have htags : b.tags = [.conditional] := congrArg Prod.fst hshape
  rcases hop with rfl | rfl
  · exact Run.wait hb (.out (by simp [Block.hasAny, htags]))
  · exact Run.wait hb (.past (by simp [Block.hasAny, htags]))

theorem flowsIn_branch {id : Nat} (ht : Valued test) (strays : List Token) (hb : Flows body) (isLast : Bool)
    {rest : Gen Unit} (hr : FlowsIn conditionalShape id rest) :
    FlowsIn conditionalShape id (branch id test strays body isLast rest) := by
  have settled : FlowsIn conditionalShape id (do
      settle id (some .jmpz)
      rest) := FlowsIn.bind (fun _ _ hb _ => Run.settle hb) fun _ => hr
  refine ht.inBlock.bind fun _ => (valued_reportStrays _ strays).inBlock.bind fun _ =>
    (flowsIn_await (.inl rfl)).bind fun _ => hb.inBlock.bind fun _ => ?_
  cases isLast with
  | true => exact settled
  | false => exact (flowsIn_await (.inr rfl)).bind fun _ => settled

/-- A construct on a block of its own. -/
theorem flows_inBlock {tags : List BlockTag} {deferred : Option (List Nat)} (ht : IsConstruct tags deferred)
    {body : Nat → Gen Unit} (h : ∀ id, FlowsIn (tags, .none, deferred.isSome) id (body id)) :
    Flows (inBlock tags deferred body) := by
  intro s
  exact Run.block ht (h _ _ _ (innermost_enter tags s.code.size .none deferred s) rfl)

theorem flows_conditional {chain : Nat → Gen Unit} (h : ∀ id, FlowsIn conditionalShape id (chain id)) :
    Flows (conditional chain) := flows_inBlock .conditional h

/-! ### Switches -/

/-- A generator that adds sections to the table of a switch. -/
def AddsSections (m : SwitchTable → Gen SwitchTable) : Prop :=
  ∀ table s, Run (.sections table (result (m table) s)) s (after (m table) s)

theorem addsSections_case (line : Nat) (isPresent : Bool) {guard : Gen Unit} (hg : Valued guard)
    (strays : List Token) (hb : Flows body) :
    AddsSections (caseSection line isPresent guard strays body) := by
  intro table s
  have label := (makes_thunk line isPresent hg s).andThen
    (valued_reportAll (strays.map fun t => ⟨t.line, .unexpectedToken t.text⟩) _)
  exact label.case_ table (hb _)

theorem addsSections_default (line : Nat) (strays : List Token) (hb : Flows body) :
    AddsSections (defaultSection line strays body) := by
  intro table s
  have label : ∀ t, Run (.value []) t
      (after (reportAll (strays.map fun t => ⟨t.line, .unexpectedToken t.text⟩)) t) := valued_reportAll _
  cases hd : table.default? with
  | none =>
      have step := (label s).default_ table (hb _)
      unfold defaultSection
      rw [hd] at step ⊢
      exact step
  | some start =>
      have step := ((valued_report line .repeatedDefault s).andThen (label _)).default_ table (hb _)
      unfold defaultSection
      rw [hd] at step ⊢
      exact step

theorem flows_switch (hs : Valued subject) (strays : List Token) {sections : SwitchTable → Gen SwitchTable}
    (h : AddsSections sections) (fault : Option Report) : Flows (switch subject strays sections fault) := by
  intro s
  have head := (hs (after (enter [.loop, .switch] s.code.size .none none) s)).andThen
    (valued_reportStrays .switch strays _)
  have body := fun t => (h {} t).join (Run.aside _ (valued_reportFault fault _))
  exact head.switch (body _)

theorem flows_switchWithoutBody (hs : Valued subject) (strays : List Token) (r : Report) :
    Flows (switchWithoutBody subject strays r) :=
  flows_inBlock .switch fun _ => hs.inBlock.bind fun _ => (valued_reportStrays _ strays).inBlock.bind fun _ =>
    (valued_report _ _).inBlock

/-! ### Loops -/

/-- The jump out of a loop in front of its body. -/
theorem flowsIn_exit {id : Nat} {defers : Bool} : FlowsIn ([.loop], .none, defers) id (await id .jmpz .none) := by
  intro s b hb hshape
  have htags : b.tags = [.loop] := congrArg Prod.fst hshape
  exact Run.wait hb (.out (by simp [Block.hasAny, htags]))

/-- A loop: its code and the jump back to its start. -/
theorem flows_loop {back : Opcode} (hback : back = .jmp ∨ back = .jmpnz) {deferred : Option (List Nat)}
    (ht : IsConstruct [.loop] deferred) (head : Nat → Gen Unit)
    (h : ∀ id, FlowsIn ([.loop], .none, deferred.isSome) id (head id)) :
    Flows (do
      let first ← here
      inBlock [.loop] deferred fun id => do
        head id
        jumpTo back first) := by
  intro s
  exact Run.loop hback ht (h _ _ _ (innermost_enter [.loop] s.code.size .none deferred s) rfl)

theorem flows_whileLoop (ht : Valued test) (strays : List Token) (hb : Flows body) :
    Flows (whileLoop test strays body) := by
  refine flows_loop (.inl rfl) .loop (fun id => do
    test
    reportStrays .plain strays
    await id .jmpz .none
    body) fun id => ?_
  exact ht.inBlock.bind fun _ => (valued_reportStrays _ strays).inBlock.bind fun _ =>
    flowsIn_exit.bind fun _ => hb.inBlock

theorem flows_doLoop (hb : Flows body) (ht : Valued test) (strays : List Token) :
    Flows (doLoop body test strays) := by
  refine flows_loop (.inr rfl) .deferring (fun id => do
    body
    settleContinue id
    test
    reportStrays .plain strays) fun id => ?_
  exact hb.inBlock.bind fun _ => FlowsIn.settleContinue.bind fun _ => ht.inBlock.bind fun _ =>
    (valued_reportStrays _ strays).inBlock

theorem flows_doWithoutTest (hb : Flows body) (r : Report) : Flows (doWithoutTest body r) :=
  flows_inBlock .deferring fun _ => hb.inBlock.bind fun _ => (valued_report _ _).inBlock

theorem valued_reportIf (isWrong : Bool) (line : Nat) (problem : Problem) :
    Valued (reportIf isWrong line problem) := by
  unfold reportIf
  split
  · exact valued_report _ _
  · exact Valued.pure ()

theorem flowsIn_exitIf {id : Nat} {defers : Bool} (hasTest : Bool) :
    FlowsIn ([.loop], .none, defers) id (exitIf hasTest id) := by
  unfold exitIf
  split
  · exact flowsIn_exit
  · exact (Valued.pure ()).inBlock

theorem flows_forLoop (line : Nat) (hi : Flows init) (hasTest : Bool) (ht : Valued test) (afterTest : Bool)
    (hb : Flows body) (hasPost : Bool) (hp : Valued post) (afterPost : Bool) :
    Flows (forLoop line init hasTest test afterTest body hasPost post afterPost) := by
  refine hi.bind fun _ => flows_loop (.inl rfl) .deferring (fun id => do
    test
    exitIf hasTest id
    reportIf afterTest line .forAfterTest
    body
    settleContinue id
    post
    dropIf hasPost
    reportIf afterPost line .forAfterPost) fun id => ?_
  refine ht.inBlock.bind fun _ => (flowsIn_exitIf hasTest).bind fun _ =>
    (valued_reportIf afterTest line _).inBlock.bind fun _ => hb.inBlock.bind fun _ =>
    FlowsIn.settleContinue.bind fun _ => hp.inBlock.bind fun _ => ?_
  exact (valued_dropIf hasPost).inBlock.bind fun _ => (valued_reportIf afterPost line _).inBlock

/-- What follows `as`: either it only computes values, or a loop over a table comes of it. -/
def IsHead (m : Gen Unit) (id : Nat) : Prop :=
  ∀ s, Run (.value []) s (after m s) ∨
    ∃ (t u : GenState) (p3 : Operand), p3.Exists t.program ∧ Run (.value []) s t ∧
      Run .flow (after (await id .foreachStep p3) (after (restartHere id)
        (after (await id .foreachInit p3) t))) u ∧
      after m s = after (put .jmp 0 (t.code.size + 1) .none) u

theorem Valued.isHead {m : Gen Unit} (h : Valued m) (id : Nat) : IsHead m id := fun s => .inl (h s)

theorem IsHead.behind {m : Gen α} {f : α → Gen Unit} {id : Nat} (hm : Valued m) (hf : ∀ a, IsHead (f a) id) :
    IsHead (m >>= f) id := by
  intro s
  rw [after_bind]
  rcases hf (result m s) (after m s) with h | ⟨t, u, p3, hp3, h, h', heq⟩
  · exact .inl ((hm s).andThen h)
  · exact .inr ⟨t, u, p3, hp3, (hm s).andThen h, h', heq⟩

theorem valued_discarding (hb : Valued body) : Valued (discarding body) := by
  intro s
  exact (hb s).discard

theorem valued_unbound (line : Nat) (hb : Valued body) : Valued (unbound line body) := by
  have count : Valued errorCount := Valued.get.bind fun _ => Valued.pure _
  refine count.bind fun _ => (valued_discarding hb).bind fun _ => count.bind fun _ => ?_
  split
  · exact valued_report _ _
  · exact Valued.pure ()

theorem isHead_foreachLoop (id : Nat) (table : ForeachTable) (hb : Flows body) :
    IsHead (foreachLoop id table body) id := by
  have add : Valued (addForeach table) :=
    valued_of_quiet fun _ =>
      ⟨rfl, rfl, rfl, rfl, rfl, rfl, List.prefix_rfl, .refl, rfl, List.prefix_append _ _, List.prefix_rfl,
       List.prefix_rfl⟩
  intro s
  refine .inr ⟨after (addForeach table) s, _, .foreach (result (addForeach table) s), ?_, add s, hb _, ?_⟩
  · show s.program.foreachs.length < (s.program.foreachs ++ [table]).length
    rw [List.length_append]
    exact Nat.lt_succ_self _
  have first : (after (restartHere id) (after (await id .foreachInit (.foreach (result (addForeach table) s)))
      (after (addForeach table) s))).code.size = (after (addForeach table) s).code.size + 1 := by
    rw [after_restartHere, after_await]
    exact Array.size_push _
  unfold foreachLoop jumpTo
  simp only [after_bind, result_here, after_here]
  rw [first]

/-- A loop over a source, from what follows `as`. -/
theorem flows_foreach (hs : Valued source) (strays : List Token) {head : Nat → Gen Unit}
    (h : ∀ id, IsHead (head id) id) : Flows (foreach source strays head) := by
  intro s
  have front := (hs (after (enter [.loop] s.code.size .none none) s)).andThen
    (valued_reportStrays .foreach strays _)
  rcases h s.blocks.blocks.size (after (reportStrays .foreach strays)
    (after source (after (enter [.loop] s.code.size .none none) s))) with hv | ⟨t, u, p3, hp3, ht, hu, heq⟩
  · exact Run.block .loop (front.andThen hv).value
  · have done := Run.each hp3 (front.andThen ht) hu
    rw [← heq] at done
    exact done

/-! ### Jumps and exceptions -/

theorem flows_loopJump (jump : LoopJump) (line level : Nat) (unterminated : Bool) :
    Flows (loopJump jump line level unterminated) := by
  intro s
  unfold loopJump
  rw [after_bind, result_get, after_get]
  dsimp only
  split
  · exact (valued_report _ _ s).value
  · split
    · exact (Run.refl s).value
    · rw [after_bind, after_bind]
      refine (Run.leap jump ‹_› ‹_›).seq (Run.value ?_)
      split
      · exact valued_report _ _ _
      · exact Run.refl _

theorem flows_throw (line : Nat) (isPresent : Bool) (h : Valued value) : Flows (throw line isPresent value) := by
  refine h.flows.bind fun _ s => ?_
  cases isPresent with
  | true => exact Run.throw s
  | false => exact (valued_report _ _ s).value

theorem after_tryBody (body : Gen Unit) (s : GenState) : after (tryBody body) s =
    after leave (after (put .popException 0 0 (.exception s.program.exceptions.length))
      (after (settle s.blocks.blocks.size none) (after body
        (after (await s.blocks.blocks.size .loadException (.exception s.program.exceptions.length))
          (after reserveException (after (enter [.exception] s.code.size .none none) s)))))) := (rfl)

theorem errors_tryBody (body : Gen Unit) (s : GenState) : (after (tryBody body) s).errors =
    (after body (after (await s.blocks.blocks.size .loadException (.exception s.program.exceptions.length))
      (after reserveException (after (enter [.exception] s.code.size .none none) s)))).errors := (rfl)

/-- A protected body, and its catch clauses in a table that exists. -/
theorem flows_tryCatch (hb : Flows body) {clauses : Nat → Gen Unit}
    (hc : ∀ table s, table < s.program.exceptions.length → Run (.value []) s (after (clauses table) s))
    (fault : Option Report) : Flows (tryCatch body clauses fault) := by
  intro s
  have inner := (hb (after (await s.blocks.blocks.size .loadException (.exception s.program.exceptions.length))
    (after reserveException (after (enter [.exception] s.code.size .none none) s)))).try_
  have htable : s.program.exceptions.length <
      (after (tryBody body) s).program.exceptions.length := by
    have grown := (hb (after (await s.blocks.blocks.size .loadException
      (.exception s.program.exceptions.length))
      (after reserveException (after (enter [.exception] s.code.size .none none) s)))).frame.exceptions
    refine Nat.lt_of_lt_of_le ?_ grown
    rw [after_await, after_reserveException, List.length_append]
    exact Nat.lt_succ_self _
  exact (inner.seq (Run.value (hc _ _ htable))).seq (Run.value (valued_reportFault fault _))

theorem run_catch {table : Nat} {s : GenState} (hs : table < s.program.exceptions.length)
    (className binding : String) (hb : Flows body) :
    Run (.value []) s (after (do
      let code ← catchBody body
      addCatch table ⟨className, binding, code⟩) s) := by
  have made := makes_catchBody hb s
  have htable := Nat.lt_of_lt_of_le hs made.frame.exceptions
  exact made.file (Program.files_catch htable ⟨className, binding, result (catchBody body) s⟩)

/-! ### Declarations -/

theorem valued_constant (name : String) (line : Nat) (isPresent : Bool) (h : Valued value) :
    Valued (constant name line isPresent value) := by
  intro s
  exact (makes_thunk line isPresent h s).file (Program.files_constant name _)

theorem valued_declare (line : Nat) (type : TypeSpec) (name : String) : Valued (declare line type name) :=
  (valued_setLine line).bind fun _ => (emits_put rfl _ _ _ (by decide) (by exact fun _ => trivial)).valued

theorem valued_assigned (line : Nat) (type : TypeSpec) (name : String) (isPresent : Bool) (h : Valued value) :
    Valued (assigned line type name isPresent value) := by
  refine (valued_declare line type name).bind fun _ => h.bind fun _ => ?_
  split
  · exact emits_drop.valued
  · exact valued_report _ _

/-- A static variable whose value was made, or that has none. -/
theorem run_static {made : List Made} {s t : GenState} (h : Run (.value made) s t) (line : Nat)
    (type : TypeSpec) (name : String) {init : Code}
    (hv : made = [.thunk init] ∨ made = [] ∧ init = #[]) :
    Run (.value []) s (after (static line type name init) t) := by
  unfold static
  rw [after_bind]
  unfold addStatic
  rw [result_modifyGet, after_modifyGet]
  cases hs : t.statics with
  | nil => exact h.lost _ rfl
  | cons frame frames => exact h.static hv hs

theorem valued_staticValue (line : Nat) (type : TypeSpec) (name : String) (valueLine : Nat)
    (isPresent : Bool) (h : Valued value) :
    Valued (staticValue line type name valueLine isPresent value) := by
  intro s
  have made := makes_thunk valueLine isPresent h s
  cases isPresent with
  | true => exact run_static made line type name (.inl rfl)
  | false => exact run_static (made.andThen (valued_report _ _ _)) line type name (.inl rfl)

end Gen

end StackScript
