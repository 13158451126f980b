/-
Statements at two places.

A statement stands in a container that its jumps do not leave, so the block a `break`, `continue` or `throw` waits on is
found inside, and it is the same one at both places.
-/
import StackScript.Proofs.Relocation.Construct

namespace StackScript

open Gen

namespace Relocation

variable {L : Relocation} {flow : Bool} {test value body subject source init post items guard : Gen Unit}

/-! ### Simple statements -/

theorem like_reportStrays (header : Header) (strays : List Token) : L.Like flow (reportStrays header strays) :=
  like_reportAll _

theorem like_jumpTo (op : Opcode) (target : Nat) : L.Like flow (jumpTo op target) := like_put _ _ _ _

theorem like_dropIf (isPresent : Bool) : L.Like flow (dropIf isPresent) := by
  cases isPresent with
  | true => exact like_drop
  | false => exact like_pure ()

theorem like_raw (text : String) : L.Like flow (raw text) := (like_string text).behind fun _ => like_put _ _ _ _

theorem like_expression (isPresent : Bool) (h : L.Like flow value) : L.Like flow (expression isPresent value) :=
  h.behind fun _ => like_dropIf isPresent

theorem like_return_ (isPresent : Bool) (h : L.Like flow value) : L.Like flow (return_ isPresent value) :=
  h.behind fun _ => like_put _ _ _ _

theorem like_exit (isPresent : Bool) (h : L.Like flow value) : L.Like flow (exit isPresent value) :=
  h.behind fun _ => like_put _ _ _ _

theorem like_braces (h : L.Like flow items) (unclosed : Option Nat) : L.Like flow (braces items unclosed) :=
  like_here.behind fun first => twins_owned _ first _ fun _ => h.behind fun _ => like_reportFault _

/-! ### Conditionals and switches -/

theorem twins_branch (j : Nat) (ht : L.Like flow test) (strays : List Token) (hb : L.Like flow body) (isLast : Bool)
    {rest rest' : Gen Unit} (hr : L.Same flow rest rest') :
    L.Same flow (branch (L.depth + j) test strays body isLast rest) (branch (L.depth' + j) test strays body isLast rest') := by
  have settled : L.Same flow (settle (L.depth + j) (some .jmpz) >>= fun _ => rest)
      (settle (L.depth' + j) (some .jmpz) >>= fun _ => rest') := (twins_settle j _).behind fun _ => hr
  refine ht.behind fun _ => (like_reportStrays _ strays).behind fun _ => (twins_await j _ rfl).behind fun _ =>
    hb.behind fun _ => ?_
  cases isLast with
  | true => exact settled
  | false => exact (twins_await j _ rfl).behind fun _ => settled

theorem like_sectionBody (strays : List Token) (hb : L.Like flow body) : L.Like flow (sectionBody strays body) :=
  (like_reportAll _).behind fun _ => like_here.behind fun start => hb.behind fun _ => like_pure start

/-- Tables of a switch that have a default section or both have none. -/
def BothDefault (a b : SwitchTable) : Prop := a.default?.isSome = b.default?.isSome

variable (L) in
/-- A generator that adds sections to the table of a switch. -/
def LikeSections (sections : SwitchTable → Gen SwitchTable) : Prop :=
  ∀ a b, BothDefault a b → L.Twins true (sections a) (sections b) BothDefault

theorem likeSections_case (line : Nat) (isPresent : Bool) (hg : L.Like false guard) (strays : List Token)
    (hb : L.Like true body) : L.LikeSections (caseSection line isPresent guard strays body) := by
  intro a b hab
  exact (twins_thunk line isPresent hg).bind fun _ _ _ => (like_sectionBody strays hb).behind fun _ => .pure hab

theorem likeSections_default (line : Nat) (strays : List Token) (hb : L.Like true body) :
    L.LikeSections (defaultSection line strays body) := by
  intro a b hab
  have made : L.Twins true
      (sectionBody strays body >>= fun start => pure { a with default? := a.default?.or (some start) })
      (sectionBody strays body >>= fun start => pure { b with default? := b.default?.or (some start) }) BothDefault := by
    refine (like_sectionBody strays hb).behind fun start => .pure ?_
    simp [BothDefault]
  unfold defaultSection
  rw [show a.default?.isSome = b.default?.isSome from hab]
  split
  · exact (like_report _ _).behind fun _ => made
  · exact made

theorem like_switch (hL : L.Blind) (hs : L.Like true subject) (strays : List Token)
    {sections : SwitchTable → Gen SwitchTable} (h : L.LikeSections sections) (fault : Option Report) :
    L.Like true (switch subject strays sections fault) := by
  refine like_inBlock _ none fun _ => hs.behind fun _ => (like_reportStrays _ strays).behind fun _ => ?_
  refine twins_reserveSwitch.bind fun id id' _ => (twins_put _ _ _ (hL id id')).behind fun _ => ?_
  refine (h {} {} rfl).bind fun _ _ _ => (like_reportFault fault).behind fun _ => like_here.behind fun out => ?_
  exact twins_fillSwitch _ _ _ _

theorem like_switchWithoutBody (hs : L.Like flow subject) (strays : List Token) (r : Report) :
    L.Like flow (switchWithoutBody subject strays r) :=
  like_inBlock _ none fun _ => hs.behind fun _ => (like_reportStrays _ strays).behind fun _ => like_report _ _

/-! ### Loops -/

theorem like_whileLoop (ht : L.Like flow test) (strays : List Token) (hb : L.Like flow body) :
    L.Like flow (whileLoop test strays body) :=
  like_here.behind fun _ => like_inBlock _ none fun j => ht.behind fun _ => (like_reportStrays _ strays).behind fun _ =>
    (twins_await j _ rfl).behind fun _ => hb.behind fun _ => like_jumpTo _ _

theorem like_doLoop (hb : L.Like flow body) (ht : L.Like flow test) (strays : List Token) :
    L.Like flow (doLoop body test strays) :=
  like_here.behind fun _ => like_inBlock _ _ fun j => hb.behind fun _ => (twins_settleContinue j).behind fun _ =>
    ht.behind fun _ => (like_reportStrays _ strays).behind fun _ => like_jumpTo _ _

theorem like_doWithoutTest (hb : L.Like flow body) (r : Report) : L.Like flow (doWithoutTest body r) :=
  like_inBlock _ _ fun _ => hb.behind fun _ => like_report _ _

theorem twins_exitIf (hasTest : Bool) (j : Nat) :
    L.Same flow (exitIf hasTest (L.depth + j)) (exitIf hasTest (L.depth' + j)) := by
  cases hasTest with
  | true => exact twins_await j _ rfl
  | false => exact like_pure ()

theorem like_reportIf (isWrong : Bool) (line : Nat) (problem : Problem) : L.Like flow (reportIf isWrong line problem) := by
  cases isWrong with
  | true => exact like_report _ _
  | false => exact like_pure ()

theorem like_forLoop (line : Nat) (hi : L.Like flow init) (hasTest : Bool) (ht : L.Like flow test) (afterTest : Bool)
    (hb : L.Like flow body) (hasPost : Bool) (hp : L.Like flow post) (afterPost : Bool) :
    L.Like flow (forLoop line init hasTest test afterTest body hasPost post afterPost) :=
  hi.behind fun _ => like_here.behind fun _ => like_inBlock _ _ fun j => ht.behind fun _ =>
    (twins_exitIf hasTest j).behind fun _ => (like_reportIf afterTest line _).behind fun _ => hb.behind fun _ =>
    (twins_settleContinue j).behind fun _ => hp.behind fun _ => (like_dropIf hasPost).behind fun _ =>
    (like_reportIf afterPost line _).behind fun _ => like_jumpTo _ _

theorem like_discarding (h : L.Like flow body) : L.Like flow (discarding body) := by
  refine like_here.behind fun before => h.behind fun _ s t _ hst => ?_
  exact ⟨hst.recode (Code.mapOperands_take hst.code before), rfl⟩

theorem like_unbound (line : Nat) (h : L.Like flow body) : L.Like flow (unbound line body) := by
  refine like_errorCount.behind fun errors => (like_discarding h).behind fun _ => like_errorCount.behind fun now => ?_
  split
  · exact like_report _ _
  · exact like_pure ()

theorem twins_foreachLoop (j : Nat) (table : ForeachTable) (hb : L.Like flow body) :
    L.Same flow (foreachLoop (L.depth + j) table body) (foreachLoop (L.depth' + j) table body) :=
  (like_addForeach table).behind fun _ => (twins_await j _ rfl).behind fun _ => (twins_restartHere j).behind fun _ =>
    like_here.behind fun _ => (twins_await j _ rfl).behind fun _ => hb.behind fun _ => like_jumpTo _ _

theorem like_foreach (hs : L.Like flow source) (strays : List Token) {head : Nat → Gen Unit}
    (h : ∀ j, L.Same flow (head (L.depth + j)) (head (L.depth' + j))) : L.Like flow (foreach source strays head) :=
  like_inBlock _ none fun j => hs.behind fun _ => (like_reportStrays _ strays).behind fun _ => h j

/-! ### Jumps and exceptions -/

theorem twins_jumpOn (jump : LoopJump) (j : Nat) (target : Block) :
    L.Same flow (jumpOn jump (L.depth + j) target) (jumpOn jump (L.depth' + j) target) := by
  unfold jumpOn
  split
  · exact twins_await j _ rfl
  · split
    · exact twins_awaitContinue j
    · exact like_jumpTo _ _

theorem like_loopJump (jump : LoopJump) (line level : Nat) (unterminated : Bool) :
    L.Like true (loopJump jump line level unterminated) := by
  intro s t hroot hst
  refine ⟨?_, rfl⟩
  unfold loopJump
  simp only [after_bind, result_get, after_get]
  rcases hst.enclosing? (hroot rfl) [.loop] level with ⟨j, hs, ht⟩ | ⟨hs, ht⟩ <;> rw [hs, ht]
  · dsimp only
    rw [← hst.blocks]
    cases s.blocks.get? (L.depth + j) with
    | none => exact (like_pure () s t hroot hst).1
    | some target =>
        have terminated : L.Like true (if unterminated then report line (.jumpWithoutSemicolon jump) else pure ()) := by
          split
          · exact like_report _ _
          · exact like_pure ()
        have jumps := (@like_recordJump L true (L.depth + j) (L.depth' + j)).behind fun _ =>
          (twins_jumpOn jump j target).behind fun _ => terminated
        exact (jumps s t hroot hst).1
  · exact (like_report line (.jumpOutsideLoop jump) s t hroot hst).1

theorem like_throw (line : Nat) (isPresent : Bool) (h : L.Like true value) : L.Like true (throw line isPresent value) := by
  refine h.behind fun _ => ?_
  cases isPresent with
  | false => exact like_report _ _
  | true =>
      rw [if_pos rfl]
      intro s t hroot hst
      obtain ⟨j, hs, ht⟩ := hst.nearest (hroot rfl)
      refine ⟨?_, rfl⟩
      rw [after_bind, after_bind, result_get, result_get, after_get, after_get, hs, ht]
      exact (@twins_await L true j .throw .none .none rfl s t hroot hst).1

theorem like_tryBody (hb : L.Like flow body) : L.Like flow (tryBody body) :=
  like_here.behind fun first => twins_owned _ first _ fun j => like_reserveException.behind fun table =>
    (twins_await j _ rfl).behind fun _ => hb.behind fun _ => (twins_settle j none).behind fun _ =>
    (like_put _ _ _ _).behind fun _ => like_pure table

theorem like_tryCatch (hb : L.Like flow body) {clauses : Nat → Gen Unit} (hc : ∀ table, L.Like flow (clauses table))
    (fault : Option Report) : L.Like flow (tryCatch body clauses fault) :=
  (like_tryBody hb).behind fun table => (hc table).behind fun _ => like_reportFault fault

/-- A catch clause. -/
theorem like_catch (table : Nat) (className binding : String) (hb : (L.facing Operand.unswitched).Like true body) :
    L.Like flow (do
      let code ← catchBody body
      addCatch table ⟨className, binding, code⟩) :=
  (twins_catchBody hb).bind fun _ _ _ => twins_addCatch _ _ _

/-! ### Declarations -/

theorem like_constant (name : String) (line : Nat) (isPresent : Bool) (h : L.Like false value) :
    L.Like flow (constant name line isPresent value) :=
  like_behindThunk line isPresent h fun _ _ => twins_defineConstant _ _ _

theorem like_declare (line : Nat) (type : TypeSpec) (name : String) : L.Like flow (declare line type name) :=
  (like_setLine line).behind fun _ => like_put _ _ _ _

theorem like_assigned (line : Nat) (type : TypeSpec) (name : String) (isPresent : Bool) (h : L.Like flow value) :
    L.Like flow (assigned line type name isPresent value) := by
  refine (like_declare line type name).behind fun _ => h.behind fun _ => ?_
  cases isPresent with
  | true => exact like_drop
  | false => exact like_report _ _

theorem twins_static (line : Nat) (type : TypeSpec) (name : String) (a b : Code) :
    L.Same flow (static line type name a) (static line type name b) := by
  refine (twins_addStatic _ _).behind fun added => ?_
  cases added with
  | true => exact like_pure ()
  | false => exact like_report _ _

theorem like_staticValue (line : Nat) (type : TypeSpec) (name : String) (valueLine : Nat) (isPresent : Bool)
    (h : L.Like false value) : L.Like flow (staticValue line type name valueLine isPresent value) := by
  refine like_behindThunk valueLine isPresent h fun a b => ?_
  cases isPresent with
  | true => exact twins_static line type name a b
  | false => exact (like_report _ _).behind fun _ => twins_static line type name a b

end Relocation

end StackScript
