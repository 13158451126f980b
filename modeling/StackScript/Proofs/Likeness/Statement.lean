/-
Statements of two runs side by side.

A `break`, `continue` or `throw` waits on a block it finds among those around it.  Inside a container that
is rooted it finds none of another container.  What a `foreach` binds is generated for its reports only: it
asks whether there were new errors, of which the two runs have equally many.
-/
import StackScript.Proofs.Likeness.Construct

namespace StackScript

open Gen

namespace Kinship

variable {K : Kinship} {flow : Bool} {base : Nat} {p q : ConstantPool} {α β : Type}
variable {test value body subject source init post items guard : Gen Unit}

/-! ### Simple statements -/

theorem like_reportStrays (header : Header) (strays : List Token) :
    K.Like flow base (reportStrays header strays) := like_reportAll _

theorem like_jumpTo {op : Opcode} (hop : op ≠ .loadc) (target : Nat) : K.Like flow base (jumpTo op target) :=
  like_put hop _ _ _

theorem like_dropIf (isPresent : Bool) : K.Like flow base (dropIf isPresent) := by
  unfold dropIf
  split
  · exact like_drop
  · exact Like.pure ()

theorem like_raw (text : String) : K.Like flow base (raw text) :=
  (like_string text).bind fun _ => like_put (by decide) _ _ _

theorem like_expression (isPresent : Bool) (h : K.Like flow base value) :
    K.Like flow base (expression isPresent value) := h.bind fun _ => like_dropIf isPresent

theorem like_return_ (isPresent : Bool) (h : K.Like flow base value) :
    K.Like flow base (return_ isPresent value) := h.bind fun _ => like_put (by decide) _ _ _

theorem like_exit (isPresent : Bool) (h : K.Like flow base value) : K.Like flow base (exit isPresent value) :=
  h.bind fun _ => like_put (by decide) _ _ _

theorem like_braces (h : K.Like flow base items) (unclosed : Option Nat) :
    K.Like flow base (braces items unclosed) :=
  like_here.bind fun first p q =>
    twins_owned _ first _ fun _ _ => (h.bind fun _ => like_reportFault _) p q

/-! ### Conditionals and switches -/

theorem like_branch {id : Nat} (hid : base ≤ id) (ht : K.Like flow base test) (strays : List Token)
    (hb : K.Like flow base body) (isLast : Bool) {rest : Gen Unit} (hr : K.Like flow base rest) :
    K.Like flow base (branch id test strays body isLast rest) := by
  have settled : K.Like flow base (do
      settle id (some .jmpz)
      rest) := (like_settle hid _).bind fun _ => hr
  refine ht.bind fun _ => (like_reportStrays _ strays).bind fun _ =>
    (like_await hid (by decide) _).bind fun _ => hb.bind fun _ => ?_
  cases isLast with
  | true => exact settled
  | false => exact (like_await hid (by decide) _).bind fun _ => settled

theorem like_sectionBody (strays : List Token) (hb : K.Like flow base body) :
    K.Like flow base (sectionBody strays body) :=
  (like_reportAll _).bind fun _ => like_here.bind fun _ => hb.bind fun _ => Like.pure _

variable (K) in
/-- A generator that adds sections to the table of a switch. -/
def LikeSections (base : Nat) (sections : SwitchTable → Gen SwitchTable) : Prop :=
  ∀ p q a b, (∀ p' q', p.Grows p' → q.Grows q' → SwitchTable.Alike (K.slots p' q') a b) →
    K.Twins true base p q (sections a) (sections b) SwitchTable.Alike

theorem likeSections_case (line : Nat) (isPresent : Bool) (hg : ∀ base, K.Like false base guard)
    (strays : List Token) (hb : K.Like true base body) :
    K.LikeSections base (caseSection line isPresent guard strays body) := by
  intro p q a b hab
  refine (twins_thunk line isPresent hg).bind fun p' q' x y hp hq hxy => ?_
  refine (like_sectionBody strays hb).twins fun p'' q'' start hp' hq' => ?_
  refine Twins.pure fun P Q hP hQ => ?_
  have table := hab P Q ((hp.trans hp').trans hP) ((hq.trans hq').trans hQ)
  have code := hxy.mono (τ := K.slots P Q) fun _ _ => K.grow (hp'.trans hP) (hq'.trans hQ)
  exact { table with cases := forall₂_snoc table.cases ⟨code, rfl⟩ }

theorem likeSections_default (line : Nat) (strays : List Token) (hb : K.Like true base body) :
    K.LikeSections base (defaultSection line strays body) := by
  intro p q a b hab
  have default? : a.default? = b.default? := (hab p q .refl .refl).default?
  have made : ∀ p' q', p.Grows p' → q.Grows q' → K.Twins true base p' q'
      (do
        let start ← sectionBody strays body
        return { a with default? := a.default?.or (some start) })
      (do
        let start ← sectionBody strays body
        return { b with default? := b.default?.or (some start) }) SwitchTable.Alike := by
    intro p' q' hp hq
    refine (like_sectionBody strays hb).twins fun p'' q'' start hp' hq' => Twins.pure fun P Q hP hQ => ?_
    have table := hab P Q ((hp.trans hp').trans hP) ((hq.trans hq').trans hQ)
    exact { table with default? := by rw [default?] }
  unfold defaultSection
  rw [← default?] at made ⊢
  split
  · exact (like_report _ _).twins fun p' q' _ hp hq => made p' q' hp hq
  · exact made p q .refl .refl

theorem like_switch (hs : K.Like true base subject) (strays : List Token)
    {sections : SwitchTable → Gen SwitchTable} (h : K.LikeSections base sections) (fault : Option Report) :
    K.Like true base (switch subject strays sections fault) := by
  refine like_inBlock _ rfl fun _ _ => hs.bind fun _ => (like_reportStrays _ strays).bind fun _ =>
    like_reserveSwitch.bind fun id => (like_put (by decide) _ _ _).bind fun _ p q => ?_
  refine (h p q {} {} fun _ _ _ _ => ⟨.nil, rfl, rfl⟩).bind fun p' q' a b _ _ hab => ?_
  refine (like_reportFault fault).twins fun p'' q'' _ hp hq => like_here.twins fun P Q out hP hQ => ?_
  refine twins_fillSwitch id fun P' Q' hP' hQ' => ?_
  have table := hab.mono (τ := K.slots P' Q') fun _ _ =>
    K.grow ((hp.trans hP).trans hP') ((hq.trans hQ).trans hQ')
  exact { table with out := rfl }

theorem like_switchWithoutBody (hs : K.Like flow base subject) (strays : List Token) (r : Report) :
    K.Like flow base (switchWithoutBody subject strays r) :=
  like_inBlock _ rfl fun _ _ => hs.bind fun _ => (like_reportStrays _ strays).bind fun _ => like_report _ _

/-! ### Loops -/

theorem like_whileLoop (ht : K.Like flow base test) (strays : List Token) (hb : K.Like flow base body) :
    K.Like flow base (whileLoop test strays body) :=
  like_here.bind fun _ => like_inBlock _ rfl fun _ hid => ht.bind fun _ => (like_reportStrays _ strays).bind fun _ =>
    (like_await hid (by decide) _).bind fun _ => hb.bind fun _ => like_jumpTo (by decide) _

theorem like_doLoop (hb : K.Like flow base body) (ht : K.Like flow base test) (strays : List Token) :
    K.Like flow base (doLoop body test strays) :=
  like_here.bind fun _ => like_inBlock _ rfl fun _ hid => hb.bind fun _ => (like_settleContinue hid).bind fun _ =>
    ht.bind fun _ => (like_reportStrays _ strays).bind fun _ => like_jumpTo (by decide) _

theorem like_doWithoutTest (hb : K.Like flow base body) (r : Report) :
    K.Like flow base (doWithoutTest body r) :=
  like_inBlock _ rfl fun _ _ => hb.bind fun _ => like_report _ _

theorem like_exitIf (hasTest : Bool) {id : Nat} (hid : base ≤ id) : K.Like flow base (exitIf hasTest id) := by
  unfold exitIf
  split
  · exact like_await hid (by decide) _
  · exact Like.pure ()

theorem like_reportIf (isWrong : Bool) (line : Nat) (problem : Problem) :
    K.Like flow base (reportIf isWrong line problem) := by
  unfold reportIf
  split
  · exact like_report _ _
  · exact Like.pure ()

theorem like_forLoop (line : Nat) (hi : K.Like flow base init) (hasTest : Bool) (ht : K.Like flow base test)
    (afterTest : Bool) (hb : K.Like flow base body) (hasPost : Bool) (hp : K.Like flow base post)
    (afterPost : Bool) :
    K.Like flow base (forLoop line init hasTest test afterTest body hasPost post afterPost) :=
  hi.bind fun _ => like_here.bind fun _ => like_inBlock _ rfl fun _ hid => ht.bind fun _ =>
    (like_exitIf hasTest hid).bind fun _ => (like_reportIf afterTest line _).bind fun _ => hb.bind fun _ =>
    (like_settleContinue hid).bind fun _ => hp.bind fun _ => (like_dropIf hasPost).bind fun _ =>
    (like_reportIf afterPost line _).bind fun _ => like_jumpTo (by decide) _

/-- Code that is dropped again.  Nothing waits in it, because values leave the blocks as they are. -/
theorem like_discarding (h : ∀ base, K.Like false base body) : K.Like flow base (discarding body) := by
  intro p q s t hp hq _ hst
  obtain ⟨made, -⟩ := h s.blocks.blocks.size p q s t hp hq (fun hflow => absurd hflow (by decide)) hst.sealed
  have hsize := BlockStack.size_congr made.forward.shapes
  have solid : ∀ (i : Nat) (x : Instruction), s.code[i]? = some x → x.op ≠ .loadc →
      ∃ y, ((after body s).code.take s.code.size)[i]? = some y ∧ y.op ≠ .loadc := by
    intro i x hx hop
    obtain ⟨y, hy, hyop⟩ := made.forward.solid i x hx hop
    refine ⟨y, ?_, hyop⟩
    have hi := (Array.getElem?_eq_some_iff.mp hx).1
    have hi' := (Array.getElem?_eq_some_iff.mp hy).1
    rw [Array.take_eq_extract, Array.getElem?_extract, if_pos (by omega), Nat.zero_add]
    exact hy
  have code : Code.Alike (K.same (after (discarding body) s) (after (discarding body) t))
      ((after body s).code.take s.code.size) ((after body t).code.take t.code.size) := by
    rw [← hst.code.size]
    exact made.match'.code.take _
  refine ⟨⟨{ made.match' with code := code, within := ?_, waiting := fun id b hid hb i hi => ?_ }, ?_,
    made.constants⟩, rfl⟩
  · show base ≤ (after body s).blocks.blocks.size
    rw [hsize]
    exact hst.within
  · have hb' : (after body s).blocks.get? id = some b := hb
    rw [made.forward.outer id (hsize ▸ (Array.getElem?_eq_some_iff.mp hb').1)] at hb'
    obtain ⟨x, hx, hop⟩ := hst.waiting id b hid hb' i hi
    exact solid i x hx hop
  · exact { made.forward with
      solid := solid, outer := fun id hid => made.forward.outer id (Nat.lt_of_lt_of_le hid hst.within) }

/-- The two runs have met equally many errors between two states. -/
theorem errors_congr {s t s' t' : GenState} {n : Nat} (h : K.Match base s t) (h' : K.Match n s' t') :
    s'.reports.countP Report.isError = s.reports.countP Report.isError ↔
      t'.reports.countP Report.isError = t.reports.countP Report.isError := by
  obtain ⟨rs, hs, ht⟩ := h.reports
  obtain ⟨rs', hs', ht'⟩ := h'.reports
  rw [hs, ht, hs', ht']
  simp only [List.countP_append]
  omega

theorem like_unbound (line : Nat) (h : ∀ base, K.Like false base body) : K.Like flow base (unbound line body) := by
  intro p q s t hp hq hroot hst
  obtain ⟨made, -⟩ := like_discarding h p q s t hp hq hroot hst
  have report := ((like_report line .foreachNotVariable).behind hroot made).1
  have errors := errors_congr hst made.match'
  refine ⟨?_, rfl⟩
  show K.Onto base s t
    (after (if (after (discarding body) s).reports.countP Report.isError = s.reports.countP Report.isError then
      Gen.report line .foreachNotVariable else Pure.pure ()) (after (discarding body) s))
    (after (if (after (discarding body) t).reports.countP Report.isError = t.reports.countP Report.isError then
      Gen.report line .foreachNotVariable else Pure.pure ()) (after (discarding body) t))
  by_cases hs : (after (discarding body) s).reports.countP Report.isError = s.reports.countP Report.isError
  · rw [if_pos hs, if_pos (errors.mp hs)]
    exact made.trans report
  · rw [if_neg hs, if_neg fun ht => hs (errors.mpr ht)]
    exact made

theorem like_foreachLoop {id : Nat} (hid : base ≤ id) (table : ForeachTable) (hb : K.Like flow base body) :
    K.Like flow base (foreachLoop id table body) :=
  (like_addForeach table).bind fun _ => (like_await hid (by decide) _).bind fun _ =>
    (like_restartHere hid).bind fun _ => like_here.bind fun _ => (like_await hid (by decide) _).bind fun _ =>
    hb.bind fun _ => like_jumpTo (by decide) _

theorem like_foreach (hs : K.Like flow base source) (strays : List Token) {head : Nat → Gen Unit}
    (h : ∀ id, base ≤ id → K.Like flow base (head id)) : K.Like flow base (foreach source strays head) :=
  like_inBlock _ rfl fun id hid => hs.bind fun _ => (like_reportStrays _ strays).bind fun _ => h id hid

/-! ### Jumps and exceptions -/

/-- A loop around the code is one of this container. -/
theorem base_le_enclosing {bs : BlockStack} (h : bs.Rooted base) {tags : List BlockTag} {level id : Nat}
    (hid : bs.enclosing? tags level = some id) : base ≤ id := by
  apply Nat.le_of_not_lt
  intro hlt
  exact (BlockStack.enclosing?_reaches hid).1.not_hides (h id hlt)

theorem base_le_nearest {bs : BlockStack} (h : bs.Rooted base) : base ≤ bs.nearest [.exception, .function] := by
  apply Nat.le_of_not_lt
  intro hlt
  exact bs.not_hides_nearest (h _ hlt)

theorem like_jumpOn (jump : LoopJump) {id : Nat} (hid : base ≤ id) (target : Block) :
    K.Like flow base (jumpOn jump id target) := by
  unfold jumpOn
  split
  · exact like_await hid (by decide) _
  · split
    · exact like_awaitContinue hid
    · exact like_jumpTo (by decide) _

theorem like_loopJump (jump : LoopJump) (line level : Nat) (unterminated : Bool) :
    K.Like true base (loopJump jump line level unterminated) := by
  intro p q s t hp hq hroot hst
  unfold loopJump
  simp only [after_bind, result_bind, result_get, after_get]
  rw [← hst.blocks]
  cases hid : s.blocks.enclosing? [.loop] level with
  | none => exact like_report _ _ p q s t hp hq hroot hst
  | some id =>
      dsimp only
      cases hb : s.blocks.get? id with
      | none => exact Like.pure () p q s t hp hq hroot hst
      | some target =>
          have jumps : K.Like true base (do
              recordJump id
              jumpOn jump id target
              if unterminated then report line (.jumpWithoutSemicolon jump)) := by
            refine (like_recordJump id).bind fun _ =>
              (like_jumpOn jump (base_le_enclosing (hroot rfl) hid) target).bind fun _ => ?_
            split
            · exact like_report _ _
            · exact Like.pure ()
          exact jumps p q s t hp hq hroot hst

theorem like_throw (line : Nat) (isPresent : Bool) (h : K.Like true base value) :
    K.Like true base (throw line isPresent value) := by
  refine h.bind fun _ => ?_
  cases isPresent with
  | false => exact like_report _ _
  | true =>
      rw [if_pos rfl]
      intro p q s t hp hq hroot hst
      have awaits : K.Like true base (await (s.blocks.nearest [.exception, .function]) .throw .none) :=
        like_await (base_le_nearest (hroot rfl)) (by decide) .none
      simp only [after_bind, result_bind, result_get, after_get]
      rw [← hst.blocks]
      exact awaits p q s t hp hq hroot hst

theorem like_tryBody (hb : K.Like flow base body) : K.Like flow base (tryBody body) :=
  like_here.bind fun first p q => twins_owned _ first _ fun _ hid =>
    (like_reserveException.bind fun _ => (like_await hid (by decide) _).bind fun _ => hb.bind fun _ =>
      (like_settle hid none).bind fun _ => (like_put (by decide) _ _ _).bind fun _ => Like.pure _) p q

theorem like_tryCatch (hb : K.Like flow base body) {clauses : Nat → Gen Unit}
    (hc : ∀ table, K.Like flow base (clauses table)) (fault : Option Report) :
    K.Like flow base (tryCatch body clauses fault) :=
  (like_tryBody hb).bind fun table => (hc table).bind fun _ => like_reportFault fault

/-- A catch clause. -/
theorem like_catch (table : Nat) (className binding : String) (hb : ∀ base, K.Like true base body) :
    K.Like flow base (do
      let code ← catchBody body
      addCatch table ⟨className, binding, code⟩) :=
  fun _ _ => (twins_catchBody hb).bind fun _ _ _ _ _ _ hab =>
    twins_addCatch table fun _ _ hP hQ => ⟨rfl, rfl, hab.mono fun _ _ => K.grow hP hQ⟩

/-! ### Declarations -/

theorem like_constant (name : String) (line : Nat) (isPresent : Bool) (h : ∀ base, K.Like false base value) :
    K.Like flow base (constant name line isPresent value) :=
  fun _ _ => (twins_thunk line isPresent h).bind fun _ _ _ _ _ _ hab =>
    twins_defineConstant name fun _ _ hP hQ => hab.mono fun _ _ => K.grow hP hQ

theorem like_declare (line : Nat) (type : TypeSpec) (name : String) : K.Like flow base (declare line type name) :=
  (like_setLine line).bind fun _ => like_put (by decide) _ _ _

theorem like_assigned (line : Nat) (type : TypeSpec) (name : String) (isPresent : Bool)
    (h : K.Like flow base value) : K.Like flow base (assigned line type name isPresent value) := by
  refine (like_declare line type name).bind fun _ => h.bind fun _ => ?_
  split
  · exact like_drop
  · exact like_report _ _

theorem twins_static (line : Nat) (type : TypeSpec) (name : String) {a b : Code}
    (hab : ∀ p' q', p.Grows p' → q.Grows q' → Code.Alike (K.slots p' q') a b) :
    K.Twins flow base p q (static line type name a) (static line type name b) Equal := by
  refine (twins_addStatic (v := ⟨name, type, a⟩) (w := ⟨name, type, b⟩) fun P Q hP hQ => ⟨rfl, hab P Q hP hQ⟩).bind fun P Q added _ _ _ hadded => ?_
  cases hadded
  cases added with
  | true => exact Like.pure () P Q
  | false => exact like_report _ _ P Q

theorem like_staticValue (line : Nat) (type : TypeSpec) (name : String) (valueLine : Nat) (isPresent : Bool)
    (h : ∀ base, K.Like false base value) :
    K.Like flow base (staticValue line type name valueLine isPresent value) := by
  intro p q
  refine (twins_thunk valueLine isPresent h).bind fun p' q' a b _ _ hab => ?_
  have done : ∀ p'' q'', p'.Grows p'' → q'.Grows q'' →
      K.Twins flow base p'' q'' (static line type name a) (static line type name b) Equal := fun _ _ hp hq =>
    twins_static line type name fun _ _ hP hQ => hab.mono fun _ _ => K.grow (hp.trans hP) (hq.trans hQ)
  cases isPresent with
  | true => exact done _ _ .refl .refl
  | false => exact (like_report _ _).twins fun _ _ _ hp hq => done _ _ hp hq

end Kinship

end StackScript
