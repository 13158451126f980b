/-
Code makes the steps of its script.

Every structured construct is laid out as `Stmt.Fits` says, so the code of a script that is compiled without
a report is walked through like the script itself.
-/
import StackScript.Proofs.Delivery
import StackScript.Proofs.Evaluation
import StackScript.Proofs.Layout

namespace StackScript

open Gen

section Constructs

variable {bs : BlockStack} {e : Expr} {id : Nat} {b : Block}

/-! ### Expressions -/

theorem lays_expression (e : Expr) :
    Lays bs (expression e.isPresent (e.gen {} none)) Same fun S _ i j => e.Fits S i j := by
  unfold expression dropIf Expr.Fits
  cases he : e.isPresent with
  | true =>
      refine ((lays_passes he).next lays_drop).mono (fun _ _ _ _ h => h) ?_
      rintro S A i j ⟨l, hpass, hdrop, rfl⟩
      exact ⟨l, hpass, hdrop, rfl⟩
  | false =>
      refine ((lays_absent he).next (.silent (.pure ()) fun _ _ => rfl)).mono (fun _ _ _ _ h => h) ?_
      rintro S A i j ⟨l, rfl, rfl⟩
      rfl

/-- The test of a loop that may have none. -/
theorem lays_test (hb : bs.get? id = some b) (htags : b.hasAny [.loop, .conditional] = true) (e : Expr) :
    Lays bs (do e.gen {} none; exitIf e.isPresent id) Same fun S A i j =>
      e.FitsTest S (A id (some .jmpz)) i j := by
  unfold exitIf Expr.FitsTest
  cases he : e.isPresent with
  | true =>
      refine ((lays_passes he).next (lays_await hb htags .jmpz)).mono (fun _ _ _ _ h => h) ?_
      rintro S A i j ⟨l, hpass, hjump, rfl⟩
      exact ⟨l, hpass, hjump, rfl⟩
  | false =>
      refine ((lays_absent he).next (.silent (.pure ()) fun _ _ => rfl)).mono (fun _ _ _ _ h => h) ?_
      rintro S A i j ⟨l, rfl, rfl⟩
      rfl

theorem lays_reportStrays (header : Header) (strays : List Token) :
    Lays bs (reportStrays header strays) Same fun _ _ i j => j = i := lays_reportAll _

theorem lays_reportIf (isWrong : Bool) (line : Nat) (problem : Problem) :
    Lays bs (reportIf isWrong line problem) Same fun _ _ i j => j = i := by
  refine .silent (valued_reportIf isWrong line problem) fun s _ => ?_
  unfold reportIf
  cases isWrong <;> rfl

/-! ### Jumps -/

theorem lays_jumpOn (jump : LoopJump) {level : Nat} (hid : bs.enclosing? [.loop] level = some id) (s : GenState)
    (hs : s.blocks.shapes = bs.shapes) (tidy : Tidy s) (clean : s.reports = []) {target : Block} (ht : s.blocks.get? id = some target) :
    Laid Same (fun S A i j => ∃ l, A.exits bs jump level = some l ∧ S.Jumps .jmp i l ∧ j = i + 1) s
      (after (jumpOn jump id target) s) := by
  obtain ⟨-, b, hb, hloop⟩ := BlockStack.enclosing?_reaches hid
  obtain ⟨c, hc, hshape⟩ := BlockStack.get?_congr hs hb
  obtain rfl : c = target := Option.some.inj (hc.symm.trans ht)
  have htags : b.hasAny [.loop, .conditional] = true := Block.hasAny_mono (by decide) hloop
  have exits : ∀ A : Aims, A.exits bs jump level =
      some (A id (if jump = .break_ || c.hasAny [.switch] then some .jmp else none)) := fun A => by
    rw [Block.hasAny_congr hshape, A.exits_of_enclosing hid hb]
  unfold jumpOn
  split
  · rename_i hout
    refine ((lays_await hb htags .jmp).laid s hs tidy clean).mono (fun _ _ _ _ h => h) ?_
    rintro S A ⟨hjump, hj⟩
    exact ⟨_, (exits A).trans (by rw [if_pos hout]), hjump, hj⟩
  · rename_i hin
    have exits' : ∀ A : Aims, A.exits bs jump level = some (A id none) :=
      fun A => (exits A).trans (by rw [if_neg hin])
    split
    · rename_i hd
      have hd' : b.deferred.isSome = true := (congrArg (fun shape => shape.2.2) hshape).symm.trans hd
      refine ((lays_awaitContinue hb htags hd').laid s hs tidy clean).mono (fun _ _ _ _ h => h) ?_
      rintro S A ⟨hjump, hj⟩
      exact ⟨_, exits' A, hjump, hj⟩
    · rename_i hd
      refine .of_spares tidy (.put .jmp 0 c.first .none) rfl (fun _ => none) (fun _ _ _ _ _ _ hg => by cases hg)
        fun S A leads hS hreads => ?_
      unfold jumpTo at hS hreads ⊢
      rw [after_put, Array.size_push] at hreads
      rw [after_put] at hS ⊢
      have hfirst : c.first = A id none := by
        refine leads.firsts id c ht ?_ (Option.not_isSome_iff_eq_none.mp hd)
        rw [Block.hasAny_congr hshape]
        exact hloop
      refine ⟨_, exits' A, ⟨hreads _ (Nat.le_refl _) (Nat.lt_succ_self _), _, hS.last (Nat.le_refl _), rfl, rfl, hfirst⟩,
        Array.size_push _⟩

theorem lays_loopJump (jump : LoopJump) (line level : Nat) (unterminated : Bool) :
    Lays bs (loopJump jump line level unterminated) Same fun S A i j =>
      ∃ l, A.exits bs jump level = some l ∧ S.Jumps .jmp i l ∧ j = i + 1 where
  framed := fun s => (flows_loopJump jump line level unterminated s).frame
  laid := by
    intro s hs tidy clean
    have clean' := (flows_loopJump jump line level unterminated s).frame.clean clean
    unfold loopJump at clean ⊢
    rw [after_bind, result_get, after_get] at clean ⊢
    dsimp only at clean ⊢
    cases hid : s.blocks.enclosing? [.loop] level with
    | none =>
        rw [hid] at clean
        exact absurd clean (by simp [after_report])
    | some id =>
        obtain ⟨-, target, ht, -⟩ := BlockStack.enclosing?_reaches hid
        rw [hid] at clean
        dsimp only at clean ⊢
        rw [ht] at clean ⊢
        dsimp only at clean ⊢
        have hid' : bs.enclosing? [.loop] level = some id := by
          rw [← BlockStack.enclosing?_congr hs]
          exact hid
        have record : Laid Same (fun _ _ i j => j = i) s (after (recordJump id) s) :=
          .of_spares tidy (.still (.recordJump id) rfl rfl) rfl (fun _ => none)
            (fun _ _ _ _ _ _ hg => by cases hg) fun _ _ _ _ _ => rfl
        have jumped := lays_jumpOn jump hid' (after (recordJump id) s) hs record.tidy clean' ht
        cases unterminated with
        | true => exact absurd clean (by simp [after_bind, after_report])
        | false =>
            refine (record.seq jumped tidy.root).mono ?_ ?_
            · rintro A C i j ⟨_, B, rfl, rfl⟩
              rfl
            · rintro S A ⟨l, B, rfl, rfl, hjump⟩
              exact hjump

/-! ### Loops -/

/-- The block of a loop, as far as it matters inside it. -/
def loopBlock (deferred : Option (List Nat)) : Block :=
  { tags := [.loop], first := 0, owner := .none, deferred := deferred }

theorem get?_entered (bs : BlockStack) (b : Block) :
    (BlockStack.mk (bs.blocks.push b)).get? bs.blocks.size = some b := Array.getElem?_push_size

/-- Inside a loop. -/
theorem exits_loop {A C : Aims} {i j : Nat} {deferred : Option (List Nat)} (hagree : ∀ k < bs.blocks.size, C k = A k)
    (hout : C bs.blocks.size (some .jmp) = j) (hagain : C bs.blocks.size none = i) :
    C.exits ⟨bs.blocks.push (loopBlock deferred)⟩ = (A.exits bs).inner j i := by
  rw [Aims.exits_push_loop rfl, Aims.exits_agree hagree, hout, hagain]

/-- The statement is laid out as it fits, inside any blocks. -/
def Stmt.Laid (s : Stmt) : Prop := ∀ bs, Lays bs s.gen Same fun S A i j => s.Fits S (A.exits bs) i j

theorem Stmt.laid_whileLoop {test : Expr} (strays : List Token) {body : Stmt} (ht : test.isPresent = true)
    (h : body.Laid) : (Stmt.whileLoop test strays body).Laid := by
  intro bs
  refine ⟨fun s => (Stmt.flows_gen _ s).frame, fun s hs tidy clean => ?_⟩
  rw [Stmt.gen_whileLoop, Gen.whileLoop, after_bind, result_here, after_here] at clean ⊢
  have entered := get?_entered bs (loopBlock none)
  have inner := (lays_passes ht).next ((lays_reportStrays .plain strays).next ((lays_await entered rfl .jmpz).next
    ((h _).next (lays_jumpTo .jmp s.code.size))))
  refine (Lays.inBlock (fun id => do
      test.gen {} none
      reportStrays .plain strays
      await id .jmpz .none
      body.gen
      jumpTo .jmp s.code.size) .loop rfl
    (inner.mono (fun _ _ _ _ h => h.only _ fun _ => false) fun _ _ _ _ h => h) hs tidy clean).mono
    (fun _ _ _ _ h => h) ?_
  rintro S A ⟨C, hagree, hout, hfirst, m, hpass, l, rfl, _, ⟨hjump, rfl⟩, n, hbody, hback, hj⟩
  rw [hout .jmpz rfl] at hjump
  rw [exits_loop hagree (hout .jmp rfl) (hfirst rfl rfl)] at hbody
  exact ⟨l, n, hpass, hjump, hbody, hback, hj⟩

theorem Stmt.laid_doLoop {test : Expr} (strays : List Token) {body : Stmt} (ht : test.isPresent = true)
    (h : body.Laid) : (Stmt.doLoop body test strays).Laid := by
  intro bs
  refine ⟨fun s => (Stmt.flows_gen _ s).frame, fun s hs tidy clean => ?_⟩
  rw [Stmt.gen_doLoop, Gen.doLoop, after_bind, result_here, after_here] at clean ⊢
  have entered := get?_entered bs (loopBlock (some []))
  have tail : Lays ⟨bs.blocks.push (loopBlock (some []))⟩ _ Same _ :=
    (lays_passes ht).next ((lays_reportStrays .plain strays).next (lays_jumpTo .jmpnz s.code.size))
  have inner := (h _).behind ((lays_settleContinue entered rfl rfl).given
    (tail.mono (fun _ _ _ _ h => h.only _ _) fun _ _ _ _ h => h))
  refine (Lays.inBlock (fun id => do
      body.gen
      settleContinue id
      test.gen {} none
      reportStrays .plain strays
      jumpTo .jmpnz s.code.size) .deferring rfl inner hs tidy clean).mono (fun _ _ _ _ h => h) ?_
  rintro S A ⟨C, hagree, hout, -, m, hbody, B, ⟨n, hpass, _, rfl, hback, hj⟩, hC⟩
  have hagain : C bs.blocks.size none = m := by
    rw [hC]
    exact if_pos ⟨rfl, rfl⟩
  rw [exits_loop hagree (hout .jmp rfl) hagain] at hbody
  exact ⟨m, _, hbody, hpass, hback, hj⟩

/-- A `for` behind its first part. -/
theorem lays_forRounds (line : Nat) (test : Expr) (afterTest : Bool) {body : Stmt} (post : Expr) (afterPost : Bool)
    (h : body.Laid) : Lays bs (forLoop line (pure ()) test.isPresent (test.gen {} none) afterTest body.gen
      post.isPresent (post.gen {} none) afterPost) Same fun S A i j =>
        ∃ m n l, test.FitsTest S j i m ∧ body.Fits S ((A.exits bs).inner j n) m n ∧ post.Fits S n l ∧
          S.Jumps .jmp l i ∧ j = l + 1 := by
  refine ⟨fun s => (flows_forLoop line (Valued.pure ()).flows test.isPresent (Expr.valued_gen {} none test) afterTest
    (Stmt.flows_gen body) post.isPresent (Expr.valued_gen {} none post) afterPost s).frame, fun s hs tidy clean => ?_⟩
  unfold forLoop at clean ⊢
  rw [after_bind, after_pure, after_bind, result_here, after_here] at clean ⊢
  have entered := get?_entered bs (loopBlock (some []))
  have tail : Lays ⟨bs.blocks.push (loopBlock (some []))⟩ _ Same _ := ((lays_expression post).next
    ((lays_reportIf afterPost line .forAfterPost).next (lays_jumpTo .jmp s.code.size))).assoc
  have inner := ((lays_test entered rfl test).behind ((lays_reportIf afterTest line .forAfterTest).behind ((h _).behind
    ((lays_settleContinue entered rfl rfl).given (tail.mono (fun _ _ _ _ h => h.only _ _) fun _ _ _ _ h => h))))).assoc
  refine (Lays.inBlock (fun id => do
      test.gen {} none
      exitIf test.isPresent id
      reportIf afterTest line .forAfterTest
      body.gen
      settleContinue id
      post.gen {} none
      dropIf post.isPresent
      reportIf afterPost line .forAfterPost
      jumpTo .jmp s.code.size) .deferring rfl inner hs tidy clean).mono (fun _ _ _ _ h => h) ?_
  rintro S A ⟨C, hagree, hout, -, m, htest, _, rfl, n, hbody, B, ⟨l, hpost, _, rfl, hback, hj⟩, hC⟩
  have hagain : C bs.blocks.size none = n := by
    rw [hC]
    exact if_pos ⟨rfl, rfl⟩
  rw [hout .jmpz rfl] at htest
  rw [exits_loop hagree (hout .jmp rfl) hagain] at hbody
  exact ⟨_, n, _, htest, hbody, hpost, hback, hj⟩

theorem Stmt.laid_forLoop (line : Nat) {init : Stmt} (test : Expr) (afterTest : Bool) {body : Stmt} (post : Expr)
    (afterPost : Bool) (hi : init.Laid) (h : body.Laid) :
    (Stmt.forLoop line init test afterTest body post afterPost).Laid := by
  intro bs
  refine ⟨fun s => (Stmt.flows_gen _ s).frame, fun s hs tidy clean => ?_⟩
  rw [Stmt.gen_forLoop] at clean ⊢
  refine (((hi bs).next (lays_forRounds line test afterTest post afterPost h)).laid s hs tidy clean).mono
    (fun _ _ _ _ h => h) ?_
  rintro S A ⟨first, hinit, m, n, l, htest, hbody, hpost, hback, hj⟩
  exact ⟨first, m, n, l, hinit, htest, hbody, hpost, hback, hj⟩

/-! ### Conditionals -/

/-- The block of a conditional, as far as it matters inside it. -/
def conditionalBlock : Block := { tags := [.conditional], first := 0, owner := .none }

/-- The branches are laid out as they fit, on the block of a conditional inside any blocks. -/
def Chain.Laid (c : Chain) : Prop := ∀ bs : BlockStack,
  Lays ⟨bs.blocks.push conditionalBlock⟩ (c.gen bs.blocks.size) (Only bs.blocks.size (Filling.kindsOf (some .jmpz)))
    fun S A i j => c.Fits S (A.exits bs) (A bs.blocks.size (some .jmp)) i j

theorem exits_conditional (A : Aims) (bs : BlockStack) : A.exits ⟨bs.blocks.push conditionalBlock⟩ = A.exits bs :=
  Aims.exits_push rfl rfl

/-- A test and the body behind it. -/
theorem lays_guarded {test : Expr} (strays : List Token) {body : Stmt} {kinds : Option Opcode → Bool} {n : Gen Unit}
    {Q : Sheet → Aims → Nat → Nat → Prop} (ht : test.isPresent = true) (hb : body.Laid)
    (h : Lays ⟨bs.blocks.push conditionalBlock⟩ n (Only bs.blocks.size kinds) Q) :
    Lays ⟨bs.blocks.push conditionalBlock⟩ (do
      test.gen {} none
      reportStrays .plain strays
      await bs.blocks.size .jmpz .none
      body.gen
      n) (Only bs.blocks.size kinds) fun S A i j => ∃ m l, S.Passes test i m ∧
        S.Jumps .jmpz m (A bs.blocks.size (some .jmpz)) ∧ body.Fits S (A.exits bs) (m + 1) l ∧ Q S A l j := by
  have entered := get?_entered bs conditionalBlock
  refine ((lays_passes ht).behind ((lays_reportStrays .plain strays).behind ((lays_await entered rfl .jmpz).behind
    ((hb _).behind h)))).mono (fun _ _ _ _ h => h) ?_
  rintro S A i j ⟨m, hpass, _, rfl, _, ⟨hjump, rfl⟩, l, hbody, hq⟩
  rw [exits_conditional] at hbody
  exact ⟨_, l, hpass, hjump, hbody, hq⟩

/-- The target of `JMPZ` on a new block is given, and the other jumps keep theirs. -/
theorem Aims.set_test (B : Aims) (bs : BlockStack) (l : Nat) :
    let C := B.set bs.blocks.size (Filling.kindsOf (some .jmpz)) l
    C bs.blocks.size (some .jmpz) = l ∧ C bs.blocks.size (some .jmp) = B bs.blocks.size (some .jmp) ∧
      C.exits bs = B.exits bs :=
  ⟨if_pos ⟨rfl, rfl⟩, if_neg fun h => absurd h.2 (by decide), Aims.exits_set (Nat.le_refl _) _ _⟩

theorem Chain.laid_branch {test : Expr} (strays : List Token) {body : Stmt} {rest : Chain}
    (ht : test.isPresent = true) (hb : body.Laid) (hr : rest.Laid) : (Chain.branch test strays body rest).Laid := by
  intro bs
  have entered := get?_entered bs conditionalBlock
  rw [Chain.gen_branch]
  unfold Gen.branch
  have settled := (lays_settle entered rfl (some .jmpz)).given (hr bs)
  cases hdone : rest.isDone with
  | true =>
      refine (lays_guarded strays ht hb settled).mono (fun _ _ _ _ h => h) ?_
      rintro S A i j ⟨m, n, hpass, hjump, hbody, B, hrest, rfl⟩
      obtain ⟨hjmpz, hjmp, hexits⟩ := B.set_test bs n
      rw [hjmpz] at hjump
      rw [hexits] at hbody ⊢
      refine ⟨m, n, n, hpass, hjump, hbody, ?_, hjmp ▸ hrest⟩
      rw [hdone]
      rfl
  | false =>
      refine (lays_guarded strays ht hb ((lays_await entered rfl .jmp).behind settled)).mono (fun _ _ _ _ h => h) ?_
      rintro S A i j ⟨m, n, hpass, hjump, hbody, _, ⟨hover, rfl⟩, B, hrest, rfl⟩
      obtain ⟨hjmpz, hjmp, hexits⟩ := B.set_test bs (n + 1)
      rw [hjmpz] at hjump
      rw [hjmp] at hover ⊢
      rw [hexits] at hbody ⊢
      refine ⟨m, n, n + 1, hpass, hjump, hbody, ?_, hrest⟩
      rw [hdone]
      exact ⟨hover, rfl⟩

theorem Stmt.laid_conditional {chain : Chain} (h : chain.Laid) : (Stmt.conditional chain).Laid := by
  intro bs
  refine ⟨fun s => (Stmt.flows_gen _ s).frame, fun s hs tidy clean => ?_⟩
  refine (Lays.inBlock (fun id => chain.gen id) .conditional rfl (h bs) hs tidy clean).mono (fun _ _ _ _ h => h) ?_
  rintro S A ⟨C, hagree, hout, -, hchain⟩
  rw [hout .jmp rfl, Aims.exits_agree hagree] at hchain
  exact hchain

end Constructs

/-! ### Scripts -/

theorem Stmt.laid_expression (value : Expr) : (Stmt.expression value).Laid := by
  intro bs
  refine (lays_expression value).mono (fun _ _ _ _ h => h) fun S A i j h => ?_
  exact h

/-- The block of braces, as far as it matters inside it. -/
def bracesBlock : Block := { tags := [.braces], first := 0, owner := .none }

mutual

/-- A structured statement is laid out as it fits. -/
theorem Stmt.laid : (s : Stmt) → s.isStructured = true → s.Laid
  | .empty, _ => fun bs => by
    refine (Lays.silent (.pure ()) fun _ _ => rfl).mono (fun _ _ _ _ h => h) fun S A i j h => ?_
    exact h
  | .expression value, _ => Stmt.laid_expression value
  | .loopJump jump line level unterminated, _ => fun bs => by
    refine (lays_loopJump jump line level unterminated).mono (fun _ _ _ _ h => h) fun S A i j h => ?_
    exact h
  | .sequence items, h => fun bs => by
    refine (Stmt.laid_all items h bs).mono (fun _ _ _ _ h => h) fun S A i j h => ?_
    exact h
  | .block items unclosed, h => fun bs => by
    refine (Lays.inBraces rfl (Stmt.laid_all items h ⟨bs.blocks.push bracesBlock⟩) unclosed
      (flows_braces (Stmt.flows_genAll items) unclosed)).mono (fun _ _ _ _ h => h) ?_
    rintro S A i j ⟨C, hagree, hfits⟩
    rw [show C.exits ⟨bs.blocks.push bracesBlock⟩ = C.exits bs from Aims.exits_push rfl rfl,
      Aims.exits_agree hagree] at hfits
    exact hfits
  | .onLine line body, h => fun bs => by
    have mark : Lays bs markBoundary Same fun _ _ i j => j = i := .silent valued_markBoundary fun _ _ => rfl
    refine ((Lays.silent (valued_setLine line) fun _ _ => rfl).next
      (mark.next ((Stmt.laid body h bs).next mark))).mono (fun _ _ _ _ h => h) ?_
    rintro S A i j ⟨_, rfl, _, rfl, _, hfits, rfl⟩
    exact hfits
  | .conditional chain, h => Stmt.laid_conditional (Chain.laid chain h)
  | .whileLoop test strays body, h => by
    obtain ⟨htest, hbody⟩ := Bool.and_eq_true_iff.mp h
    exact Stmt.laid_whileLoop strays htest (Stmt.laid body hbody)
  | .doLoop body test strays, h => by
    obtain ⟨hbody, htest⟩ := Bool.and_eq_true_iff.mp h
    exact Stmt.laid_doLoop strays htest (Stmt.laid body hbody)
  | .forLoop line init test afterTest body post afterPost, h => by
    cases init with
    | expression init =>
        exact Stmt.laid_forLoop line test afterTest post afterPost (Stmt.laid_expression init) (Stmt.laid body h)
    | _ => exact absurd h Bool.false_ne_true
  | .report _, h | .raw _, h | .switch _ _ _ _, h | .switchWithoutBody _ _ _, h | .doWithoutTest _ _, h
  | .foreach _ _ _ _, h | .tryCatch _ _ _, h | .throw _ _, h | .return_ _, h | .exit _, h | .constant _ _ _, h
  | .declaration _ _ _, h | .namespace_ _ _, h | .using_ _, h | .function _ _ _ _, h | .class_ _ _ _, h =>
    absurd h Bool.false_ne_true

theorem Stmt.laid_all : (ss : List Stmt) → Stmt.allStructured ss = true → ∀ bs,
    Lays bs (Stmt.genAll ss) Same fun S A i j => Stmt.AllFit S ss (A.exits bs) i j
  | [], _ => fun bs => by
    refine (Lays.silent (.pure ()) fun _ _ => rfl).mono (fun _ _ _ _ h => h) fun S A i j h => ?_
    exact h
  | s :: ss, h => fun bs => by
    obtain ⟨hs, hss⟩ := Bool.and_eq_true_iff.mp h
    refine ((Stmt.laid s hs bs).next (Stmt.laid_all ss hss bs)).mono (fun _ _ _ _ h => h) fun S A i j h => ?_
    exact h

theorem Chain.laid : (c : Chain) → c.isStructured = true → c.Laid
  | .branch test strays body rest, h => by
    obtain ⟨h, hrest⟩ := Bool.and_eq_true_iff.mp h
    obtain ⟨htest, hbody⟩ := Bool.and_eq_true_iff.mp h
    exact Chain.laid_branch strays htest (Stmt.laid body hbody) (Chain.laid rest hrest)
  | .otherwise body, h => fun bs => by
    refine (Stmt.laid body h _).mono (fun _ _ _ _ h => h.only _ _) fun S A i j hfits => ?_
    rw [exits_conditional] at hfits
    exact hfits
  | .done, _ => fun bs => by
    refine (Lays.silent (.pure ()) fun _ _ => rfl).mono (fun _ _ _ _ h => h.only _ _) fun S A i j h => ?_
    exact h
  | .malformed _, h => absurd h Bool.false_ne_true

end

/-! ### Whole scripts -/

namespace Sheet

variable {S : Sheet} {ask : Oracle}

/-- The code makes the steps of a script: with the script it comes to its end, and while the script goes on so
does the code. -/
structure Performs (S : Sheet) (ask : Oracle) (items : List Stmt) : Prop where
  steps : ∀ fuel,
    (Stmt.execAll ask items fuel []).ending = .normal ∧ (∃ n w, S.moves ask n .start = some w ∧
      S.isDone w = true ∧ w.trace = (Stmt.execAll ask items fuel []).trace) ∨
    (Stmt.execAll ask items fuel []).ending = .unfinished ∧ ∃ n w, fuel ≤ n ∧ S.moves ask n .start = some w ∧
      w.trace = (Stmt.execAll ask items fuel []).trace
  ends : ∀ n w, S.moves ask n .start = some w → S.isDone w = true →
    ∃ fuel, (Stmt.execAll ask items fuel []).ending = .normal ∧ (Stmt.execAll ask items fuel []).trace = w.trace

/-- Nothing follows the end of the code. -/
theorem move_done {w : Walker} (h : S.isDone w = true) : S.move ask w = none := by
  simp only [isDone, Bool.and_eq_true, Option.isNone_iff_eq_none, beq_iff_eq] at h
  obtain ⟨⟨hnone, hop⟩, -⟩ := h
  obtain ⟨x, hx, hop⟩ := Option.map_eq_some_iff.mp hop
  rw [move, hnone]
  dsimp only
  rw [hx, Option.bind_some, Walker.exec, hop]

/-- A walk that has come to the end has come there at once. -/
theorem moves_done {k n : Nat} {v w w' : Walker} (h : S.moves ask k v = some w) (hdone : S.isDone w = true)
    (h' : S.moves ask n v = some w') (hkn : k ≤ n) : n = k ∧ w' = w := by
  induction k generalizing n v with
  | zero =>
      cases h
      cases n with
      | zero =>
          cases h'
          exact ⟨rfl, rfl⟩
      | succ n =>
          rw [moves, move_done hdone] at h'
          cases h'
  | succ k ih =>
      obtain ⟨n, rfl⟩ : ∃ m, n = m + 1 := ⟨n - 1, by omega⟩
      rw [moves] at h h'
      obtain ⟨u, hu, h⟩ := Option.bind_eq_some_iff.mp h
      obtain ⟨u', hu', h'⟩ := Option.bind_eq_some_iff.mp h'
      obtain rfl : u' = u := Option.some.inj (hu'.symm.trans hu)
      obtain ⟨rfl, rfl⟩ := ih h h' (by omega)
      exact ⟨rfl, rfl⟩

theorem performs_of_fits {items : List Stmt} {n : Nat} (h : Stmt.AllFit S items (fun _ _ => none) 0 n)
    (hnone : S.at? n = none) (hdone : S.code[n]?.map Instruction.op = some .done) (ask : Oracle) :
    S.Performs ask items := by
  have steps : ∀ fuel,
      (Stmt.execAll ask items fuel []).ending = .normal ∧ (∃ n w, S.moves ask n .start = some w ∧
        S.isDone w = true ∧ w.trace = (Stmt.execAll ask items fuel []).trace) ∨
      (Stmt.execAll ask items fuel []).ending = .unfinished ∧ ∃ n w, fuel ≤ n ∧ S.moves ask n .start = some w ∧
        w.trace = (Stmt.execAll ask items fuel []).trace := by
    intro fuel
    obtain ⟨k, w, hk, htrace, hend⟩ := Stmt.follows_all items h fuel [] []
    cases hp : (Stmt.execAll ask items fuel []).ending with
    | normal =>
        rw [hp] at hend
        obtain ⟨hpc, hstack⟩ := hend
        refine .inl ⟨rfl, k, w, hk, ?_, htrace⟩
        simp [isDone, hpc, hstack, hnone, hdone]
    | jump kind level =>
        rw [hp] at hend
        cases hend.1
    | unfinished =>
        rw [hp] at hend
        exact .inr ⟨rfl, k, w, hend, hk, htrace⟩
  refine ⟨steps, fun k w hk hw => ⟨k + 1, ?_⟩⟩
  rcases steps (k + 1) with ⟨hend, k', w', hk', hw', htrace⟩ | ⟨-, k', w', hle, hk', -⟩
  · refine ⟨hend, ?_⟩
    rcases Nat.le_total k k' with hle | hle
    · rw [← htrace, (moves_done hk hw hk' hle).2]
    · rw [← htrace, (moves_done hk' hw' hk hle).2]
  · have := (moves_done hk hw hk' (by omega)).1
    omega

end Sheet

/-- Statements of the main container: nothing waits behind them, and nothing is around them. -/
theorem Stmt.performs_of_clean {items : List Stmt} (hs : Stmt.allStructured items = true) {s : GenState}
    (hblocks : s.blocks = .root) (hcode : s.code = #[])
    (clean : (after (Script.statements items).gen s).reports = []) :
    ∃ S : Sheet, S.code = (after (Script.statements items).gen s).code ∧
      (∀ i g, S.at? i = some g → g.start = i ∧ g.IsCode S.code) ∧ ∀ ask, S.Performs ask items := by
  have tidy : Tidy s := by
    have nothing : ∀ id kind i, ¬s.blocks.Awaits id kind i := by
      rintro id kind i ⟨b, hb, ha⟩
      rw [hblocks] at hb
      obtain rfl : b = { tags := [.global], first := 0, owner := .none } := by
        cases id with
        | zero => exact (Option.some.inj hb).symm
        | succ id => cases hb
      cases kind <;> simp [Block.Awaits] at ha
    exact ⟨by rw [hblocks]; decide, fun id kind i ha => absurd ha (nothing id kind i),
      fun id _ kind _ i ha => absurd ha (nothing id kind i)⟩
  have laid := (Stmt.laid_all items hs .root).laid s (by rw [hblocks]) tidy clean
  -- Nothing waits on the root, so all targets are in their places.
  obtain ⟨root, hroot, hshape⟩ := laid.frame.innermost
    (show s.blocks.Innermost 0 { tags := [.global], first := 0, owner := .none } by rw [hblocks]; exact ⟨rfl, rfl⟩)
  have hpending : root.pending = [] := laid.calm 0 _ root (by rw [hblocks]; rfl) hroot.block rfl
  have hdeferred : root.deferred = none := Block.undeferred_congr hshape rfl
  have only : ∀ id b, (after (Stmt.genAll items) s).blocks.get? id = some b → id = 0 ∧ b = root := by
    intro id b hb
    have hlt : id < _ := (Array.getElem?_eq_some_iff.mp hb).1
    have hsize := hroot.size
    obtain rfl : id = 0 := by omega
    exact ⟨rfl, Option.some.inj (hb.symm.trans hroot.block)⟩
  have nothing : ∀ id kind i, ¬(after (Stmt.genAll items) s).blocks.Awaits id kind i := by
    rintro id kind i ⟨b, hb, ha⟩
    obtain ⟨-, rfl⟩ := only id b hb
    cases kind <;> simp [Block.Awaits, hpending, hdeferred] at ha
  have filling := Filling.settle laid.tidy hroot.block (some .throw)
  have final : after (Script.statements items).gen s =
      after (put .done 0 0 .none) (after (settle 0 (some .throw)) (after (Stmt.genAll items) s)) := rfl
  rw [final]
  generalize after (Stmt.genAll items) s = t at laid hroot only nothing filling ⊢
  generalize after (settle 0 (some .throw)) t = u at filling ⊢
  have kept : ∀ i, u.code[i]? = t.code[i]? := fun i => filling.others i fun kind _ => nothing 0 kind i
  have hsize : u.code.size = t.code.size := filling.length
  rw [after_put]
  have leads : Leads (u.code.push ⟨.done, 0, 0, .none, u.buffer.line⟩) (fun _ _ => 0) t := by
    refine ⟨fun i x hx => ⟨x.p2, ?_, .inl rfl⟩, fun id kind i _ ha => absurd ha (nothing id kind i), fun id b hb hloop => ?_⟩
    · have hlt : i < t.code.size := (Array.getElem?_eq_some_iff.mp hx).1
      rw [Array.getElem?_push, if_neg (by omega), kept i]
      exact hx
    · obtain ⟨-, rfl⟩ := only id b hb
      rw [Block.hasAny_congr hshape] at hloop
      cases hloop
  obtain ⟨at?, fits⟩ := laid.fits
  obtain ⟨A, -, -, hsegments, hfits⟩ := fits _ _ leads
  rw [hcode] at hsegments hfits
  refine ⟨⟨u.code.push ⟨.done, 0, 0, .none, u.buffer.line⟩, fun i => if i < t.code.size then at? i else none⟩, rfl,
    fun i g hg => ?_, fun ask => ?_⟩
  · dsimp only at hg ⊢
    split at hg
    · exact hsegments i g (Nat.zero_le _) ‹_› hg
    · cases hg
  · have fit := hfits ⟨u.code.push ⟨.done, 0, 0, .none, u.buffer.line⟩, fun i => if i < t.code.size then at? i else none⟩
      rfl fun i _ hlt => if_pos hlt
    have exits : A.exits .root = fun _ _ => none := rfl
    rw [exits] at fit
    refine Sheet.performs_of_fits fit (if_neg (Nat.lt_irrefl _)) ?_ ask
    rw [← hsize]
    exact congrArg _ Array.getElem?_push_size


namespace Reporter

/-- No problem is kept from the author. -/
theorem reports_eq_nil {r : Reporter} {rs : List Report} (h : (r.reportAll rs).2.seen = []) : rs = [] := by
  cases rs with
  | nil => rfl
  | cons p ps =>
      have first := r.seen_report p.problem.severity p.line p.problem.message
      have passedOn : (r.report p.problem.severity p.line p.problem.message).2.seen <+:
          (r.reportAll (p :: ps)).2.seen := by
        rw [reportAll]
        split
        · rename_i hr
          simp only [hr, List.prefix_rfl]
        · rename_i r' hr
          rw [hr]
          exact r'.seen_reportAll ps
      have seen := List.prefix_nil.mp (h ▸ first.trans passedOn)
      exact absurd seen (List.append_ne_nil_of_right_ne_nil _ (List.cons_ne_nil _ _))

end Reporter

namespace Config

/-- Where the author is told nothing, nothing was reported. -/
theorem reports_of_silent {config : Config} {source : String} {read : Tokens}
    (hread : config.tokens? source = some read) (h : (config.compile source).diagnostics = []) :
    (config.generate source.utf8ByteSize read).reports = [] := by
  apply Reporter.reports_eq_nil (r := config.reporter)
  unfold compile at h
  rw [hread] at h
  dsimp only at h
  split at h <;> rename_i hr <;> rw [hr] <;> exact h

/-- The code of a structured script that is compiled without a message makes the steps of the script, whatever
comes of each of them.  A step is the code of an expression. -/
theorem steps_preserved (config : Config) (source : String) (read : Tokens) (items : List Stmt) (c : Compilation)
    (hread : config.tokens? source = some read)
    (hitems : (Script.read config.mode source.utf8ByteSize read.tokens).structured? = some items)
    (hc : (config.compile source).result = .ok c) (hsilent : (config.compile source).diagnostics = []) :
    ∃ S : Sheet, S.code = c.program.main ∧
      (∀ i g, S.at? i = some g → g.start = i ∧ g.IsCode S.code) ∧ ∀ ask, S.Performs ask items := by
  have clean := reports_of_silent hread hsilent
  obtain ⟨read', hread', hprogram, -⟩ := compile_ok hc
  obtain rfl : read' = read := Option.some.inj (hread'.symm.trans hread)
  rw [hprogram]
  unfold generate at clean ⊢
  cases hscript : Script.read config.mode source.utf8ByteSize read'.tokens with
  | expression value stray =>
      rw [hscript] at hitems
      cases hitems
  | statements items' =>
      rw [hscript] at hitems clean
      simp only [Script.structured?] at hitems
      split at hitems
      · rename_i hs
        cases hitems
        exact Stmt.performs_of_clean hs rfl rfl clean
      · cases hitems

/-- Jumps on loops of all kinds out of branches of conditionals. -/
theorem steps_preserved_nested :
    let source := "for (;;$i++) { while ($a) if ($b) break 2; else continue 2; do { continue; } while ($c); }"
    ∃ read items c, ({} : Config).tokens? source = some read ∧
      (Script.read .script source.utf8ByteSize read.tokens).structured? = some items ∧
      (({} : Config).compile source).result = .ok c ∧ (({} : Config).compile source).diagnostics = [] ∧
      ∃ S : Sheet, S.code = c.program.main ∧
        (∀ i g, S.at? i = some g → g.start = i ∧ g.IsCode S.code) ∧ ∀ ask, S.Performs ask items := by
  intro source
  have compiled : ((({} : Config).tokens? source).bind fun read =>
      (({} : Config).deliver (({} : Config).generate source.utf8ByteSize read)).result.toOption.map fun _ =>
        ((({} : Config).deliver (({} : Config).generate source.utf8ByteSize read)).diagnostics.isEmpty,
          (Script.read .script source.utf8ByteSize read.tokens).structured?.isSome)) = some (true, true) := by
    rw [tokens?_ofList rfl rfl]
    decide +kernel
  obtain ⟨read, c, hread, hc, told⟩ := ok_of_bind compiled
  obtain ⟨silent, structured⟩ := Prod.mk.inj told
  obtain ⟨items, hitems⟩ := Option.isSome_iff_exists.mp structured
  have hsilent : (({} : Config).compile source).diagnostics = [] := by
    rw [compile_eq hread]
    exact List.isEmpty_iff.mp silent
  exact ⟨read, items, c, hread, hitems, hc, hsilent, steps_preserved {} source read items c hread hitems hc hsilent⟩

end Config

end StackScript
