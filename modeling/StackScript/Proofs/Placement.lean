/-
The code of every statement lies where its layout says.

Each construct is shown to place its parts as `Stmt.Occupies` says, inside any blocks, and one recursion over
the statements puts this together.
-/
import StackScript.Proofs.Placing
import StackScript.Proofs.Simulation

namespace StackScript

open Gen

theorem BlockStack.Floor.lt {bs : BlockStack} {k : Nat} (h : bs.Floor k) (hs : 0 < bs.blocks.size) : k < bs.blocks.size := by
  rcases h.base with rfl | ⟨b, hb, -⟩
  · exact hs
  · exact (Array.getElem?_eq_some_iff.mp hb).1

/-- The statement takes up its code as its layout says, inside any blocks. -/
def Stmt.IsPlaced (s : Stmt) : Prop := ∀ k bs, BlockStack.Floor bs k → 0 < bs.blocks.size →
  Places k bs s.gen Same fun p F A i j => s.Occupies p F (A.exits bs) i j

/-- So do several statements one behind the other. -/
def Stmt.ArePlaced (ss : List Stmt) : Prop := ∀ k bs, BlockStack.Floor bs k → 0 < bs.blocks.size →
  Places k bs (Stmt.genAll ss) Same fun p F A i j => Stmt.AllOccupy p F ss (A.exits bs) i j

section Constructs

variable {k : Nat} {bs : BlockStack} {id : Nat} {b : Block}

theorem Places.assoc {l m n : Gen Unit} {R : Aims → Aims → Nat → Nat → Prop} {P : Program → Code → Aims → Nat → Nat → Prop}
    (h : Places k bs (do (do l; m); n) R P) : Places k bs (do l; m; n) R P := ⟨h.builds, h.placed⟩

/-! ### Jumps -/

theorem places_jumpOn (hf : bs.Floor k) (jump : LoopJump) {level : Nat} (hid : bs.enclosing? [.loop] level = some id)
    (s : GenState) (hs : s.blocks.shapes = bs.shapes) (tidy : Tidy (s.cleared k)) {target : Block}
    (ht : s.blocks.get? id = some target) :
    Placing k Same (fun _ F A i j => ∃ l, A.exits bs jump level = some l ∧ F.JumpsAt .jmp .none i l ∧ j = i + 1) s
      (after (jumpOn jump id target) s) := by
  have hk := hf.le_enclosing hid
  obtain ⟨-, b, hb, hloop⟩ := BlockStack.enclosing?_reaches hid
  obtain ⟨c, hc, hshape⟩ := BlockStack.get?_congr hs hb
  obtain rfl : c = target := Option.some.inj (hc.symm.trans ht)
  have htarget : b.isTarget = true := Block.hasAny_mono (by decide) hloop
  have exits : ∀ A : Aims, A.exits bs jump level =
      some (A id (if jump = .break_ || c.hasAny [.switch] then some .jmp else none)) := fun A => by
    rw [Block.hasAny_congr hshape, A.exits_of_enclosing hid hb]
  unfold jumpOn
  split
  · rename_i hout
    refine ((places_await hk hb (.inr htarget) .jmp .none).placed s hs tidy rfl).mono (fun _ _ _ _ h => h) ?_
    rintro p F A ⟨hjump, hj⟩
    exact ⟨_, (exits A).trans (by rw [if_pos hout]), hjump, hj⟩
  · rename_i hin
    have exits' : ∀ A : Aims, A.exits bs jump level = some (A id none) :=
      fun A => (exits A).trans (by rw [if_neg hin])
    split
    · rename_i hd
      have hd' : b.deferred.isSome = true := (congrArg (fun shape => shape.2.2) hshape).symm.trans hd
      refine ((places_awaitContinue hk hb htarget hd').placed s hs tidy rfl).mono (fun _ _ _ _ h => h) ?_
      rintro p F A ⟨hjump, hj⟩
      exact ⟨_, exits' A, hjump, hj⟩
    · rename_i hd
      have jump : Places k bs (jumpTo .jmp c.first) Same _ := places_jumpTo .jmp c.first
      have builds := jump.builds s
      refine .of_spares tidy (.put .jmp 0 c.first .none) builds rfl fun p F A _ leads hF => ?_
      unfold jumpTo at hF ⊢
      rw [after_put] at hF ⊢
      have hfirst : c.first = A id none := by
        refine leads.firsts id c ?_ ?_ (Option.not_isSome_iff_eq_none.mp hd)
        · rw [GenState.blocks_cleared, BlockStack.get?_cleared_of_le hk, ht]
        · rw [Block.hasAny_congr hshape]
          exact hloop
      exact ⟨_, exits' A, ⟨_, hF.last (Nat.le_refl _), rfl, rfl, hfirst, rfl⟩, Array.size_push _⟩

theorem Stmt.placed_loopJump (jump : LoopJump) (line level : Nat) (unterminated : Bool) :
    (Stmt.loopJump jump line level unterminated).IsPlaced := by
  intro k bs hf _
  refine ⟨fun s => (Stmt.flows_gen _ s).builds, fun s hs tidy he => ?_⟩
  have hroot : 0 < s.blocks.blocks.size := by simpa using tidy.root
  rw [Stmt.gen_loopJump] at he ⊢
  unfold Gen.loopJump at he ⊢
  rw [after_bind, result_get, after_get] at he ⊢
  dsimp only at he ⊢
  cases hid : s.blocks.enclosing? [.loop] level with
  | none =>
      rw [hid] at he
      exact absurd he (by simp [GenState.errors, after_report, Report.isError, Problem.severity])
  | some id =>
      obtain ⟨-, target, ht, -⟩ := BlockStack.enclosing?_reaches hid
      rw [hid] at he
      dsimp only at he ⊢
      rw [ht] at he ⊢
      dsimp only at he ⊢
      have hid' : bs.enclosing? [.loop] level = some id := by
        rw [← BlockStack.enclosing?_congr hs]
        exact hid
      have record : Placing k Same (fun _ _ _ i j => j = i) s (after (recordJump id) s) :=
        .of_spares tidy (.still (.recordJump id) rfl rfl) (.of_frame (.recordJump id) rfl (List.prefix_append _ _) rfl) rfl
          fun _ _ _ _ _ _ => rfl
      have jumped := places_jumpOn hf jump hid' (after (recordJump id) s) hs record.tidy ht
      have reported : Places k bs (if unterminated then Gen.report line (.jumpWithoutSemicolon jump) else pure ()) Same
          fun _ _ _ i j => j = i := places_reportIf unterminated line (.jumpWithoutSemicolon jump)
      refine (reported.behindPlaced (record.seq jumped hroot) hs tidy he).mono ?_ ?_
      · rintro A C i j ⟨_, B, rfl, _, _, rfl, rfl⟩
        rfl
      · rintro p F A ⟨l, B, ⟨_, _, rfl, rfl⟩, ⟨_, _, rfl, rfl, hjump⟩, hl⟩
        subst hl
        exact hjump

/-- The innermost handler or function is a target of jumps. -/
theorem BlockStack.nearest_target (bs : BlockStack) (hs : 0 < bs.blocks.size) :
    ∃ b, bs.get? (bs.nearest [.exception, .function]) = some b ∧
      (bs.nearest [.exception, .function] = 0 ∨ b.isTarget = true) := by
  unfold nearest
  cases hn : bs.nearestFrom [.exception, .function] bs.blocks.size with
  | none => exact ⟨bs.blocks[0], Array.getElem?_eq_getElem hs, .inl rfl⟩
  | some id =>
      obtain ⟨⟨b, hb, hany⟩, -⟩ := (bs.nearestFrom_spec _ _).1 id hn
      exact ⟨b, hb, .inr (Block.hasAny_mono (by decide) hany)⟩

/-- A thrown exception waits on the innermost handler or function, or on the root. -/
theorem Stmt.placed_throw (line : Nat) (value : Expr) : (Stmt.throw line value).IsPlaced := by
  intro k bs hf _
  refine ⟨fun s => (Stmt.flows_gen _ s).builds, fun s hs tidy he => ?_⟩
  have hroot : 0 < s.blocks.blocks.size := by simpa using tidy.root
  rw [Stmt.gen_throw, Gen.throw, after_bind] at he ⊢
  have valued := Expr.valued_gen {} (some .throwable) value
  cases hvalue : value.isPresent with
  | false =>
      rw [hvalue] at he
      have grows := Grown.errors_le (valued s).frame
      have reported : (after (value.gen {} (some .throwable)) s).errors + 1 = s.errors := by
        rw [← he]
        simp [GenState.errors, after_report, Report.isError, Problem.severity]
      omega
  | true =>
      rw [hvalue] at he
      have given : Places k bs (value.gen {} (some .throwable)) Same _ := places_valued valued
      have first := given.placed s hs tidy he
      generalize after (value.gen {} (some .throwable)) s = t at first he ⊢
      have hs' : t.blocks.shapes = bs.shapes := (first.builds.frame.shapes hroot).trans hs
      have hk := (hf.congr hs').le_nearest
      obtain ⟨b, hb, htarget⟩ := t.blocks.nearest_target (by simpa using first.tidy.root)
      have thrown := (places_await hk hb htarget .throw .none).placed t rfl first.tidy rfl
      refine (first.seq thrown hroot).mono ?_ ?_
      · rintro A C i j ⟨_, B, rfl, rfl⟩
        rfl
      · rintro p F A ⟨l, B, rfl, hvalue, hjump, hj⟩
        exact ⟨l, _, hvalue, hjump, hj⟩

/-! ### Loops -/

/-- A loop is no boundary. -/
theorem BlockStack.Floor.loop (hf : bs.Floor k) (hs : 0 < bs.blocks.size) (deferred : Option (List Nat)) :
    (BlockStack.mk (bs.blocks.push (loopBlock deferred))).Floor k := hf.push (hf.lt hs) rfl

theorem size_entered (bs : BlockStack) (b : Block) : 0 < (BlockStack.mk (bs.blocks.push b)).blocks.size := by
  rw [Array.size_push]
  exact Nat.succ_pos _

theorem Stmt.placed_whileLoop (test : Expr) (strays : List Token) {body : Stmt} (h : body.IsPlaced) :
    (Stmt.whileLoop test strays body).IsPlaced := by
  intro k bs hf hs₀
  refine ⟨fun s => (Stmt.flows_gen _ s).builds, fun s hs tidy he => ?_⟩
  rw [Stmt.gen_whileLoop, Gen.whileLoop, after_bind, result_here, after_here] at he ⊢
  have hk := hf.lt hs₀
  have entered := get?_entered bs (loopBlock none)
  have inner : Places k ⟨bs.blocks.push (loopBlock none)⟩ _ Same _ :=
    (places_valued (Expr.valued_gen {} none test)).next fun _ => (places_reportStrays .plain strays).next fun _ =>
      (places_await (Nat.le_of_lt hk) entered (.inr rfl) .jmpz .none).next fun _ =>
        (h k _ (hf.loop hs₀ none) (size_entered ..)).next fun _ => places_jumpTo .jmp s.code.size
  refine (Places.inBlock (fun id => do
      test.gen {} none
      reportStrays .plain strays
      await id .jmpz .none
      body.gen
      jumpTo .jmp s.code.size) .loop rfl hk
    (inner.mono (fun _ _ _ _ h => h.only _ fun _ => false) fun _ _ _ _ _ h => h) hs tidy he).mono (fun _ _ _ _ h => h) ?_
  rintro p F A ⟨C, hagree, hout, -, hfirst, m, htest, l, rfl, _, ⟨hjump, rfl⟩, n, hbody, hback, hj⟩
  rw [hout .jmpz rfl] at hjump
  rw [exits_loop hagree (hout .jmp rfl) (hfirst rfl rfl)] at hbody
  exact ⟨l, n, htest, hjump, hbody, hback, hj⟩

theorem Stmt.placed_doLoop (test : Expr) (strays : List Token) {body : Stmt} (h : body.IsPlaced) :
    (Stmt.doLoop body test strays).IsPlaced := by
  intro k bs hf hs₀
  refine ⟨fun s => (Stmt.flows_gen _ s).builds, fun s hs tidy he => ?_⟩
  rw [Stmt.gen_doLoop, Gen.doLoop, after_bind, result_here, after_here] at he ⊢
  have hk := hf.lt hs₀
  have entered := get?_entered bs (loopBlock (some []))
  have tail : Places k ⟨bs.blocks.push (loopBlock (some []))⟩ _ Same _ :=
    (places_valued (Expr.valued_gen {} none test)).next fun _ => (places_reportStrays .plain strays).next fun _ =>
      places_jumpTo .jmpnz s.code.size
  have inner := (h k _ (hf.loop hs₀ (some [])) (size_entered ..)).behind fun _ =>
    (places_settleContinue (Nat.le_of_lt hk) entered rfl).given fun _ => tail.mono (fun _ _ _ _ h => h.only _ _) fun _ _ _ _ _ h => h
  refine (Places.inBlock (fun id => do
      body.gen
      settleContinue id
      test.gen {} none
      reportStrays .plain strays
      jumpTo .jmpnz s.code.size) .deferring rfl hk inner hs tidy he).mono (fun _ _ _ _ h => h) ?_
  rintro p F A ⟨C, hagree, hout, -, -, m, hbody, B, ⟨n, htest, _, rfl, hback, hj⟩, hC⟩
  have hagain : C bs.blocks.size none = m := by
    rw [hC]
    exact if_pos ⟨rfl, rfl⟩
  rw [exits_loop hagree (hout .jmp rfl) hagain] at hbody
  exact ⟨m, _, hbody, htest, hback, hj⟩

theorem Stmt.placed_doWithoutTest (r : Report) {body : Stmt} (h : body.IsPlaced) :
    (Stmt.doWithoutTest body r).IsPlaced := by
  intro k bs hf hs₀
  refine ⟨fun s => (Stmt.flows_gen _ s).builds, fun s hs tidy he => ?_⟩
  rw [Stmt.gen_doWithoutTest, Gen.doWithoutTest] at he ⊢
  have hk := hf.lt hs₀
  have inner := (h k _ (hf.loop hs₀ (some [])) (size_entered ..)).next fun _ => places_report r.line r.problem
  refine (Places.inBlock (fun _ => do
      body.gen
      Gen.report r.line r.problem) .deferring rfl hk
    (inner.mono (fun _ _ _ _ h => h.only _ fun _ => false) fun _ _ _ _ _ h => h) hs tidy he).mono (fun _ _ _ _ h => h) ?_
  rintro p F A ⟨C, hagree, hout, hcontinue, -, m, hbody, -, hj⟩
  rw [exits_loop hagree (hout .jmp rfl) (hcontinue rfl rfl)] at hbody
  subst hj
  exact hbody

/-- The jump out of a loop that may have no test. -/
theorem places_exitIf (hk : k ≤ id) (hb : bs.get? id = some b) (htarget : b.isTarget = true) (hasTest : Bool) :
    Places k bs (exitIf hasTest id) Same fun _ F A i j =>
      if hasTest then F.JumpsAt .jmpz .none i (A id (some .jmpz)) ∧ j = i + 1 else j = i := by
  unfold exitIf
  cases hasTest with
  | true => exact places_await hk hb (.inr htarget) .jmpz .none
  | false => exact .silent (.pure ()) fun _ => rfl

/-- A `for` behind its first part. -/
theorem places_forRounds (hf : bs.Floor k) (hs₀ : 0 < bs.blocks.size) (line : Nat) (test : Expr) (afterTest : Bool)
    {body : Stmt} (post : Expr) (afterPost : Bool) (h : body.IsPlaced) :
    Places k bs (forLoop line (pure ()) test.isPresent (test.gen {} none) afterTest body.gen post.isPresent
      (post.gen {} none) afterPost) Same fun p F A i j => ∃ l m n q, Emitted F (test.gen {} none) i l ∧
        (if test.isPresent then F.JumpsAt .jmpz .none l j ∧ m = l + 1 else m = l) ∧
        body.Occupies p F ((A.exits bs).inner j n) m n ∧
        Emitted F (expression post.isPresent (post.gen {} none)) n q ∧ F.JumpsAt .jmp .none q i ∧ j = q + 1 := by
  refine ⟨fun s => (flows_forLoop line (Valued.pure ()).flows test.isPresent (Expr.valued_gen {} none test) afterTest
    (Stmt.flows_gen body) post.isPresent (Expr.valued_gen {} none post) afterPost s).builds, fun s hs tidy he => ?_⟩
  unfold forLoop at he ⊢
  rw [after_bind, after_pure, after_bind, result_here, after_here] at he ⊢
  have hk := hf.lt hs₀
  have entered := get?_entered bs (loopBlock (some []))
  have tail : Places k ⟨bs.blocks.push (loopBlock (some []))⟩ _ Same _ :=
    ((places_valued (valued_expression post.isPresent (Expr.valued_gen {} none post))).next fun _ =>
      (places_reportIf afterPost line .forAfterPost).next fun _ => places_jumpTo .jmp s.code.size).assoc
  have inner := (places_valued (Expr.valued_gen {} none test)).behind fun _ =>
    (places_exitIf (Nat.le_of_lt hk) entered rfl test.isPresent).behind fun _ =>
    (places_reportIf afterTest line .forAfterTest).behind fun _ =>
    (h k _ (hf.loop hs₀ (some [])) (size_entered ..)).behind fun _ =>
    (places_settleContinue (Nat.le_of_lt hk) entered rfl).given fun _ => tail.mono (fun _ _ _ _ h => h.only _ _) fun _ _ _ _ _ h => h
  refine (Places.inBlock (fun id => do
      test.gen {} none
      exitIf test.isPresent id
      reportIf afterTest line .forAfterTest
      body.gen
      settleContinue id
      post.gen {} none
      dropIf post.isPresent
      reportIf afterPost line .forAfterPost
      jumpTo .jmp s.code.size) .deferring rfl hk inner hs tidy he).mono (fun _ _ _ _ h => h) ?_
  rintro p F A ⟨C, hagree, hout, -, -, l, htest, m, hexit, _, rfl, n, hbody, B, ⟨q, hpost, _, rfl, hback, hj⟩, hC⟩
  have hagain : C bs.blocks.size none = n := by
    rw [hC]
    exact if_pos ⟨rfl, rfl⟩
  rw [hout .jmpz rfl] at hexit
  rw [exits_loop hagree (hout .jmp rfl) hagain] at hbody
  exact ⟨l, _, n, _, htest, hexit, hbody, hpost, hback, hj⟩

theorem Stmt.placed_forLoop (line : Nat) {init : Stmt} (test : Expr) (afterTest : Bool) {body : Stmt} (post : Expr)
    (afterPost : Bool) (hi : init.IsPlaced) (h : body.IsPlaced) :
    (Stmt.forLoop line init test afterTest body post afterPost).IsPlaced := by
  intro k bs hf hs
  rw [Stmt.gen_forLoop]
  refine ((hi k bs hf hs).next fun _ => places_forRounds hf hs line test afterTest post afterPost h).weaken ?_
  rintro p F A i j ⟨f, hinit, l, m, n, q, htest, hexit, hbody, hpost, hback, hj⟩
  exact ⟨f, l, m, n, q, hinit, htest, hexit, hbody, hpost, hback, hj⟩

/-! ### Loops over a source -/

/-- What follows `as` takes up its code as its layout says, on the block of a loop that ends where the jumps on
the block go. -/
def ForeachHead.IsPlaced (h : ForeachHead) : Prop := ∀ k bs, BlockStack.Floor bs k → 0 < bs.blocks.size → ∀ line key,
  Places k ⟨bs.blocks.push (loopBlock none)⟩ (h.gen bs.blocks.size line key) (Only bs.blocks.size Option.isNone)
    fun p F A i j => (∀ op, A bs.blocks.size (some op) = j) → h.Occupies p F key (A.exits bs) i j

/-- What is generated for its reports only leaves no code. -/
theorem places_discarding {m : Gen Unit} (h : Valued m) : Places k bs (discarding m) Same fun _ _ _ i j => j = i := by
  refine .silent (valued_discarding h) fun s => ?_
  have := (h s).frame.grows
  show ((after m s).code.take s.code.size).size = s.code.size
  rw [Array.take_eq_extract, Array.size_extract]
  omega

theorem valued_addForeach (table : ForeachTable) : Valued (addForeach table) :=
  valued_of_quiet fun _ => ⟨rfl, rfl, rfl, rfl, rfl, rfl, List.prefix_rfl, .refl, rfl, List.prefix_append _ _,
    List.prefix_rfl, List.prefix_rfl⟩

/-- The loop behind its source. -/
theorem places_foreachLoop (hf : bs.Floor k) (hs₀ : 0 < bs.blocks.size) (table : ForeachTable) {body : Stmt}
    (h : body.IsPlaced) : Places k ⟨bs.blocks.push (loopBlock none)⟩ (foreachLoop bs.blocks.size table body.gen)
      (Only bs.blocks.size Option.isNone) fun p F A i j => (∀ op, A bs.blocks.size (some op) = j) →
        ∃ id n, p.foreachs[id]? = some table ∧ F.JumpsAt .foreachInit (.foreach id) i j ∧
          F.JumpsAt .foreachStep (.foreach id) (i + 1) j ∧ body.Occupies p F ((A.exits bs).inner j (i + 1)) (i + 2) n ∧
          F.JumpsAt .jmp .none n (i + 1) ∧ j = n + 1 := by
  have hk := hf.lt hs₀
  have entered := get?_entered bs (loopBlock none)
  have rounds (id first : Nat) : Places k ⟨bs.blocks.push (loopBlock none)⟩ (do
      await bs.blocks.size .foreachStep (.foreach id)
      body.gen
      jumpTo .jmp first) Same _ :=
    (places_await (Nat.le_of_lt hk) entered (.inr rfl) .foreachStep (.foreach id)).next fun _ =>
      (h k _ (hf.loop hs₀ none) (size_entered ..)).next fun _ => places_jumpTo .jmp first
  have init (id : Nat) := places_await (k := k) (Nat.le_of_lt hk) entered (.inr rfl) .foreachInit (.foreach id)
  have unfolded (s u : GenState) (hu : after (await bs.blocks.size .foreachInit (.foreach s.program.foreachs.length))
      (after (addForeach table) s) = u) : after (foreachLoop bs.blocks.size table body.gen) s = after (do
        await bs.blocks.size .foreachStep (.foreach s.program.foreachs.length)
        body.gen
        jumpTo .jmp u.code.size) (after (restartHere bs.blocks.size) u) := by
    rw [← hu]
    rfl
  refine ⟨fun s => ?_, fun s hs tidy he => ?_⟩
  · rw [unfolded s _ rfl]
    have waiting := (valued_addForeach table s).builds.trans ((init s.program.foreachs.length).builds _)
    have restarted := waiting.trans (.of_frame (.restartHere bs.blocks.size) rfl List.prefix_rfl rfl)
    exact restarted.trans ((rounds _ _).builds _)
  · have hroot : 0 < s.blocks.blocks.size := by simpa using tidy.root
    have add : Placing k Same (fun p _ _ i j => j = i ∧ p.foreachs[s.program.foreachs.length]? = some table) s
        (after (addForeach table) s) := by
      refine .of_spares tidy ((valued_addForeach table s).spares hroot) (valued_addForeach table s).builds rfl
        fun p F A hp _ _ => ⟨rfl, ?_⟩
      obtain ⟨more, hmore⟩ := hp.foreachs
      rw [← hmore]
      show (s.program.foreachs ++ [table] ++ more)[s.program.foreachs.length]? = some table
      simp
    have waiting := (init s.program.foreachs.length).behindPlaced add hs tidy rfl
    generalize hu : after (await bs.blocks.size .foreachInit (.foreach s.program.foreachs.length))
      (after (addForeach table) s) = u at waiting
    obtain ⟨d, hd, hshape'⟩ := BlockStack.get?_congr ((waiting.builds.frame.shapes hroot).trans hs) entered
    have restarted := waiting.seq (.restart waiting.tidy (Nat.le_of_lt hk) hd (by rw [Block.hasAny_congr hshape']; rfl)
      (Block.undeferred_congr hshape' rfl)) hroot
    rw [unfolded s u hu] at he ⊢
    refine ((rounds s.program.foreachs.length u.code.size).behindPlaced restarted hs tidy he).mono ?_ ?_
    · rintro A C i j ⟨l, B, rfl, m, D, ⟨-, honly⟩, _, E, rfl, rfl⟩
      exact honly
    · rintro p F A ⟨l, B, ⟨_, _, ⟨hagain, honly⟩, _, _, rfl, rfl⟩, ⟨m, _, -, ⟨_, _, rfl, ⟨rfl, htable⟩, hinit, rfl⟩, hl⟩,
        _, ⟨hstep, rfl⟩, n, hbody, hback, hj⟩ hout
      -- Only where `continue` goes is told between the two instructions.
      have hagree : B.exits bs = Aims.exits _ bs := Aims.exits_agree fun id hid =>
        funext fun kind => (honly id kind fun hset => Nat.ne_of_lt hid hset.1).symm
      rw [← honly _ _ fun hset => absurd hset.2 (by decide), hout] at hstep
      rw [hout] at hinit
      have hjmp : B bs.blocks.size (some .jmp) = _ := (honly _ _ fun hset => absurd hset.2 (by decide)).symm.trans (hout .jmp)
      rw [Aims.exits_push_loop rfl, hagain, hjmp, hagree, hl] at hbody
      have hsize : u.code.size = s.code.size + 1 := by
        rw [← hu, after_await]
        exact Array.size_push _
      rw [hsize] at hback
      rw [hl] at hstep
      exact ⟨_, n, htable, hinit, hstep, hbody, hback, hj⟩

theorem Stmt.placed_foreach (line : Nat) (source : Expr) (strays : List Token) {head : ForeachHead} (h : head.IsPlaced) :
    (Stmt.foreach line source strays head).IsPlaced := by
  intro k bs hf hs₀
  refine ⟨fun s => (Stmt.flows_gen _ s).builds, fun s hs tidy he => ?_⟩
  rw [Stmt.gen_foreach, Gen.foreach] at he ⊢
  have first : Places k ⟨bs.blocks.push (loopBlock none)⟩ (source.gen {} none) Same _ :=
    places_valued (Expr.valued_gen _ _ _)
  have inner := first.behind fun _ => (places_reportStrays .foreach strays).behind fun _ => h k bs hf hs₀ line none
  refine (Places.inBlock (fun id => do
      source.gen {} none
      reportStrays .foreach strays
      head.gen id line none) .loop rfl (hf.lt hs₀) inner hs tidy he).mono (fun _ _ _ _ h => h) ?_
  rintro p F A ⟨C, hagree, hout, -, -, m, hsource, _, rfl, hhead⟩
  rw [Aims.exits_agree hagree] at hhead
  exact ⟨_, hsource, hhead fun op => hout op rfl⟩

/-! ### Conditionals -/

/-- The branches take up their code as their layout says, on the block of a conditional that ends where the jumps
behind the branches go. -/
def Chain.IsPlaced (c : Chain) : Prop := ∀ k bs, BlockStack.Floor bs k → 0 < bs.blocks.size →
  Places k ⟨bs.blocks.push conditionalBlock⟩ (c.gen bs.blocks.size)
    (Only bs.blocks.size (Filling.kindsOf (some .jmpz)))
    fun p F A i j => c.Occupies p F (A.exits bs) (A bs.blocks.size (some .jmp)) i j

/-- A test and the body behind it. -/
theorem places_guarded (hf : bs.Floor k) (hs₀ : 0 < bs.blocks.size) (test : Expr) (strays : List Token) {body : Stmt}
    {kinds : Option Opcode → Bool} {n : Gen Unit} {Q : Program → Code → Aims → Nat → Nat → Prop} (hb : body.IsPlaced)
    (h : Places k ⟨bs.blocks.push conditionalBlock⟩ n (Only bs.blocks.size kinds) Q) :
    Places k ⟨bs.blocks.push conditionalBlock⟩ (do
      test.gen {} none
      reportStrays .plain strays
      await bs.blocks.size .jmpz .none
      body.gen
      n) (Only bs.blocks.size kinds) fun p F A i j => ∃ m l, Emitted F (test.gen {} none) i m ∧
        F.JumpsAt .jmpz .none m (A bs.blocks.size (some .jmpz)) ∧ body.Occupies p F (A.exits bs) (m + 1) l ∧ Q p F A l j := by
  have hk := hf.lt hs₀
  have entered := get?_entered bs conditionalBlock
  refine ((places_valued (Expr.valued_gen {} none test)).behind fun _ => (places_reportStrays .plain strays).behind fun _ =>
    (places_await (Nat.le_of_lt hk) entered (.inr rfl) .jmpz .none).behind fun _ =>
    (hb k _ (hf.push hk rfl) (size_entered ..)).behind fun _ => h).weaken ?_
  rintro p F A i j ⟨m, htest, _, rfl, _, ⟨hjump, rfl⟩, l, hbody, hq⟩
  rw [exits_conditional] at hbody
  exact ⟨_, l, htest, hjump, hbody, hq⟩

theorem Chain.placed_branch (test : Expr) (strays : List Token) {body : Stmt} {rest : Chain} (hb : body.IsPlaced)
    (hr : rest.IsPlaced) : (Chain.branch test strays body rest).IsPlaced := by
  intro k bs hf hs₀
  have hk := hf.lt hs₀
  have entered := get?_entered bs conditionalBlock
  rw [Chain.gen_branch]
  unfold Gen.branch
  have settled := (places_settle (Nat.le_of_lt hk) entered (.inr rfl) (some .jmpz)).given fun _ => hr k bs hf hs₀
  cases hdone : rest.isDone with
  | true =>
      refine (places_guarded hf hs₀ test strays hb settled).weaken ?_
      rintro p F A i j ⟨m, n, htest, hjump, hbody, B, hrest, rfl⟩
      obtain ⟨hjmpz, hjmp, hexits⟩ := B.set_test bs n
      rw [hjmpz] at hjump
      rw [hexits] at hbody ⊢
      refine ⟨m, n, n, htest, hjump, hbody, ?_, hjmp ▸ hrest⟩
      rw [hdone]
      rfl
  | false =>
      refine (places_guarded hf hs₀ test strays hb
        ((places_await (Nat.le_of_lt hk) entered (.inr rfl) .jmp .none).behind fun _ => settled)).weaken ?_
      rintro p F A i j ⟨m, n, htest, hjump, hbody, _, ⟨hover, rfl⟩, B, hrest, rfl⟩
      obtain ⟨hjmpz, hjmp, hexits⟩ := B.set_test bs (n + 1)
      rw [hjmpz] at hjump
      rw [hjmp] at hover ⊢
      rw [hexits] at hbody ⊢
      refine ⟨m, n, n + 1, htest, hjump, hbody, ?_, hrest⟩
      rw [hdone]
      exact ⟨hover, rfl⟩

theorem Stmt.placed_conditional {chain : Chain} (h : chain.IsPlaced) : (Stmt.conditional chain).IsPlaced := by
  intro k bs hf hs₀
  refine ⟨fun s => (Stmt.flows_gen _ s).builds, fun s hs tidy he => ?_⟩
  refine (Places.inBlock (fun id => chain.gen id) .conditional rfl (hf.lt hs₀) (h k bs hf hs₀) hs tidy he).mono
    (fun _ _ _ _ h => h) ?_
  rintro p F A ⟨C, hagree, hout, -, -, hchain⟩
  rw [hout .jmp rfl, Aims.exits_agree hagree] at hchain
  exact hchain

/-! ### Switches -/

/-- The block of a switch, as far as it matters inside it. -/
def switchBlock : Block := { tags := [.loop, .switch], first := 0, owner := .none }

theorem exits_switch {A C : Aims} {j : Nat} (hagree : ∀ k < bs.blocks.size, C k = A k)
    (hout : C bs.blocks.size (some .jmp) = j) :
    C.exits ⟨bs.blocks.push switchBlock⟩ = (A.exits bs).inner j j := by
  rw [Aims.exits_push_switch rfl, Aims.exits_agree hagree, hout]

theorem Stmt.placed_switchWithoutBody (subject : Expr) (strays : List Token) (r : Report) :
    (Stmt.switchWithoutBody subject strays r).IsPlaced := by
  intro k bs hf hs₀
  refine ⟨fun s => (Stmt.flows_gen _ s).builds, fun s hs tidy he => ?_⟩
  rw [Stmt.gen_switchWithoutBody, Gen.switchWithoutBody] at he ⊢
  have first : Places k ⟨bs.blocks.push switchBlock⟩ (subject.gen {} none) Same _ :=
    places_valued (Expr.valued_gen _ _ _)
  have inner := first.next fun _ => (places_reportStrays .switch strays).next fun _ => places_report r.line r.problem
  refine (Places.inBlock (fun _ => do
      subject.gen {} none
      reportStrays .switch strays
      Gen.report r.line r.problem) .switch rfl (hf.lt hs₀)
    (inner.mono (fun _ _ _ _ h => h.only _ fun _ => false) fun _ _ _ _ _ h => h) hs tidy he).mono (fun _ _ _ _ h => h) ?_
  rintro p F A ⟨C, -, -, -, -, m, hsubject, l, rfl, hreport, hl⟩
  subst hl
  exact ⟨hreport, hsubject⟩

/-- The sections take up their code as their layout says, and their cases come behind those of the table they
are given.  The first default section counts. -/
def Section.ArePlaced (ss : List Section) : Prop := ∀ k bs, BlockStack.Floor bs k → 0 < bs.blocks.size → ∀ table s,
  s.blocks.shapes = bs.shapes → Tidy (s.cleared k) → (after (Section.genAll ss table) s).errors = s.errors →
  ∃ cases default?, result (Section.genAll ss table) s =
      { table with cases := table.cases ++ cases, default? := table.default?.or default? } ∧
    Placing k Same (fun p F A i j => Section.AllOccupy p F ss (A.exits bs) cases default? i j) s
      (after (Section.genAll ss table) s)

theorem Section.placed_nil : Section.ArePlaced [] := by
  intro k bs _ _ table s hs tidy he
  refine ⟨[], none, ?_, ?_⟩
  · simp [Section.genAll_nil, result_pure]
  · rw [Section.genAll_nil] at he ⊢
    have silent : Places k bs (pure table) Same _ := .silent (.pure table) fun _ => rfl
    refine (silent.placed s hs tidy he).mono (fun _ _ _ _ h => h) ?_
    intro p F A hj
    exact ⟨rfl, rfl, hj⟩

theorem places_sectionBody (hf : bs.Floor k) (hs₀ : 0 < bs.blocks.size) (strays : List Token) {body : List Stmt}
    (h : Stmt.ArePlaced body) : Places k bs (sectionBody strays (Stmt.genAll body)) Same
      fun p F A i j => Stmt.AllOccupy p F body (A.exits bs) i j := by
  unfold sectionBody
  have here : Places k bs here Same fun _ _ _ i j => j = i := .silent (Valued.get.bind fun _ => .pure _) fun _ => rfl
  refine ((places_reportAll _).next fun _ => here.next fun start => (h k bs hf hs₀).next fun _ =>
    Places.silent (.pure start) fun _ => rfl).weaken ?_
  rintro p F A i j ⟨_, rfl, _, rfl, _, hbody, rfl⟩
  exact hbody

theorem Section.placed_case (line : Nat) (guard : Expr) (strays : List Token) {body : List Stmt} {ss : List Section}
    (hb : Stmt.ArePlaced body) (hr : Section.ArePlaced ss) :
    Section.ArePlaced (.case_ line guard strays body :: ss) := by
  intro k bs hf hs₀ table s hs tidy he
  have hroot : 0 < s.blocks.blocks.size := by simpa using tidy.root
  have guarded := makes_thunk line guard.isPresent (Expr.valued_gen {} none guard) s
  have sectionBuilds := (places_sectionBody hf hs₀ strays hb).builds
  rw [Section.genAll_cons, Section.gen_case, result_bind, after_bind] at *
  generalize ht : after (thunk line guard.isPresent (guard.gen {} none)) s = t at guarded
  have hcode : t.code.size = s.code.size := by
    rw [← ht]
    rfl
  have hafter : after (caseSection line guard.isPresent (guard.gen {} none) strays (Stmt.genAll body) table) s =
      after (sectionBody strays (Stmt.genAll body)) t := by
    rw [← ht]
    rfl
  have hresult : result (caseSection line guard.isPresent (guard.gen {} none) strays (Stmt.genAll body) table) s =
      { table with cases := table.cases ++ [⟨result (thunk line guard.isPresent (guard.gen {} none)) s, t.code.size⟩] } := by
    rw [← ht]
    rfl
  rw [hafter, hresult] at he ⊢
  generalize hentry : CaseEntry.mk (result (thunk line guard.isPresent (guard.gen {} none)) s) t.code.size = e at he ⊢
  have rest := (Section.addsSections_genAll ss { table with cases := table.cases ++ [e] }
    (after (sectionBody strays (Stmt.genAll body)) t)).builds
  have hsection := ((guarded.builds.trans (sectionBuilds t)).errors_split rest he).1
  have first : Placing k Same (fun _ _ _ i j => j = i) s t := .of_spares tidy (guarded.spares hroot) guarded.builds
    (guarded.builds.errors_split (sectionBuilds t) hsection).1 fun _ _ _ _ _ _ => hcode
  have placed := (places_sectionBody hf hs₀ strays hb).behindPlaced first hs tidy hsection
  obtain ⟨cases, default?, hresult, hrest⟩ := hr k bs hf hs₀ { table with cases := table.cases ++ [e] } _
    ((placed.builds.frame.shapes hroot).trans hs) placed.tidy (placed.builds.errors_split rest he).2
  refine ⟨e :: cases, default?, ?_, (placed.seq hrest hroot).mono ?_ ?_⟩
  · rw [hresult]
    simp
  · rintro A C i j ⟨_, B, rfl, _, _, rfl, rfl⟩
    rfl
  · rintro p F A ⟨l, B, ⟨_, _, rfl, rfl⟩, ⟨_, _, rfl, rfl, hbody⟩, hsections⟩
    refine ⟨e, cases, l, rfl, ⟨s, ?_⟩, ?_, hbody, hsections⟩
    · rw [← hentry]
    · rw [← hentry, hcode]

theorem Section.placed_default (line : Nat) (strays : List Token) {body : List Stmt} {ss : List Section}
    (hb : Stmt.ArePlaced body) (hr : Section.ArePlaced ss) : Section.ArePlaced (.default_ line strays body :: ss) := by
  intro k bs hf hs₀ table s hs tidy he
  have hroot : 0 < s.blocks.blocks.size := by simpa using tidy.root
  have sectionBuilds := (places_sectionBody hf hs₀ strays hb).builds
  have warn : Places k bs (reportIf table.default?.isSome line .repeatedDefault) Same fun _ _ _ i j => j = i :=
    places_reportIf ..
  rw [Section.genAll_cons, Section.gen_default, result_bind, after_bind] at *
  generalize ht : after (reportIf table.default?.isSome line .repeatedDefault) s = t
  have hcode : t.code.size = s.code.size := by
    rw [← ht]
    unfold reportIf
    split <;> rfl
  have hafter : after (defaultSection line strays (Stmt.genAll body) table) s =
      after (sectionBody strays (Stmt.genAll body)) t := by
    rw [← ht]
    unfold defaultSection reportIf
    split <;> rfl
  have hresult : result (defaultSection line strays (Stmt.genAll body) table) s =
      { table with default? := table.default?.or (some t.code.size) } := by
    rw [← ht]
    unfold defaultSection reportIf
    split <;> rfl
  rw [hafter, hresult] at he ⊢
  have warned : Builds s t := by
    rw [← ht]
    exact warn.builds s
  have rest := (Section.addsSections_genAll ss { table with default? := table.default?.or (some t.code.size) }
    (after (sectionBody strays (Stmt.genAll body)) t)).builds
  have hsection := ((warned.trans (sectionBuilds t)).errors_split rest he).1
  have first : Placing k Same (fun _ _ _ i j => j = i) s t := by
    have := warn.placed s hs tidy (by rw [ht]; exact (warned.errors_split (sectionBuilds t) hsection).1)
    rwa [ht] at this
  have placed := (places_sectionBody hf hs₀ strays hb).behindPlaced first hs tidy hsection
  obtain ⟨cases, default?, hresult, hrest⟩ := hr k bs hf hs₀ _ _
    ((placed.builds.frame.shapes hroot).trans hs) placed.tidy (placed.builds.errors_split rest he).2
  refine ⟨cases, (some t.code.size).or default?, ?_, (placed.seq hrest hroot).mono ?_ ?_⟩
  · rw [hresult]
    simp
  · rintro A C i j ⟨_, B, rfl, _, _, rfl, rfl⟩
    rfl
  · rintro p F A ⟨l, B, ⟨_, _, rfl, rfl⟩, ⟨_, _, rfl, rfl, hbody⟩, hsections⟩
    exact ⟨default?, l, by rw [hcode]; rfl, hbody, hsections⟩

theorem Builds.reserved {s t : GenState} {table : SwitchTable} (h : Builds (after reserveSwitch s) t) :
    Builds s (after (fillSwitch s.program.switches.length table) t) where
  frame := ⟨h.frame.reports, h.frame.grows, h.frame.shapes, h.frame.exceptions⟩
  keeps := h.keeps.reserved
  foreachs := h.foreachs

theorem Placing.reserved {R : Aims → Aims → Nat → Nat → Prop} {P : Program → Code → Aims → Nat → Nat → Prop}
    {s t : GenState} (table : SwitchTable) (h : Placing k R P (after reserveSwitch s) t) :
    Placing k R (fun p F A i j => p.switches[s.program.switches.length]? = some table ∧ P p F A i j) s
      (after (fillSwitch s.program.switches.length table) t) where
  builds := h.builds.reserved
  calm := h.calm
  tidy := ⟨h.tidy.root, h.tidy.inside, h.tidy.sole⟩
  leads := by
    intro p F A hp hA
    obtain ⟨filled, completes⟩ := hp.reserved h.builds.keeps
    obtain ⟨B, hAB, hB, hP⟩ := h.leads p F A completes ⟨hA.kept, hA.aimed, hA.firsts⟩
    exact ⟨B, hAB, ⟨hB.kept, hB.aimed, hB.firsts⟩, filled, hP⟩

/-- What is generated behind the subject of a switch. -/
def switchRest (sections : SwitchTable → Gen SwitchTable) (fault : Option Report) : Gen Unit := do
  let id ← reserveSwitch
  put .switch 0 0 (.switch id)
  let table ← sections {}
  reportFault fault
  fillSwitch id { table with out := ← here }

theorem places_switchRest (hf : bs.Floor k) (hs₀ : 0 < bs.blocks.size) {ss : List Section} (h : Section.ArePlaced ss)
    (fault : Option Report) : Places k bs (switchRest (Section.genAll ss) fault) Same fun p F A i j =>
      ∃ id table, F.JumpsAt .switch (.switch id) i 0 ∧ p.switches[id]? = some table ∧ table.out = j ∧
        Section.AllOccupy p F ss (A.exits bs) table.cases table.default? (i + 1) j := by
  -- The state behind the sections, and the table that is filled in there.
  let front (s : GenState) := after (put .switch 0 0 (.switch s.program.switches.length)) (after reserveSwitch s)
  let last (s : GenState) := after (reportFault fault) (after (Section.genAll ss {}) (front s))
  let table (s : GenState) := { result (Section.genAll ss {}) (front s) with out := (last s).code.size }
  have unfolded (s : GenState) : after (switchRest (Section.genAll ss) fault) s =
      after (fillSwitch s.program.switches.length (table s)) (last s) := rfl
  have switch (id : Nat) : Places k bs (put .switch 0 0 (.switch id)) Same _ := places_put ..
  have sections (s : GenState) := (Section.addsSections_genAll ss {} s).builds
  have reported : Places k bs (reportFault fault) Same _ := places_reportFault fault
  refine ⟨fun s => ?_, fun s hs tidy he => ?_⟩
  · rw [unfolded]
    exact ((((switch _).builds _).trans (sections _)).trans (reported.builds _)).reserved
  · have hroot : 0 < s.blocks.blocks.size := by simpa using tidy.root
    rw [unfolded] at he ⊢
    have tidy' : Tidy ((after reserveSwitch s).cleared k) := ⟨tidy.root, tidy.inside, tidy.sole⟩
    have first := (switch s.program.switches.length).placed (after reserveSwitch s) hs tidy' rfl
    have hs' : (front s).blocks.shapes = bs.shapes := hs
    have hsections := ((sections (front s)).errors_split (reported.builds _) he).1
    obtain ⟨cases, default?, hresult, placed⟩ := h k bs hf hs₀ {} (front s) hs' first.tidy hsections
    have all := (reported.behindPlaced (first.seq placed hroot) hs tidy' he).reserved (table s)
    refine all.mono ?_ ?_
    · rintro A C i j ⟨_, B, rfl, _, D, rfl, rfl⟩
      rfl
    · rintro p F A ⟨hfilled, l, B, ⟨_, _, rfl, rfl⟩, ⟨_, _, rfl, ⟨hswitch, rfl⟩, hsections⟩, hl⟩
      have htable : table s = { cases := cases, default? := default?, out := (last s).code.size } := by
        show { result (Section.genAll ss {}) (front s) with out := (last s).code.size } = _
        rw [hresult]
        simp
      rw [htable] at hfilled
      rw [hl]
      exact ⟨_, _, hswitch, hfilled, hl, hsections⟩

theorem Stmt.placed_switch (subject : Expr) (strays : List Token) {ss : List Section} (fault : Option Report)
    (h : Section.ArePlaced ss) : (Stmt.switch subject strays ss fault).IsPlaced := by
  intro k bs hf hs₀
  refine ⟨fun s => (Stmt.flows_gen _ s).builds, fun s hs tidy he => ?_⟩
  rw [Stmt.gen_switch, Gen.switch] at he ⊢
  have hk := hf.lt hs₀
  have first : Places k ⟨bs.blocks.push switchBlock⟩ (subject.gen {} none) Same _ :=
    places_valued (Expr.valued_gen _ _ _)
  have inner := first.next fun _ => (places_reportStrays .switch strays).next fun _ =>
    places_switchRest (hf.push hk rfl) (size_entered ..) h fault
  refine (Places.inBlock (fun _ => do
      subject.gen {} none
      reportStrays .switch strays
      switchRest (Section.genAll ss) fault) .switch rfl hk
    (inner.mono (fun _ _ _ _ h => h.only _ fun _ => false) fun _ _ _ _ _ h => h) hs tidy he).mono (fun _ _ _ _ h => h) ?_
  rintro p F A ⟨C, hagree, hout, -, -, m, hsubject, _, rfl, id, table, hswitch, htable, hout', hsections⟩
  rw [exits_switch hagree (hout .jmp rfl)] at hsections
  exact ⟨_, id, table, hsubject, hswitch, htable, hout', (Section.ascends_of_allOccupy ss hsections).2, hsections⟩

/-! ### Protected bodies -/

/-- The block of a protected body, as far as it matters inside it. -/
def tryBlock : Block := { tags := [.exception], first := 0, owner := .none }

/-- The instruction that starts the protection, behind the table that is reserved for the clauses. -/
theorem placed_loadException (hk : k < bs.blocks.size) (table : Nat) {s : GenState}
    (hs : s.blocks.shapes = (BlockStack.mk (bs.blocks.push tryBlock)).shapes) (tidy : Tidy (s.cleared k)) :
    Placing k Same (fun _ F A i j =>
      F.JumpsAt .loadException (.exception table) i (A bs.blocks.size (some .loadException)) ∧ j = i + 1) s
      (after (await bs.blocks.size .loadException (.exception table)) (after reserveException s)) := by
  -- The table is reserved, which adds no code.
  have grown : Frame s (after reserveException s) := .reserveException
  have reserved : Placing k Same (fun _ _ _ i j => j = i) s (after reserveException s) :=
    .of_spares tidy (.still grown rfl rfl) ⟨grown, .same rfl rfl rfl, List.prefix_rfl⟩ rfl fun _ _ _ _ _ _ => rfl
  have waiting := places_await (k := k) (Nat.le_of_lt hk) (get?_entered bs tryBlock) (.inr rfl) .loadException
    (.exception table)
  refine (waiting.behindPlaced reserved hs tidy rfl).mono ?_ ?_
  · rintro A C i j ⟨_, B, rfl, rfl⟩
    rfl
  · rintro p F A ⟨_, B, rfl, rfl, hload⟩
    exact hload

/-- The end of a protected body: all the jumps on its block go to the instruction that ends the protection. -/
theorem Placing.unprotect {R : Aims → Aims → Prop} {P : Program → Code → Aims → Nat → Nat → Prop} {s t : GenState}
    (placed : Placing k (fun A B _ _ => R A B) P (after (enter [.exception] s.code.size .none none) s) t)
    (hk : k < s.blocks.blocks.size) (hR : ∀ A B, R A B → ∀ id < s.blocks.blocks.size, B id = A id) (table : Nat) :
    Placing k Same (fun p F A i j => ∃ C n, (∀ id < s.blocks.blocks.size, C id = A id) ∧
      (∃ B, R B C ∧ ∀ op, B s.blocks.blocks.size (some op) = n) ∧ P p F C i n ∧
      F.JumpsAt .popException (.exception table) n 0 ∧ j = n + 1) s
      (after leave (after (put .popException 0 0 (.exception table)) (after (settle s.blocks.blocks.size none) t))) := by
  have hroot : 0 < (after (enter [.exception] s.code.size .none none) s).blocks.blocks.size := stack_enter ..
  obtain ⟨c, hc, hshape⟩ := placed.builds.frame.innermost (innermost_enter [.exception] s.code.size .none none s)
  have htarget : c.isTarget = true := by
    rw [Block.isTarget, Block.hasAny_congr hshape]
    rfl
  have hdeferred : c.deferred = none := Block.undeferred_congr hshape rfl
  have settled := (places_settle (Nat.le_of_lt hk) hc.block (.inr htarget) none).placed t rfl placed.tidy rfl
  have popped := (places_put (k := k) .popException 0 (.exception table)).placed _ rfl settled.tidy rfl
  have all := (placed.seq settled hroot).seq popped hroot
  have hc' := placed.tidy.settled (Nat.le_of_lt hk) hc
  refine (all.inside hk rfl ?_ hc' ?_).mono (fun _ _ _ _ h => h) ?_
  · rintro A C i j ⟨_, B, rfl, _, B', rfl, h⟩ id hid
    rw [hR _ _ h id hid]
    funext kind
    exact if_neg fun hset => Nat.ne_of_lt hid hset.1
  · intro kind i ha
    cases kind with
    | none => simp [Block.Awaits, hdeferred] at ha
    | some op => exact absurd ha List.not_mem_nil
  · rintro p F A ⟨C, D, hagree, -, -, n, B, ⟨_, _, rfl, h⟩, ⟨_, _, -, hP, rfl⟩, hpop, hj⟩
    exact ⟨C, _, hagree, ⟨_, h, fun op => if_pos ⟨rfl, rfl⟩⟩, hP, hpop, hj⟩

theorem places_tryBody (hf : bs.Floor k) (hs₀ : 0 < bs.blocks.size) {body : Stmt} (h : body.IsPlaced) :
    Places k bs (tryBody body.gen) Same fun p F A i j => ∃ id n, F.JumpsAt .loadException (.exception id) i n ∧
      body.Occupies p F (A.exits bs) (i + 1) n ∧ F.JumpsAt .popException (.exception id) n 0 ∧ j = n + 1 := by
  refine ⟨fun s => (Stmt.flows_gen body _).try_.builds, fun s hs tidy he => ?_⟩
  rw [errors_tryBody] at he
  rw [after_tryBody]
  have hk := hf.lt hs₀
  have hsize : s.blocks.blocks.size = bs.blocks.size := BlockStack.size_congr hs
  have shapes : (after (enter [.exception] s.code.size .none none) s).blocks.shapes =
      (BlockStack.mk (bs.blocks.push tryBlock)).shapes := shapes_entered hs rfl
  have load := placed_loadException hk s.program.exceptions.length shapes (tidy.entered (by omega) rfl)
  rw [← hsize] at load
  have placed : Placing k (fun A B _ _ => A = B) (fun p F A i j =>
      F.JumpsAt .loadException (.exception s.program.exceptions.length) i (A s.blocks.blocks.size (some .loadException)) ∧
        body.Occupies p F (A.exits bs) (i + 1) j)
      (after (enter [.exception] s.code.size .none none) s)
      (after body.gen (after (await s.blocks.blocks.size .loadException (.exception s.program.exceptions.length))
        (after reserveException (after (enter [.exception] s.code.size .none none) s)))) := by
    refine ((h k _ (hf.push hk rfl) (size_entered ..)).behindPlaced load shapes (tidy.entered (by omega) rfl) he).mono ?_ ?_
    · rintro A C i j ⟨_, B, rfl, rfl⟩
      rfl
    · rintro p F A ⟨_, B, rfl, ⟨hload, rfl⟩, hbody⟩
      rw [Aims.exits_push rfl rfl] at hbody
      exact ⟨hload, hbody⟩
  refine (placed.unprotect (by omega) (fun A B h id _ => by rw [h]) s.program.exceptions.length).mono (fun _ _ _ _ h => h) ?_
  rintro p F A ⟨C, n, hagree, ⟨B, rfl, hout⟩, ⟨hload, hbody⟩, hpop, hj⟩
  rw [hout] at hload
  rw [Aims.exits_agree (by rw [← hsize]; exact hagree)] at hbody
  exact ⟨_, n, hload, hbody, hpop, hj⟩

/-- The bodies of catch clauses fill containers of their own. -/
theorem CatchClause.code_genAll (table : Nat) (cs : List CatchClause) (s : GenState) :
    (after (CatchClause.genAll table cs) s).code = s.code := by
  induction cs generalizing s with
  | nil =>
      rfl
  | cons c cs ih =>
      rw [CatchClause.genAll_cons, after_bind, ih]
      cases c with
      | malformed r =>
          rfl
      | clause className binding body =>
          rfl

theorem Stmt.placed_tryCatch {body : Stmt} (clauses : List CatchClause) (fault : Option Report) (h : body.IsPlaced) :
    (Stmt.tryCatch body clauses fault).IsPlaced := by
  intro k bs hf hs₀
  refine ⟨fun s => (Stmt.flows_gen _ s).builds, fun s hs tidy he => ?_⟩
  rw [Stmt.gen_tryCatch, Gen.tryCatch, after_bind, after_bind] at he ⊢
  have hroot : 0 < s.blocks.blocks.size := by simpa using tidy.root
  have protects := places_tryBody hf hs₀ h
  have reported : Places k bs (reportFault fault) Same _ := places_reportFault fault
  have htable : result (tryBody body.gen) s < (after (tryBody body.gen) s).program.exceptions.length := by
    have grown := (Stmt.flows_gen body (after (await s.blocks.blocks.size .loadException
      (.exception s.program.exceptions.length))
      (after reserveException (after (enter [.exception] s.code.size .none none) s)))).frame.exceptions
    refine Nat.lt_of_lt_of_le ?_ grown
    rw [after_await, after_reserveException, List.length_append]
    exact Nat.lt_succ_self _
  have run := CatchClause.run_genAll (result (tryBody body.gen) s) clauses _ htable
  have front := (((protects.builds s).trans run.builds).errors_split (reported.builds _) he).1
  obtain ⟨first, second⟩ := (protects.builds s).errors_split run.builds front
  have body := protects.placed s hs tidy first
  have caught : Placing k Same (fun _ _ _ i j => j = i) (after (tryBody _) s) _ :=
    .of_spares body.tidy (run.spares (by simpa using body.tidy.root)) run.builds second fun _ _ _ _ _ _ =>
      congrArg Array.size (CatchClause.code_genAll _ clauses _)
  refine (reported.behindPlaced (body.seq caught hroot) hs tidy he).mono ?_ ?_
  · rintro A C i j ⟨_, B, rfl, _, _, rfl, rfl⟩
    rfl
  · rintro p F A ⟨l, B, ⟨_, _, rfl, rfl⟩, ⟨_, _, rfl, hbody, rfl⟩, hl⟩
    subst hl
    exact hbody

/-! ### Statements in braces -/

/-- The end of a block that is no target: nothing waits on it. -/
theorem Placing.unbrace {R : Aims → Aims → Prop} {P : Program → Code → Aims → Nat → Nat → Prop} {s t : GenState}
    (placed : Placing k (fun A B _ _ => R A B) P (after (enter [.braces] s.code.size .none none) s) t)
    (hk : k < s.blocks.blocks.size) (hR : ∀ A B, R A B → ∀ id < s.blocks.blocks.size, B id = A id) :
    Placing k Same (fun p F A i j => ∃ C, (∀ id < s.blocks.blocks.size, C id = A id) ∧ P p F C i j) s (after leave t) := by
  have entered := innermost_enter [.braces] s.code.size .none none s
  obtain ⟨c, hc, hshape⟩ := placed.builds.frame.innermost entered
  have hpending : c.pending = [] := placed.calm _ _ c (by omega) entered.block hc.block rfl
  have hdeferred : c.deferred = none := Block.undeferred_congr hshape rfl
  refine (placed.inside hk rfl (fun A B _ _ => hR A B) hc fun kind i ha => ?_).mono (fun _ _ _ _ h => h) ?_
  · cases kind <;> simp [Block.Awaits, hpending, hdeferred] at ha
  · rintro p F A ⟨C, D, hagree, -, -, h⟩
    exact ⟨C, hagree, h⟩

theorem Stmt.placed_block {items : List Stmt} (unclosed : Option Nat) (h : Stmt.ArePlaced items) :
    (Stmt.block items unclosed).IsPlaced := by
  intro k bs hf hs₀
  refine ⟨fun s => (Stmt.flows_gen _ s).builds, fun s hs tidy he => ?_⟩
  have hk := hf.lt hs₀
  have hsize : s.blocks.blocks.size = bs.blocks.size := BlockStack.size_congr hs
  have placed := ((h k ⟨bs.blocks.push bracesBlock⟩ (hf.push hk rfl) (size_entered ..)).next fun _ =>
    places_reportFault (unclosed.map fun line => ⟨line, .unclosedBlock⟩)).placed
      (after (enter [.braces] s.code.size .none none) s) (shapes_entered hs rfl) (tidy.entered (by omega) rfl) he
  refine (placed.unbrace (R := fun A B => A = B) (by omega) fun A B h id _ => by rw [h]).mono (fun _ _ _ _ h => h) ?_
  rintro p F A ⟨C, hagree, l, hitems, rfl⟩
  rw [Aims.exits_push rfl rfl, Aims.exits_agree (by rw [← hsize]; exact hagree)] at hitems
  exact hitems

/-! ### Whole statements -/

/-- A statement that is generated like an expression. -/
theorem Stmt.placed_valued {s : Stmt} (h : Valued s.gen)
    (ho : ∀ p F exits i j, Emitted F s.gen i j → s.Occupies p F exits i j) : s.IsPlaced :=
  fun _ _ _ _ => (places_valued h).weaken fun p F _ i j => ho p F _ i j

end Constructs

mutual

theorem Stmt.placed : (s : Stmt) → s.IsPlaced
  | .empty => fun k bs _ _ => by
    refine (Places.silent (.pure ()) fun _ => rfl).weaken fun p F A i j h => ?_
    exact h
  | .sequence items => fun k bs hf hs => by
    refine (Stmt.all_placed items k bs hf hs).weaken fun p F A i j h => ?_
    exact h
  | .namespace_ line items => fun k bs hf hs => by
    have noted : Places k bs (noteNamespaces line) Same fun _ _ _ i j => j = i := by
      refine .silent (valued_noteNamespaces line) fun s => ?_
      unfold noteNamespaces
      rw [after_bind, result_get, after_get]
      split <;> rfl
    refine (noted.next fun _ => Stmt.all_placed items k bs hf hs).weaken ?_
    rintro p F A i j ⟨_, rfl, h⟩
    exact h
  | .onLine line body => fun k bs hf hs => by
    have mark : Places k bs markBoundary Same fun _ _ _ i j => j = i := .silent valued_markBoundary fun _ => rfl
    refine ((Places.silent (valued_setLine line) fun _ => rfl).next fun _ => mark.next fun _ =>
      (Stmt.placed body k bs hf hs).next fun _ => mark).weaken ?_
    rintro p F A i j ⟨_, rfl, _, rfl, _, h, rfl⟩
    exact h
  | .block items unclosed => Stmt.placed_block unclosed (Stmt.all_placed items)
  | .conditional chain => Stmt.placed_conditional (Chain.placed chain)
  | .switch subject strays sections fault => Stmt.placed_switch subject strays fault (Section.all_placed sections)
  | .switchWithoutBody subject strays r => Stmt.placed_switchWithoutBody subject strays r
  | .whileLoop test strays body => Stmt.placed_whileLoop test strays (Stmt.placed body)
  | .doLoop body test strays => Stmt.placed_doLoop test strays (Stmt.placed body)
  | .doWithoutTest body r => Stmt.placed_doWithoutTest r (Stmt.placed body)
  | .forLoop line init test afterTest body post afterPost =>
    Stmt.placed_forLoop line test afterTest post afterPost (Stmt.placed init) (Stmt.placed body)
  | .foreach line source strays head => Stmt.placed_foreach line source strays (ForeachHead.placed head)
  | .tryCatch body clauses fault => Stmt.placed_tryCatch clauses fault (Stmt.placed body)
  | .throw line value => Stmt.placed_throw line value
  | .loopJump jump line level unterminated => Stmt.placed_loopJump jump line level unterminated
  | .report r =>
    Stmt.placed_valued (valued_report _ _) fun _ _ _ _ _ h => h
  | .raw text =>
    Stmt.placed_valued (valued_raw text) fun _ _ _ _ _ h => h
  | .expression value =>
    Stmt.placed_valued (valued_expression _ (Expr.valued_gen _ _ value)) fun _ _ _ _ _ h => h
  | .return_ value =>
    Stmt.placed_valued (valued_return_ _ (Expr.valued_gen _ _ value)) fun _ _ _ _ _ h => h
  | .exit value =>
    Stmt.placed_valued (valued_exit _ (Expr.valued_gen _ _ value)) fun _ _ _ _ _ h => h
  | .constant name line value =>
    Stmt.placed_valued (valued_constant name line _ (Expr.valued_gen _ _ value)) fun _ _ _ _ _ h => h
  | .declaration type items fault =>
    Stmt.placed_valued ((Declarator.valued_genAll type items).bind fun _ => valued_reportFault fault) fun _ _ _ _ _ h => h
  | .using_ line =>
    Stmt.placed_valued (valued_noteNamespaces line) fun _ _ _ _ _ h => h
  | .function head params fault body =>
    Stmt.placed_valued (valued_function head (Parameter.makes_genAll params) fault (Stmt.flows_gen body)) fun _ _ _ _ _ h => h
  | .class_ head members fault =>
    Stmt.placed_valued (valued_class_ head (Member.addsMembers_genAll members) fault) fun _ _ _ _ _ h => h

theorem Stmt.all_placed : (ss : List Stmt) → Stmt.ArePlaced ss
  | [] => fun k bs _ _ => by
    refine (Places.silent (.pure ()) fun _ => rfl).weaken fun p F A i j h => ?_
    exact h
  | s :: ss => fun k bs hf hs => by
    refine ((Stmt.placed s k bs hf hs).next fun _ => Stmt.all_placed ss k bs hf hs).weaken fun p F A i j h => ?_
    exact h

theorem Chain.placed : (c : Chain) → c.IsPlaced
  | .branch test strays body rest => Chain.placed_branch test strays (Stmt.placed body) (Chain.placed rest)
  | .otherwise body => fun k bs hf hs => by
    have hk := hf.lt hs
    refine (Stmt.placed body k _ (hf.push hk rfl) (size_entered ..)).mono (fun _ _ _ _ h => h.only _ _) fun p F A i j h => ?_
    rw [exits_conditional] at h
    exact h
  | .malformed r => fun k bs _ _ => by
    refine (places_report r.line r.problem).mono (fun _ _ _ _ h => h.only _ _) fun p F A i j h => ?_
    exact h.2
  | .done => fun k bs _ _ => by
    refine (Places.silent (.pure ()) fun _ => rfl).mono (fun _ _ _ _ h => h.only _ _) fun p F A i j h => ?_
    exact h

theorem Section.all_placed : (ss : List Section) → Section.ArePlaced ss
  | [] => Section.placed_nil
  | .case_ line guard strays body :: ss => Section.placed_case line guard strays (Stmt.all_placed body) (Section.all_placed ss)
  | .default_ line strays body :: ss => Section.placed_default line strays (Stmt.all_placed body) (Section.all_placed ss)

theorem ForeachHead.placed : (h : ForeachHead) → h.IsPlaced
  | .malformed problem => fun k bs _ _ line key => by
    refine (places_report line problem).mono (fun _ _ _ _ h => h.only _ _) fun p F A i j h _ => ?_
    exact h
  | .unbound bindingLine binding => fun k bs _ _ line key => by
    have binds := Expr.valued_gen {} (some .foreachTarget) binding
    exact ⟨fun s => (valued_unbound bindingLine binds s).builds,
      fun s _ _ he => ((refuses_unbound bindingLine binds.logs).told s he).elim⟩
  | .key name binding rest => fun k bs hf hs line key => by
    refine ((places_discarding (Expr.valued_gen _ _ binding)).behind fun _ =>
      ForeachHead.placed rest k bs hf hs line (some name)).weaken ?_
    rintro p F A i j ⟨_, rfl, h⟩ hout
    exact h hout
  | .value byRef name binding body => fun k bs hf hs line key => by
    refine ((places_discarding (Expr.valued_gen _ _ binding)).behind fun _ =>
      places_foreachLoop hf hs ⟨key, name, byRef⟩ (Stmt.placed body)).weaken ?_
    rintro p F A i j ⟨_, rfl, h⟩ hout
    exact h hout

end

end StackScript
