/-
The code of a structured script fits it.

`Laid` says of a piece of code generation what is known of its code when the container is finished: given
where the jumps go that still wait at its end, where those go that wait at its start, and what the piece has
become.  Pieces are put together with `Laid.seq`, and a block around them tells where its own jumps go with
`Lays.inBlock`.  The construct that a block stands for then fits its code.
-/
import StackScript.Proofs.Level
import StackScript.Proofs.Targets
import StackScript.Proofs.Walk

namespace StackScript

open Gen

/-! ### Where `break` and `continue` go -/

namespace BlockStack

variable {bs cs : BlockStack}

/-- A search for an enclosing block looks at tags only. -/
theorem enclosing?_congr (h : cs.shapes = bs.shapes) (tags : List BlockTag) (level : Nat) :
    cs.enclosing? tags level = bs.enclosing? tags level := by
  have same : ∀ n count, cs.enclosingFrom tags n count = bs.enclosingFrom tags n count := by
    intro n
    induction n with
    | zero => exact fun _ => rfl
    | succ n ih =>
        intro count
        unfold enclosingFrom
        cases hb : bs.get? n with
        | none =>
            have hnone : cs.get? n = none := by
              rw [get?, Array.getElem?_eq_none_iff, size_congr h]
              exact Array.getElem?_eq_none_iff.mp hb
            rw [hnone]
        | some b =>
            obtain ⟨c, hc, hshape⟩ := get?_congr h hb
            rw [hc]
            simp only [Block.isBoundary, Block.hasAny_congr hshape, ih]
            rfl
  unfold enclosing?
  rw [size_congr h, same]

/-- A search stays among the blocks it looks at. -/
theorem enclosingFrom_lt {tags : List BlockTag} {n count id : Nat} (h : bs.enclosingFrom tags n count = some id) :
    id < n := by
  induction n generalizing count with
  | zero => cases h
  | succ n ih =>
      unfold enclosingFrom at h
      split at h
      · cases h
      · split at h
        · cases h
          exact Nat.lt_succ_self _
        · split at h
          · cases h
          · exact Nat.lt_succ_of_lt (ih h)

theorem enclosingFrom_push {b : Block} (tags : List BlockTag) (n count : Nat) (hn : n ≤ bs.blocks.size) :
    (BlockStack.mk (bs.blocks.push b)).enclosingFrom tags n count = bs.enclosingFrom tags n count := by
  induction n generalizing count with
  | zero => rfl
  | succ n ih =>
      unfold enclosingFrom
      rw [get?_push, if_neg (by omega)]
      simp only [ih _ (Nat.le_of_succ_le hn)]

theorem enclosing?_push (b : Block) (tags : List BlockTag) (level : Nat) :
    (BlockStack.mk (bs.blocks.push b)).enclosing? tags level =
      if b.hasAny tags && level ≤ 1 then some bs.blocks.size
      else if b.isBoundary then none
      else bs.enclosing? tags (if b.hasAny tags then level - 1 else level) := by
  unfold enclosing?
  rw [Array.size_push, enclosingFrom, get?_push, if_pos rfl]
  simp only [enclosingFrom_push _ _ _ (Nat.le_refl _)]

end BlockStack

namespace Aims

variable {A B : Aims} {bs cs : BlockStack}

/-- What a jump on a block waits for there; a `continue` of a switch leaves it. -/
def kindOn (bs : BlockStack) (jump : LoopJump) (id : Nat) : Option Opcode :=
  if jump = .break_ || (bs.get? id).any (·.hasAny [.switch]) then some .jmp else none

/-- The targets of `break` and `continue`. -/
def exits (A : Aims) (bs : BlockStack) : Exits := fun jump level =>
  (bs.enclosing? [.loop] level).map fun id => A id (kindOn bs jump id)

/-- The target of a jump whose loop is known. -/
theorem exits_of_enclosing {level id : Nat} {b : Block} (hid : bs.enclosing? [.loop] level = some id)
    (hb : bs.get? id = some b) (jump : LoopJump) :
    A.exits bs jump level = some (A id (if jump = .break_ || b.hasAny [.switch] then some .jmp else none)) := by
  simp only [exits, hid, Option.map_some, kindOn, hb, Option.any_some]

theorem exits_agree (h : ∀ k < bs.blocks.size, B k = A k) : B.exits bs = A.exits bs := by
  funext jump level
  unfold exits
  cases hid : bs.enclosing? [.loop] level with
  | none => rfl
  | some id => simp only [Option.map_some, h id (BlockStack.enclosingFrom_lt hid)]

/-- Filling in the jumps of a later block moves no `break` or `continue` of the blocks before it. -/
theorem exits_set {id : Nat} (hid : bs.blocks.size ≤ id) (kinds : Option Opcode → Bool) (target : Nat) :
    (A.set id kinds target).exits bs = A.exits bs :=
  exits_agree fun _ hk => funext fun _ => if_neg fun h => Nat.ne_of_lt (Nat.lt_of_lt_of_le hk hid) h.1

theorem kindOn_push (b : Block) (jump : LoopJump) {id : Nat} (hid : id < bs.blocks.size) :
    kindOn ⟨bs.blocks.push b⟩ jump id = kindOn bs jump id := by
  unfold kindOn
  rw [BlockStack.get?_push, if_neg (Nat.ne_of_lt hid)]

/-- Jumps do not stop at a block that is no loop. -/
theorem exits_push {b : Block} (hloop : b.hasAny [.loop] = false) (hout : b.isBoundary = false) :
    A.exits ⟨bs.blocks.push b⟩ = A.exits bs := by
  funext jump level
  unfold exits
  rw [BlockStack.enclosing?_push, hloop, hout]
  simp only [Bool.false_and, Bool.false_eq_true, if_false]
  cases hid : bs.enclosing? [.loop] level with
  | none => rfl
  | some id => simp only [Option.map_some, kindOn_push b jump (BlockStack.enclosingFrom_lt hid)]

/-- The jumps of one level stop at a loop, and a `continue` of a switch leaves it like a `break`. -/
theorem exits_push_stop {b : Block} (hloop : b.hasAny [.loop] = true) (hout : b.isBoundary = false) :
    A.exits ⟨bs.blocks.push b⟩ = (A.exits bs).inner (A bs.blocks.size (some .jmp))
      (A bs.blocks.size (if b.hasAny [.switch] then some .jmp else none)) := by
  funext jump level
  unfold exits Exits.inner
  rw [BlockStack.enclosing?_push, hloop, hout]
  by_cases hlevel : level ≤ 1
  · simp only [hlevel, decide_true, Bool.and_self, if_true, Option.map_some, kindOn]
    rw [BlockStack.get?_push, if_pos rfl]
    cases jump <;> simp
  · simp only [hlevel, decide_false, Bool.and_false, Bool.false_eq_true, if_false, if_true]
    cases hid : bs.enclosing? [.loop] (level - 1) with
    | none => rfl
    | some id => simp only [Option.map_some, kindOn_push b jump (BlockStack.enclosingFrom_lt hid)]

theorem exits_push_loop {b : Block} (htags : b.tags = [.loop]) :
    A.exits ⟨bs.blocks.push b⟩ =
      (A.exits bs).inner (A bs.blocks.size (some .jmp)) (A bs.blocks.size none) := by
  have hswitch : b.hasAny [.switch] = false := by
    rw [Block.hasAny, htags]
    rfl
  rw [exits_push_stop (by rw [Block.hasAny, htags]; rfl) (by rw [Block.isBoundary, Block.hasAny, htags]; rfl), hswitch]
  rfl

theorem exits_push_switch {b : Block} (htags : b.tags = [.loop, .switch]) :
    A.exits ⟨bs.blocks.push b⟩ =
      (A.exits bs).inner (A bs.blocks.size (some .jmp)) (A bs.blocks.size (some .jmp)) := by
  have hswitch : b.hasAny [.switch] = true := by
    rw [Block.hasAny, htags]
    rfl
  rw [exits_push_stop (by rw [Block.hasAny, htags]; rfl) (by rw [Block.isBoundary, Block.hasAny, htags]; rfl), hswitch]
  rfl

end Aims

/-! ### Pieces of code -/

/-- The code of a segment is what its expression has generated, and it is left only at its end. -/
structure Segment.IsCode (F : Code) (g : Segment) : Prop where
  generated : ∃ s : GenState, s.code.size = g.start ∧ (after (g.expr.gen {} none) s).code.size = g.stop ∧
    Holds F g.start (after (g.expr.gen {} none) s).code
  steady : ∀ (i : Nat) (x : Instruction), g.start ≤ i → i < g.stop → F[i]? = some x → Steady g.start g.stop x

/-- The segments of a sheet between two indices. -/
def Sheet.Reads (S : Sheet) (at? : Nat → Option Segment) (m n : Nat) : Prop :=
  ∀ i, m ≤ i → i < n → S.at? i = at? i

/-- The targets at the end of a piece are those at its start. -/
def Same (A B : Aims) (_ _ : Nat) : Prop := A = B

/-- Only some jumps on a block get their targets within a piece. -/
def Only (id : Nat) (kinds : Option Opcode → Bool) (A B : Aims) (_ _ : Nat) : Prop :=
  ∀ k kind, ¬(k = id ∧ kinds kind = true) → B k kind = A k kind

theorem Same.only {A B : Aims} {i j : Nat} (h : Same A B i j) (id : Nat) (kinds : Option Opcode → Bool) :
    Only id kinds A B i j := by
  cases h
  exact fun _ _ _ => rfl

/-- What a piece of code generation has become when the container is finished.  `R` tells from the targets at
its end those at its start, and `P` what lies between its two ends. -/
structure Laid (R : Aims → Aims → Nat → Nat → Prop) (P : Sheet → Aims → Nat → Nat → Prop) (s t : GenState) :
    Prop where
  frame : Frame s t
  /-- Jumps wait on loops and conditionals only. -/
  calm : ∀ id b c, s.blocks.get? id = some b → t.blocks.get? id = some c →
    b.hasAny [.loop, .conditional] = false → c.pending = b.pending
  tidy : Tidy t
  fits : ∃ at? : Nat → Option Segment, ∀ F A, Leads F A t → ∃ B, R A B s.code.size t.code.size ∧ Leads F B s ∧
    (∀ i g, s.code.size ≤ i → i < t.code.size → at? i = some g → g.start = i ∧ g.IsCode F) ∧
    ∀ S : Sheet, S.code = F → S.Reads at? s.code.size t.code.size → P S B s.code.size t.code.size

namespace Laid

variable {R R' : Aims → Aims → Nat → Nat → Prop} {P Q : Sheet → Aims → Nat → Nat → Prop} {s t u : GenState}

theorem mono (h : Laid R P s t) (hR : ∀ A B i j, R A B i j → R' A B i j)
    (hP : ∀ S B, P S B s.code.size t.code.size → Q S B s.code.size t.code.size) : Laid R' Q s t where
  frame := h.frame
  calm := h.calm
  tidy := h.tidy
  fits := by
    obtain ⟨at?, fits⟩ := h.fits
    refine ⟨at?, fun F A hA => ?_⟩
    obtain ⟨B, hAB, hB, hsegments, hp⟩ := fits F A hA
    exact ⟨B, hR A B _ _ hAB, hB, hsegments, fun S hS hreads => hP S B (hp S hS hreads)⟩

theorem seq (h : Laid R P s t) (h' : Laid R' Q t u) (hs : 0 < s.blocks.blocks.size) :
    Laid (fun A C i j => ∃ m B, R' A B m j ∧ R B C i m)
      (fun S C i j => ∃ m B, R B C i m ∧ P S C i m ∧ Q S B m j) s u where
  frame := h.frame.trans h'.frame
  calm := by
    intro id b d hb hd hnone
    obtain ⟨c, hc, hshape⟩ := BlockStack.get?_congr (h.frame.shapes hs) hb
    rw [h'.calm id c d hc hd (by rw [Block.hasAny_congr hshape]; exact hnone), h.calm id b c hb hc hnone]
  tidy := h'.tidy
  fits := by
    have hst := h.frame.grows
    have htu := h'.frame.grows
    obtain ⟨f, fits⟩ := h.fits
    obtain ⟨f', fits'⟩ := h'.fits
    refine ⟨fun i => if i < t.code.size then f i else f' i, fun F A hA => ?_⟩
    obtain ⟨B, hAB, hB, hsegments', hq⟩ := fits' F A hA
    obtain ⟨C, hBC, hC, hsegments, hp⟩ := fits F B hB
    refine ⟨C, ⟨t.code.size, B, hAB, hBC⟩, hC, fun i g hi hlt hg => ?_, fun S hS hreads => ?_⟩
    · dsimp only at hg
      split at hg
      · exact hsegments i g hi ‹_› hg
      · exact hsegments' i g (by omega) hlt hg
    · refine ⟨t.code.size, B, hBC, hp S hS fun i hi hlt => ?_, hq S hS fun i hi hlt => ?_⟩
      · exact (hreads i hi (by omega)).trans (if_pos hlt)
      · exact (hreads i (by omega) hlt).trans (if_neg (by omega))

/-- A piece that leaves the blocks alone. -/
theorem of_spares (tidy : Tidy s) (h : Spares s t) (clean : t.reports = s.reports) (at? : Nat → Option Segment)
    (hsegments : ∀ F, Holds F s.code.size t.code → ∀ i g, s.code.size ≤ i → i < t.code.size → at? i = some g →
      g.start = i ∧ g.IsCode F)
    (hP : ∀ S B, Leads S.code B s → Holds S.code s.code.size t.code → S.Reads at? s.code.size t.code.size →
      P S B s.code.size t.code.size) : Laid Same P s t where
  frame := h.frame
  calm := by
    intro id b c hb hc _
    rw [h.blocks, hb] at hc
    cases hc
    rfl
  tidy := tidy.spares h
  fits := by
    refine ⟨at?, fun F A hA => ?_⟩
    have leads := hA.spares h (by rw [GenState.errors, GenState.errors, clean])
    refine ⟨A, rfl, leads, hsegments F (hA.added tidy h), ?_⟩
    intro S hS hreads
    subst hS
    exact hP S A leads (hA.added tidy h) hreads

/-- One instruction that belongs to no expression. -/
theorem put (tidy : Tidy s) (op : Opcode) (p1 : Int) (p2 : Nat) (p3 : Operand) :
    Laid Same (fun S _ i j => S.at? i = none ∧ S.code[i]? = some ⟨op, p1, p2, p3, s.buffer.line⟩ ∧ j = i + 1) s
      (after (Gen.put op p1 p2 p3) s) := by
  refine of_spares tidy (.put op p1 p2 p3) rfl (fun _ => none) (fun _ _ _ _ _ _ hg => by cases hg) fun S B _ hS hreads => ?_
  rw [after_put, Array.size_push] at hreads
  rw [after_put] at hS
  refine ⟨hreads _ (Nat.le_refl _) (Nat.lt_succ_self _), hS.last (Nat.le_refl _), ?_⟩
  rw [after_put, Array.size_push]

/-- A step on a block that jumps may wait on. -/
theorem calm_modify {id : Nat} {b : Block} {f : Block → Block} (hblocks : t.blocks = s.blocks.modify id f)
    (hb : s.blocks.get? id = some b) (htags : b.hasAny [.loop, .conditional] = true) (k : Nat) (c d : Block)
    (hc : s.blocks.get? k = some c) (hd : t.blocks.get? k = some d) (hnone : c.hasAny [.loop, .conditional] = false) :
    d.pending = c.pending := by
  rw [hblocks, BlockStack.get?_modify] at hd
  split at hd
  · rename_i hk
    subst hk
    rw [hb] at hc
    cases hc
    exact absurd (htags.symm.trans hnone) (by decide)
  · rw [hc] at hd
    cases hd
    rfl

/-- A jump that waits on a block. -/
theorem wait {id : Nat} {kind : Option Opcode} {x : Instruction} {b : Block} {f : Block → Block} (tidy : Tidy s)
    (h : Waiting id kind x s t) (frame : Frame s t) (hblocks : t.blocks = s.blocks.modify id f)
    (hb : s.blocks.get? id = some b) (htags : b.hasAny [.loop, .conditional] = true) :
    Laid Same (fun S B i j => S.at? i = none ∧ S.code[i]? = some { x with p2 := B id kind } ∧ j = i + 1) s t where
  frame := frame
  calm := calm_modify hblocks hb htags
  tidy := h.tidy tidy
  fits := by
    have hsize : t.code.size = s.code.size + 1 := by rw [h.code, Array.size_push]
    refine ⟨fun _ => none, fun F A hA => ⟨A, rfl, h.leads hA, fun _ _ _ _ hg => (by cases hg), fun S hS hreads => ?_⟩⟩
    refine ⟨hreads _ (Nat.le_refl _) (by omega), ?_, hsize⟩
    rw [hS]
    exact h.instruction hA

/-- The jumps of some kinds on a block are filled in. -/
theorem fill {id : Nat} {kinds : Option Opcode → Bool} {b : Block} {f : Block → Block} (tidy : Tidy s)
    (h : Filling id kinds s.code.size s t) (frame : Frame s t) (hblocks : t.blocks = s.blocks.modify id f)
    (hb : s.blocks.get? id = some b) (htags : b.hasAny [.loop, .conditional] = true)
    (hnone : kinds none = true → b.deferred.isSome = true) :
    Laid (fun A B _ j => B = A.set id kinds j) (fun _ _ i j => j = i) s t where
  frame := frame
  calm := calm_modify hblocks hb htags
  tidy := h.tidy tidy
  fits := by
    refine ⟨fun _ => none, fun F A hA => ⟨A.set id kinds s.code.size, by rw [h.length], h.leads tidy (fun hkind c hc => ?_) hA,
      fun _ _ _ _ hg => (by cases hg), fun _ _ _ => h.length⟩⟩
    obtain rfl : c = b := Option.some.inj (hc.symm.trans hb)
    exact hnone hkind

end Laid

/-- Nothing has been reported earlier where nothing has been later. -/
theorem Frame.clean {s t : GenState} (h : Frame s t) (clean : t.reports = []) : s.reports = [] := by
  have hreports := h.reports
  rw [clean] at hreports
  exact List.prefix_nil.mp hreports

/-- A generator that lays out its code as told, inside blocks of some shape, unless it reports something. -/
structure Lays (bs : BlockStack) (m : Gen Unit) (R : Aims → Aims → Nat → Nat → Prop)
    (P : Sheet → Aims → Nat → Nat → Prop) : Prop where
  framed : ∀ s, Frame s (after m s)
  laid : ∀ s, s.blocks.shapes = bs.shapes → Tidy s → (after m s).reports = [] → Laid R P s (after m s)

namespace Lays

variable {bs : BlockStack} {m n : Gen Unit} {R R' : Aims → Aims → Nat → Nat → Prop}
  {P Q : Sheet → Aims → Nat → Nat → Prop} {id : Nat} {kinds : Option Opcode → Bool}

theorem mono (h : Lays bs m R P) (hR : ∀ A B i j, R A B i j → R' A B i j) (hP : ∀ S B i j, P S B i j → Q S B i j) :
    Lays bs m R' Q where
  framed := h.framed
  laid := fun s hs tidy clean => (h.laid s hs tidy clean).mono hR fun S B => hP S B _ _

theorem bind (h : Lays bs m R P) (h' : Lays bs n R' Q) :
    Lays bs (do m; n) (fun A C i j => ∃ l B, R' A B l j ∧ R B C i l)
      fun S C i j => ∃ l B, R B C i l ∧ P S C i l ∧ Q S B l j where
  framed := fun s => (h.framed s).trans (h'.framed _)
  laid := by
    intro s hs tidy clean
    have laid := h.laid s hs tidy ((h'.framed _).clean clean)
    exact laid.seq (h'.laid _ ((laid.frame.shapes tidy.root).trans hs) laid.tidy clean) tidy.root

/-- A piece in front that gives no targets. -/
theorem behind (h : Lays bs m Same P) (h' : Lays bs n (Only id kinds) Q) :
    Lays bs (do m; n) (Only id kinds) fun S A i j => ∃ l, P S A i l ∧ Q S A l j := by
  refine (h.bind h').mono ?_ ?_
  · rintro A C i j ⟨_, B, h, rfl⟩
    exact h
  · rintro S C i j ⟨l, B, rfl, hp, hq⟩
    exact ⟨l, hp, hq⟩

/-- A piece in front that gives a target. -/
theorem given (h : Lays bs m (fun A B _ j => B = A.set id kinds j) fun _ _ i j => j = i)
    (h' : Lays bs n (Only id kinds) Q) :
    Lays bs (do m; n) (Only id kinds) fun S A i j =>
      ∃ B, Q S B i j ∧ A = B.set id kinds i := by
  refine (h.bind h').mono ?_ ?_
  · rintro A C i j ⟨_, B, h, rfl⟩ k kind hk
    rw [Aims.set, if_neg hk]
    exact h k kind hk
  · rintro S C i j ⟨l, B, hC, rfl, hq⟩
    exact ⟨B, hq, hC⟩

theorem next (h : Lays bs m Same P) (h' : Lays bs n Same Q) :
    Lays bs (do m; n) Same fun S A i j => ∃ l, P S A i l ∧ Q S A l j := by
  refine (h.bind h').mono ?_ ?_
  · rintro A C i j ⟨_, B, rfl, rfl⟩
    rfl
  · rintro S C i j ⟨l, B, rfl, hp, hq⟩
    exact ⟨l, hp, hq⟩

theorem assoc {k : Gen Unit} (h : Lays bs (do (do m; n); k) R P) : Lays bs (do m; n; k) R P := ⟨h.framed, h.laid⟩

/-- A generator that adds no code and leaves the blocks alone. -/
theorem silent (h : Valued m) (hcode : ∀ s, (after m s).reports = [] → (after m s).code = s.code) :
    Lays bs m Same fun _ _ i j => j = i where
  framed := fun s => (h s).frame
  laid := by
    intro s _ tidy clean
    refine .of_spares tidy ((h s).spares tidy.root) (by rw [clean, (h s).frame.clean clean]) (fun _ => none) (fun _ _ _ _ _ _ hg => by cases hg) ?_
    intro _ _ _ _ _
    rw [hcode s clean]

end Lays

/-! ### The parts of constructs -/

section Parts

variable {bs : BlockStack} {e : Expr} {id : Nat} {b : Block}

theorem lays_passes (he : e.isPresent = true) : Lays bs (e.gen {} none) Same fun S _ i j => S.Passes e i j where
  framed := fun s => (Expr.valued_gen {} none e s).frame
  laid := by
    intro s _ tidy clean
    have run := Expr.valued_gen {} none e s
    have level := run.level (by rw [GenState.errors, clean]; rfl)
    have grown : s.code.size < (after (e.gen {} none) s).code.size := by
      cases e with
      | missing => cases he
      | rejected _ => cases he
      | tree root =>
          have emits : Emits (Expr.gen {} none (.tree root)) := by
            exact .behind (valued_restrict _ _) fun _ => Leaf.emits_genTree {} root
          rcases (emits s).2 with h | h
          · exact h
          · rw [GenState.errors, GenState.errors, clean, run.frame.clean clean] at h
            exact absurd h (Nat.lt_irrefl _)
    refine .of_spares tidy (run.spares tidy.root) (by rw [clean, run.frame.clean clean])
      (fun i => if i = s.code.size then some ⟨i, (after (e.gen {} none) s).code.size, e⟩ else none) ?_ ?_
    · intro F hF i g _ _ hg
      split at hg
      · rename_i hi
        cases hg
        subst hi
        refine ⟨rfl, ⟨s, rfl, rfl, hF⟩, fun k x hk hlt hx => ?_⟩
        rw [hF k hk hlt] at hx
        exact level.fresh k x hk hx
      · cases hg
    · intro S B _ _ hreads
      exact (hreads _ (Nat.le_refl _) grown).trans (if_pos rfl)

theorem lays_absent (he : e.isPresent = false) : Lays bs (e.gen {} none) Same fun _ _ i j => j = i := by
  refine .silent (Expr.valued_gen {} none e) fun s clean => ?_
  cases e with
  | missing =>
      rfl
  | rejected error =>
      rw [Expr.gen_rejected, after_report] at clean
      exact absurd clean (by simp)
  | tree root => cases he

theorem lays_reportAll (rs : List Report) : Lays bs (reportAll rs) Same fun _ _ i j => j = i :=
  .silent (valued_reportAll rs) fun _ _ => rfl

theorem lays_put (op : Opcode) (p1 : Int) (p2 : Nat) (p3 : Operand) : Lays bs (put op p1 p2 p3) Same fun S _ i j =>
    S.at? i = none ∧ (∃ x, S.code[i]? = some x ∧ x.op = op ∧ x.p1 = p1 ∧ x.p2 = p2) ∧ j = i + 1 where
  framed := fun _ => .put op p1 p2 p3
  laid := fun _ _ tidy _ => (Laid.put tidy op p1 p2 p3).mono (fun _ _ _ _ h => h)
    fun _ _ h => ⟨h.1, ⟨_, h.2.1, rfl, rfl, rfl⟩, h.2.2⟩

theorem lays_drop : Lays bs drop Same fun S _ i j => S.Drops i ∧ j = i + 1 := by
  refine (lays_put ..).mono (fun _ _ _ _ h => h) ?_
  rintro S B i j ⟨hnone, ⟨x, hx, hop, hp1, -⟩, hj⟩
  exact ⟨⟨hnone, x, hx, hop, hp1⟩, hj⟩

theorem lays_jumpTo (op : Opcode) (target : Nat) :
    Lays bs (jumpTo op target) Same fun S _ i j => S.Jumps op i target ∧ j = i + 1 := by
  refine (lays_put ..).mono (fun _ _ _ _ h => h) ?_
  rintro S B i j ⟨hnone, ⟨x, hx, hop, hp1, hp2⟩, hj⟩
  exact ⟨⟨hnone, x, hx, hop, hp1, hp2⟩, hj⟩

theorem lays_await (hb : bs.get? id = some b) (htags : b.hasAny [.loop, .conditional] = true) (op : Opcode) :
    Lays bs (await id op .none) Same fun S B i j => S.Jumps op i (B id (some op)) ∧ j = i + 1 where
  framed := fun s => .await id op .none
  laid := by
    intro s hs tidy _
    obtain ⟨c, hc, hshape⟩ := BlockStack.get?_congr hs hb
    refine (Laid.wait tidy (.await hc op .none) (.await id op .none) rfl hc
      (by rw [Block.hasAny_congr hshape]; exact htags)).mono (fun _ _ _ _ h => h) ?_
    rintro S B ⟨hnone, hx, hj⟩
    exact ⟨⟨hnone, _, hx, rfl, rfl, rfl⟩, hj⟩

theorem lays_awaitContinue (hb : bs.get? id = some b) (htags : b.hasAny [.loop, .conditional] = true)
    (hd : b.deferred.isSome = true) :
    Lays bs (awaitContinue id) Same fun S B i j => S.Jumps .jmp i (B id none) ∧ j = i + 1 where
  framed := fun _ => Frame.awaitContinue _
  laid := by
    intro s hs tidy _
    obtain ⟨c, hc, hshape⟩ := BlockStack.get?_congr hs hb
    have hd' : c.deferred.isSome = true := (congrArg (fun shape => shape.2.2) hshape).trans hd
    refine (Laid.wait tidy (.awaitContinue hc hd')
      (Frame.awaitContinue _) rfl hc
      (by rw [Block.hasAny_congr hshape]; exact htags)).mono (fun _ _ _ _ h => h) ?_
    rintro S B ⟨hnone, hx, hj⟩
    exact ⟨⟨hnone, _, hx, rfl, rfl, rfl⟩, hj⟩

theorem lays_settle (hb : bs.get? id = some b) (htags : b.hasAny [.loop, .conditional] = true) (op : Option Opcode) :
    Lays bs (settle id op) (fun A B _ j => B = A.set id (Filling.kindsOf op) j) fun _ _ i j => j = i where
  framed := fun s => .settle id op
  laid := by
    intro s hs tidy _
    obtain ⟨c, hc, hshape⟩ := BlockStack.get?_congr hs hb
    exact .fill tidy (.settle tidy hc op) (.settle id op) rfl hc (by rw [Block.hasAny_congr hshape]; exact htags)
      fun hkind => by cases hkind

theorem lays_settleContinue (hb : bs.get? id = some b) (htags : b.hasAny [.loop, .conditional] = true)
    (hd : b.deferred.isSome = true) :
    Lays bs (settleContinue id) (fun A B _ j => B = A.set id Option.isNone j) fun _ _ i j => j = i where
  framed := fun s => .settleContinue id
  laid := by
    intro s hs tidy _
    obtain ⟨c, hc, hshape⟩ := BlockStack.get?_congr hs hb
    have hd' : c.deferred.isSome = true := (congrArg (fun shape => shape.2.2) hshape).trans hd
    have filling := Filling.settleContinue hc
    rw [hd', show (fun kind : Option Opcode => kind.isNone && true) = Option.isNone from
      funext fun _ => Bool.and_true _] at filling
    exact .fill tidy filling (.settleContinue id) rfl hc (by rw [Block.hasAny_congr hshape]; exact htags) fun _ => hd'

end Parts

/-! ### Blocks -/

/-- What is laid out inside a block on which nothing waits at its end. -/
theorem Laid.inside {R : Aims → Aims → Nat → Nat → Prop} {P : Sheet → Aims → Nat → Nat → Prop} {s t : GenState}
    {tags : List BlockTag} {first : Nat} {owner : BlockOwner} {deferred : Option (List Nat)} {c : Block}
    (tidy : Tidy s) (h : Laid R P (after (enter tags first owner deferred) s) t) (hd : deferred.getD [] = [])
    (hR : ∀ A B i j, R A B i j → ∀ k < s.blocks.blocks.size, B k = A k)
    (hc : t.blocks.Innermost s.blocks.blocks.size c) (hnone : ∀ kind i, ¬c.Awaits kind i) :
    Laid Same (fun S A i j => ∃ C : Aims, (∀ k < s.blocks.blocks.size, C k = A k) ∧
      (tags.contains .loop = true → deferred = none → C s.blocks.blocks.size none = first) ∧ P S C i j)
      s (after leave t) where
  frame := h.frame.inside
  calm := by
    intro k b d hb hd hnone
    have hsize := hc.size
    have hlt : k < s.blocks.blocks.size := (Array.getElem?_eq_some_iff.mp hb).1
    refine h.calm k b d ?_ ?_ hnone
    · rw [after_enter, BlockStack.get?_push, if_neg (Nat.ne_of_lt hlt)]
      exact hb
    · rw [after_leave, BlockStack.get?_leave t.blocks (by omega), if_pos (by omega)] at hd
      exact hd
  tidy := h.tidy.leave hc tidy.root hnone
  fits := by
    obtain ⟨at?, fits⟩ := h.fits
    refine ⟨at?, fun F A hA => ?_⟩
    obtain ⟨C, hBC, hC, hsegments, hp⟩ := fits F _ (hA.leave hc tidy.root hnone)
    have outer : ∀ k < s.blocks.blocks.size, A.set s.blocks.blocks.size Option.isNone c.first k = A k := by
      intro k hk
      funext kind
      exact if_neg fun h => Nat.ne_of_lt hk h.1
    have agree : ∀ k < s.blocks.blocks.size, C k = A k := fun k hk => (hR _ _ _ _ hBC k hk).trans (outer k hk)
    refine ⟨A, rfl, hC.enter hd agree, hsegments, fun S hS hreads => ⟨C, agree, fun hloop hdeferred => ?_,
      hp S hS hreads⟩⟩
    have entered := (innermost_enter tags first owner deferred s).block
    refine (hC.firsts _ _ entered ?_ hdeferred).symm
    simpa [Block.hasAny] using hloop

namespace Lays

variable {bs : BlockStack} {R : Aims → Aims → Nat → Nat → Prop} {P : Sheet → Aims → Nat → Nat → Prop}
  {tags : List BlockTag} {deferred : Option (List Nat)} {b : Block}

/-- A construct in a block of its own: at its end all the jumps on the block go there. -/
theorem inBlock {kinds : Option Opcode → Bool} (body : Nat → Gen Unit) (ht : IsConstruct tags deferred)
    (hb : b.shape = (tags, .none, deferred.isSome))
    (h : Lays ⟨bs.blocks.push b⟩ (body bs.blocks.size) (Only bs.blocks.size kinds) P) {s : GenState}
    (hs : s.blocks.shapes = bs.shapes) (tidy : Tidy s)
    (clean : (after (Gen.inBlock tags deferred body) s).reports = []) :
    Laid Same (fun S A i j => ∃ C : Aims, (∀ k < bs.blocks.size, C k = A k) ∧
      (∀ op, kinds (some op) = false → C bs.blocks.size (some op) = j) ∧
      (tags.contains .loop = true → deferred = none → C bs.blocks.size none = i) ∧ P S C i j)
      s (after (Gen.inBlock tags deferred body) s) := by
  have hsize : s.blocks.blocks.size = bs.blocks.size := BlockStack.size_congr hs
  have clean' : (after (body s.blocks.blocks.size) (after (enter tags s.code.size .none deferred) s)).reports = [] := clean
  show Laid _ _ s ((after (body s.blocks.blocks.size) (after (enter tags s.code.size .none deferred) s)).exitBlock
    s.blocks.blocks.size)
  rw [hsize] at clean' ⊢
  have laid := h.laid _ (shapes_entered hs hb) (tidy.enter ht.undeferred) clean'
  have htags : tags.any [.loop, .conditional].contains = true := by cases ht <;> rfl
  -- The jumps on the block are filled in at its end, so nothing waits on it when it is left.
  have entered := innermost_enter tags s.code.size .none deferred s
  rw [hsize] at entered
  generalize after (body bs.blocks.size) (after (enter tags s.code.size .none deferred) s) = t at laid ⊢
  obtain ⟨c, hc, hshape⟩ := laid.frame.innermost entered
  have hany : c.hasAny [.loop, .conditional] = true := by
    rw [Block.hasAny_congr hshape]
    exact Block.hasAny_of_tags rfl htags
  have filling := Filling.settle laid.tidy hc.block none
  have settled : Laid _ _ t (after (Gen.settle bs.blocks.size none) t) :=
    .fill laid.tidy filling (.settle _ none) rfl hc.block hany fun hkind => by cases hkind
  have hc' := hc.settle none
  have filling' := Filling.settleContinue hc'.block
  have continued : Laid _ _ _ (after (Gen.settleContinue bs.blocks.size) (after (Gen.settle bs.blocks.size none) t)) :=
    .fill settled.tidy filling' (.settleContinue _) rfl hc'.block hany fun hkind => hkind
  have all := (laid.seq settled (stack_enter ..)).seq continued (stack_enter ..)
  have hc'' := hc'.settleContinue
  have inside := all.inside tidy ht.undeferred ?_ (by rw [hsize]; exact hc'') fun kind i ha => ?_
  · refine inside.mono (fun _ _ _ _ h => h) fun S A hfits => ?_
    rw [hsize] at hfits
    obtain ⟨C, hagree, hfirst, l, B, ⟨l', B', rfl, honly⟩, ⟨l'', B'', -, hP, rfl⟩, hl⟩ := hfits
    rw [hl]
    refine ⟨C, hagree, fun op hop => ?_, fun hloop hnone => hfirst hloop hnone, hP⟩
    rw [honly _ _ fun hset => absurd (hop.symm.trans hset.2) (by decide)]
    exact if_pos ⟨rfl, rfl⟩
  · rintro A C i j ⟨_, B, rfl, _, B', rfl, honly⟩ k hk
    have hne : k ≠ bs.blocks.size := by omega
    funext kind
    rw [honly k kind fun hset => hne hset.1, Aims.set, if_neg fun hset => hne hset.1, Aims.set,
      if_neg fun hset => hne hset.1]
  · cases kind with
    | none =>
        unfold Block.Awaits at ha
        cases hd : c.deferred <;> simp [hd] at ha
    | some op =>
        obtain ⟨ha, -⟩ := (filling'.awaits _ _ i).mp ⟨_, hc''.block, ha⟩
        exact ((filling.awaits _ _ i).mp ha).2 ⟨rfl, rfl⟩

/-- Statements in braces. -/
theorem inBraces {items : Gen Unit} (hb : b.shape = ([.braces], .none, false))
    (h : Lays ⟨bs.blocks.push b⟩ items Same P) (unclosed : Option Nat) (hframed : Flows (braces items unclosed)) :
    Lays bs (braces items unclosed) Same fun S A i j => ∃ C : Aims, (∀ k < bs.blocks.size, C k = A k) ∧ P S C i j where
  framed := fun s => (hframed s).frame
  laid := by
    intro s hs tidy clean
    have hsize : s.blocks.blocks.size = bs.blocks.size := BlockStack.size_congr hs
    have fault : Lays ⟨bs.blocks.push b⟩ (reportFault (unclosed.map fun line => ⟨line, .unclosedBlock⟩)) Same
        fun _ _ i j => j = i := by
      refine .silent (valued_reportFault _) fun s _ => ?_
      cases unclosed <;> rfl
    have laid := (h.next fault).laid _ (shapes_entered hs hb) (tidy.enter rfl) clean
    obtain ⟨c, hc, hshape⟩ := laid.frame.innermost (innermost_enter [.braces] s.code.size .none none s)
    have hpending : c.pending = [] := laid.calm _ _ c (innermost_enter ..).block hc.block rfl
    have hdeferred : c.deferred = none := Block.undeferred_congr hshape rfl
    have inside := laid.inside tidy rfl ?_ hc ?_
    · refine inside.mono (fun _ _ _ _ h => h) ?_
      rintro S A ⟨C, hagree, -, l, hP, rfl⟩
      rw [hsize] at hagree
      exact ⟨C, hagree, hP⟩
    · rintro A B i j rfl k _
      rfl
    · intro kind i ha
      cases kind <;> simp [Block.Awaits, hpending, hdeferred] at ha

end Lays

end StackScript
