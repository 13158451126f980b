/-
Where a generator places its code.

`Placing` says of a piece of code generation what becomes of its code when the container is finished: given
where the jumps go that wait at its end, and the tables of the finished program, it tells where those go that
wait at its start and what lies between its two ends.  Nothing is asked of the state it starts from but that
no jump of the container waits twice, so the same holds in the containers of functions and of catch clauses.
Pieces are put together with `Placing.seq`, and a block around them tells where its own jumps go with
`Places.inBlock`.
-/
import StackScript.Proofs.Cleared
import StackScript.Proofs.Layout
import StackScript.Proofs.Leftovers
import StackScript.Proofs.Occupancy
import StackScript.Proofs.Tables

namespace StackScript

open Gen

/-! ### Tables of the finished program -/

/-- The tables of the `foreach` loops only get longer. -/
theorem runLaw_foreachs : RunLaw fun s t => s.program.foreachs <+: t.program.foreachs where
  trans := List.IsPrefix.trans
  inner h := h.program ▸ List.prefix_rfl
  quiet h := h.foreachs
  record := List.prefix_rfl
  container h := h
  statics h := h
  static _ := List.prefix_rfl
  file hq := hq.foreachs ▸ List.prefix_rfl
  reserveException := List.prefix_rfl
  switch h := h

theorem Run.foreachs {k : Kind} {s t : GenState} (h : Run k s t) : s.program.foreachs <+: t.program.foreachs :=
  runLaw_foreachs.holds h

/-- What every step leaves of the reports, the tables and the records. -/
structure Retains (s t : GenState) : Prop where
  reports : s.reports <+: t.reports
  keeps : Keeps s t
  foreachs : s.program.foreachs <+: t.program.foreachs

theorem Retains.trans {s t u : GenState} (h : Retains s t) (h' : Retains t u) : Retains s u :=
  ⟨h.reports.trans h'.reports, h.keeps.trans h'.keeps, h.foreachs.trans h'.foreachs⟩

/-- What every run leaves of the code and the tables. -/
structure Builds (s t : GenState) : Prop where
  frame : Frame s t
  keeps : Keeps s t
  foreachs : s.program.foreachs <+: t.program.foreachs

theorem Run.builds {k : Kind} {s t : GenState} (h : Run k s t) : Builds s t := ⟨h.frame, h.keeps, h.foreachs⟩

namespace Builds

variable {s t u : GenState}

theorem retains (h : Builds s t) : Retains s t := ⟨h.frame.reports, h.keeps, h.foreachs⟩

theorem trans (h : Builds s t) (h' : Builds t u) : Builds s u :=
  ⟨h.frame.trans h'.frame, h.keeps.trans h'.keeps, h.foreachs.trans h'.foreachs⟩

/-- A step that leaves the tables alone. -/
theorem of_frame (h : Frame s t) (hp : t.program = s.program) (hj : s.jumps <+: t.jumps) (hf : t.filled = s.filled) :
    Builds s t where
  frame := h
  keeps := ⟨Nat.le_of_eq (by rw [hp]), fun _ _ => by rw [hp], hj, by simp [hf]⟩
  foreachs := by simp [hp]

/-- What is built inside a block. -/
theorem inside {tags : List BlockTag} {first : Nat} {owner : BlockOwner} {deferred : Option (List Nat)}
    (h : Builds (after (enter tags first owner deferred) s) t) : Builds s (after leave t) :=
  ⟨h.frame.inside, h.keeps.congr rfl rfl rfl rfl rfl List.prefix_rfl, h.foreachs⟩

/-- Where nothing is reported on the whole way, nothing is on either part of it. -/
theorem errors_split (h : Builds s t) (h' : Builds t u) (he : u.errors = s.errors) :
    t.errors = s.errors ∧ u.errors = t.errors := by
  have := Grown.errors_le h.frame
  have := Grown.errors_le h'.frame
  omega

end Builds

/-- What was put into tables between two states is in those of a program. -/
structure Program.Completes (p : Program) (s t : GenState) : Prop where
  switches : Agrees p.switches s t
  foreachs : t.program.foreachs <+: p.foreachs

namespace Program.Completes

variable {p : Program} {s t u : GenState}

theorem front (h : p.Completes s u) (hb : Retains t u) : p.Completes s t :=
  ⟨h.switches.front hb.keeps, hb.foreachs.trans h.foreachs⟩

theorem back (h : p.Completes s u) (hb : Retains s t) : p.Completes t u := ⟨h.switches.back hb.keeps, h.foreachs⟩

/-- Moves inside a container, in front of a run and behind it, do not matter. -/
theorem within {s' t' : GenState} (hs : Local s s') (ht : Local t t') (h : p.Completes s t') : p.Completes s' t :=
  ⟨.within hs ht h.switches, ht.program ▸ h.foreachs⟩

end Program.Completes

section Reserved

/-! The table of a switch is reserved in front of its sections and filled in behind them. -/

variable {s t : GenState} {table : SwitchTable}

/-- The finished program has the table as it was filled in. -/
theorem Program.Completes.reserved {p : Program} (h : Keeps (after reserveSwitch s) t)
    (hp : p.Completes s (after (fillSwitch s.program.switches.length table) t)) :
    p.switches[s.program.switches.length]? = some table ∧ p.Completes (after reserveSwitch s) t := by
  obtain ⟨filled, sections⟩ := hp.switches.reserved h
  exact ⟨filled, sections, hp.foreachs⟩

end Reserved

/-! ### Pieces of code -/

/-- The blocks that jumps may wait on. -/
def Block.isTarget (b : Block) : Bool := b.hasAny [.loop, .conditional, .exception, .function]

/-- What a piece of code generation has become when the container that starts at block `k` is finished.  `R`
tells from the targets at its end those at its start, and `P` what lies between its two ends. -/
structure Placing (k : Nat) (R : Aims → Aims → Nat → Nat → Prop) (P : Program → Code → Aims → Nat → Nat → Prop)
    (s t : GenState) : Prop where
  builds : Builds s t
  /-- Jumps wait on the root and on their targets only. -/
  calm : ∀ id b c, 0 < id → s.blocks.get? id = some b → t.blocks.get? id = some c → b.isTarget = false →
    c.pending = b.pending
  tidy : Tidy (t.cleared k)
  leads : ∀ p F A, p.Completes s t → Leads F A (t.cleared k) → ∃ B, R A B s.code.size t.code.size ∧
    Leads F B (s.cleared k) ∧ P p F B s.code.size t.code.size

namespace Placing

variable {k : Nat} {R R' : Aims → Aims → Nat → Nat → Prop} {P Q : Program → Code → Aims → Nat → Nat → Prop}
  {s t u : GenState}

theorem mono (h : Placing k R P s t) (hR : ∀ A B i j, R A B i j → R' A B i j)
    (hP : ∀ p F B, P p F B s.code.size t.code.size → Q p F B s.code.size t.code.size) : Placing k R' Q s t where
  builds := h.builds
  calm := h.calm
  tidy := h.tidy
  leads := by
    intro p F A hp hA
    obtain ⟨B, hAB, hB, h⟩ := h.leads p F A hp hA
    exact ⟨B, hR A B _ _ hAB, hB, hP p F B h⟩

theorem seq (h : Placing k R P s t) (h' : Placing k R' Q t u) (hs : 0 < s.blocks.blocks.size) :
    Placing k (fun A C i j => ∃ m B, R' A B m j ∧ R B C i m)
      (fun p F C i j => ∃ m B, R B C i m ∧ P p F C i m ∧ Q p F B m j) s u where
  builds := h.builds.trans h'.builds
  calm := by
    intro id b d hid hb hd hnone
    obtain ⟨c, hc, hshape⟩ := BlockStack.get?_congr (h.builds.frame.shapes hs) hb
    rw [h'.calm id c d hid hc hd (by rw [Block.isTarget, Block.hasAny_congr hshape]; exact hnone),
      h.calm id b c hid hb hc hnone]
  tidy := h'.tidy
  leads := by
    intro p F A hp hA
    obtain ⟨B, hAB, hB, hq⟩ := h'.leads p F A (hp.back h.builds.retains) hA
    obtain ⟨C, hBC, hC, hp⟩ := h.leads p F B (hp.front h'.builds.retains) hB
    exact ⟨C, ⟨t.code.size, B, hAB, hBC⟩, hC, t.code.size, B, hBC, hp, hq⟩

/-- A piece that leaves the blocks alone. -/
theorem of_spares (tidy : Tidy (s.cleared k)) (h : Spares s t) (builds : Builds s t) (he : t.errors = s.errors)
    (hP : ∀ p F B, p.Completes s t → Leads F B (s.cleared k) → Holds F s.code.size t.code →
      P p F B s.code.size t.code.size) : Placing k Same P s t where
  builds := builds
  calm := by
    intro id b c _ hb hc _
    rw [h.blocks, hb] at hc
    cases hc
    rfl
  tidy := tidy.spares (h.cleared k)
  leads := by
    intro p F A hp hA
    have leads := hA.spares (h.cleared k) he
    have added := hA.added tidy (h.cleared k)
    exact ⟨A, rfl, leads, hP p F A hp leads added⟩

/-- A step on the root or a target of jumps. -/
theorem calm_modify {id : Nat} {b : Block} {f : Block → Block} (hblocks : t.blocks = s.blocks.modify id f)
    (hb : s.blocks.get? id = some b) (htarget : id = 0 ∨ b.isTarget = true) (i : Nat) (c d : Block) (hi : 0 < i)
    (hc : s.blocks.get? i = some c) (hd : t.blocks.get? i = some d) (hnone : c.isTarget = false) :
    d.pending = c.pending := by
  rw [hblocks, BlockStack.get?_modify] at hd
  by_cases hid : id = i
  · subst hid
    rw [hb] at hc
    cases hc
    rcases htarget with rfl | htarget
    · exact absurd hi (Nat.lt_irrefl 0)
    · exact absurd (htarget.symm.trans hnone) (by decide)
  · rw [if_neg hid, hc] at hd
    cases hd
    rfl

/-- A jump that waits on a block. -/
theorem wait {id : Nat} {kind : Option Opcode} {x : Instruction} {b : Block} {f : Block → Block}
    (tidy : Tidy (s.cleared k)) (h : Waiting id kind x (s.cleared k) (t.cleared k)) (builds : Builds s t)
    (hblocks : t.blocks = s.blocks.modify id f) (hb : s.blocks.get? id = some b) (htarget : id = 0 ∨ b.isTarget = true) :
    Placing k Same (fun _ F B i j => F[i]? = some { x with p2 := B id kind } ∧ j = i + 1) s t where
  builds := builds
  calm := calm_modify hblocks hb htarget
  tidy := h.tidy tidy
  leads := by
    intro p F A _ hA
    refine ⟨A, rfl, h.leads hA, h.instruction hA, ?_⟩
    have hcode : t.code = s.code.push x := h.code
    rw [hcode, Array.size_push]

/-- The jumps of some kinds on a block are filled in. -/
theorem fill {id : Nat} {kinds : Option Opcode → Bool} {b : Block} {f : Block → Block} (tidy : Tidy (s.cleared k))
    (h : Filling id kinds s.code.size (s.cleared k) (t.cleared k)) (builds : Builds s t)
    (hblocks : t.blocks = s.blocks.modify id f) (hk : k ≤ id) (hb : s.blocks.get? id = some b)
    (htarget : id = 0 ∨ b.isTarget = true) (hnone : kinds none = true → b.deferred.isSome = true) :
    Placing k (fun A B _ j => B = A.set id kinds j) (fun _ _ _ i j => j = i) s t where
  builds := builds
  calm := calm_modify hblocks hb htarget
  tidy := h.tidy tidy
  leads := by
    intro p F A _ hA
    have hsize : t.code.size = s.code.size := h.length
    refine ⟨A.set id kinds s.code.size, by rw [hsize], h.leads tidy (fun hkind c hc => ?_) hA, hsize⟩
    rw [GenState.blocks_cleared, BlockStack.get?_cleared_of_le hk, hb] at hc
    cases hc
    exact hnone hkind

/-- Where `continue` goes on a block is told anew.  No `continue` waits on a block that does not defer it. -/
theorem restart {id : Nat} {b : Block} (tidy : Tidy (s.cleared k)) (hk : k ≤ id) (hb : s.blocks.get? id = some b)
    (hloop : b.hasAny [.loop] = true) (hd : b.deferred = none) :
    Placing k (fun A B i j => A id none = j ∧ Only id Option.isNone A B i j) (fun _ _ _ i j => j = i) s
      (after (restartHere id) s) := by
  have hb' : (s.cleared k).blocks.get? id = some b := by
    rw [GenState.blocks_cleared, BlockStack.get?_cleared_of_le hk, hb]
  have blocks : ((after (restartHere id) s).cleared k).blocks =
      (s.cleared k).blocks.modify id fun b => { b with first := s.code.size } := by
    rw [GenState.cleared_restartHere hk, after_restartHere]
    rfl
  have awaits : ∀ i kind n, ((after (restartHere id) s).cleared k).blocks.Awaits i kind n ↔
      (s.cleared k).blocks.Awaits i kind n := by
    intro i kind n
    rw [blocks, BlockStack.awaits_modify hb']
    by_cases hi : i = id
    · subst hi
      simp only [if_true, BlockStack.Awaits, hb', Option.some.injEq, exists_eq_left']
      cases kind <;> rfl
    · rw [if_neg hi]
  refine ⟨.of_frame (.restartHere id) rfl List.prefix_rfl rfl, ?_, ?_, ?_⟩
  · intro i c d _ hc hd' _
    rw [after_restartHere, BlockStack.get?_modify, hc] at hd'
    split at hd' <;> cases hd' <;> rfl
  · refine ⟨?_, fun i kind n ha => ?_, fun i i' kind kind' n ha ha' => ?_⟩
    · rw [blocks, BlockStack.size_modify]
      exact tidy.root
    · exact tidy.inside i kind n ((awaits i kind n).mp ha)
    · exact tidy.sole i i' kind kind' n ((awaits i kind n).mp ha) ((awaits i' kind' n).mp ha')
  · intro p F A _ hA
    have first : A id none = s.code.size := by
      refine (hA.firsts id { b with first := s.code.size } ?_ hloop hd).symm
      rw [blocks, BlockStack.get?_modify, if_pos rfl, hb']
      rfl
    refine ⟨A.set id Option.isNone b.first, ⟨first, fun i kind hset => if_neg hset⟩, ⟨?_, ?_, ?_⟩, rfl⟩
    · intro i x hx
      obtain ⟨p2, hp, hp2⟩ := hA.kept i x hx
      refine ⟨p2, hp, hp2.imp_right ?_⟩
      rintro ⟨i', kind, ha⟩
      exact ⟨i', kind, (awaits _ _ _).mp ha⟩
    · intro i kind n x ha hx
      rw [hA.aimed i kind n x ((awaits i kind n).mpr ha) hx]
      refine (if_neg ?_).symm
      rintro ⟨rfl, hkind⟩
      obtain ⟨c, hc, hw⟩ := ha
      obtain rfl : c = b := Option.some.inj (hc.symm.trans hb')
      cases kind with
      | none => simp [Block.Awaits, hd] at hw
      | some op => cases hkind
    · intro i c hc hloop' hd'
      by_cases hi : i = id
      · subst hi
        obtain rfl : c = b := Option.some.inj (hc.symm.trans hb')
        exact (if_pos ⟨rfl, rfl⟩).symm
      · rw [Aims.set, if_neg fun hset => hi hset.1]
        refine hA.firsts i c ?_ hloop' hd'
        rw [blocks, BlockStack.get?_modify, if_neg (Ne.symm hi)]
        exact hc

/-- What is placed inside a block on which nothing waits at its end. -/
theorem inside {tags : List BlockTag} {first : Nat} {owner : BlockOwner} {deferred : Option (List Nat)} {c : Block}
    (hk : k < s.blocks.blocks.size) (h : Placing k R P (after (enter tags first owner deferred) s) t) (hd : deferred.getD [] = [])
    (hR : ∀ A B i j, R A B i j → ∀ id < s.blocks.blocks.size, B id = A id)
    (hc : t.blocks.Innermost s.blocks.blocks.size c) (hnone : ∀ kind i, ¬c.Awaits kind i) :
    Placing k Same (fun p F A i j => ∃ C D : Aims, (∀ id < s.blocks.blocks.size, C id = A id) ∧
      (tags.contains .loop = true → deferred = none → C s.blocks.blocks.size none = first) ∧ R D C i j ∧ P p F C i j)
      s (after leave t) := by
  have hid : 0 < s.blocks.blocks.size := by omega
  have hc' := hc.cleared (Nat.le_of_lt hk)
  have left : (after leave t).cleared k = after leave (t.cleared k) := GenState.cleared_leave hc (Nat.le_of_lt hk) hid
  have entered : (after (enter tags first owner deferred) s).cleared k =
      after (enter tags first owner deferred) (s.cleared k) := GenState.cleared_enter (Nat.le_of_lt hk) ..
  refine ⟨h.builds.inside, ?_, ?_, ?_⟩
  · intro i b d hi hb hd hnone
    have hsize := hc.size
    have hlt : i < s.blocks.blocks.size := (Array.getElem?_eq_some_iff.mp hb).1
    refine h.calm i b d hi ?_ ?_ hnone
    · rw [after_enter, BlockStack.get?_push, if_neg (Nat.ne_of_lt hlt)]
      exact hb
    · rw [after_leave, BlockStack.get?_leave t.blocks (by omega), if_pos (by omega)] at hd
      exact hd
  · rw [left]
    exact h.tidy.leave hc' hid hnone
  · intro p F A hp hA
    rw [left] at hA
    obtain ⟨C, hBC, hC, h⟩ := h.leads p F _ ⟨hp.switches, hp.foreachs⟩ (hA.leave hc' hid hnone)
    have agree : ∀ id < s.blocks.blocks.size, C id = A id := by
      intro id hlt
      rw [hR _ _ _ _ hBC id hlt]
      funext kind
      exact if_neg fun h => Nat.ne_of_lt hlt h.1
    rw [entered] at hC
    refine ⟨A, rfl, hC.enter hd (by simpa using agree), C, _, agree, fun hloop hdeferred => ?_, hBC, h⟩
    have hblock := (innermost_enter tags first owner deferred (s.cleared k)).block
    rw [GenState.blocks_cleared, BlockStack.size_cleared] at hblock
    refine (hC.firsts _ _ hblock ?_ hdeferred).symm
    simpa [Block.hasAny] using hloop

end Placing

/-- A generator that places its code as told, inside blocks of some shape, unless it reports an error. -/
structure Places {α : Type} (k : Nat) (bs : BlockStack) (m : Gen α) (R : Aims → Aims → Nat → Nat → Prop)
    (P : Program → Code → Aims → Nat → Nat → Prop) : Prop where
  builds : ∀ s, Builds s (after m s)
  placed : ∀ s, s.blocks.shapes = bs.shapes → Tidy (s.cleared k) → (after m s).errors = s.errors →
    Placing k R P s (after m s)

namespace Places

variable {α β : Type} {k : Nat} {bs : BlockStack} {m : Gen α} {f : α → Gen β} {R R' : Aims → Aims → Nat → Nat → Prop}
  {P Q : Program → Code → Aims → Nat → Nat → Prop} {id : Nat} {kinds : Option Opcode → Bool}

theorem mono (h : Places k bs m R P) (hR : ∀ A B i j, R A B i j → R' A B i j)
    (hP : ∀ p F B i j, P p F B i j → Q p F B i j) : Places k bs m R' Q where
  builds := h.builds
  placed := fun s hs tidy he => (h.placed s hs tidy he).mono hR fun p F B => hP p F B _ _

/-- The same with another account of what has been placed. -/
theorem weaken (h : Places k bs m R P) (hP : ∀ p F B i j, P p F B i j → Q p F B i j) : Places k bs m R Q :=
  h.mono (fun _ _ _ _ h => h) hP

/-- A piece behind what has been placed. -/
theorem behindPlaced {s t : GenState} {n : Gen β} (h' : Places k bs n R' Q) (h : Placing k R P s t)
    (hs : s.blocks.shapes = bs.shapes) (tidy : Tidy (s.cleared k)) (he : (Gen.after n t).errors = s.errors) :
    Placing k (fun A C i j => ∃ l B, R' A B l j ∧ R B C i l)
      (fun p F C i j => ∃ l B, R B C i l ∧ P p F C i l ∧ Q p F B l j) s (Gen.after n t) := by
  have hroot : 0 < s.blocks.blocks.size := by simpa using tidy.root
  have second := (h.builds.errors_split (h'.builds t) he).2
  exact h.seq (h'.placed t ((h.builds.frame.shapes hroot).trans hs) h.tidy second) hroot

theorem bind (h : Places k bs m R P) (h' : ∀ a, Places k bs (f a) R' Q) :
    Places k bs (m >>= f) (fun A C i j => ∃ l B, R' A B l j ∧ R B C i l)
      fun p F C i j => ∃ l B, R B C i l ∧ P p F C i l ∧ Q p F B l j where
  builds := fun s => (h.builds s).trans ((h' _).builds _)
  placed := by
    intro s hs tidy he
    rw [after_bind] at he ⊢
    have first := ((h.builds s).errors_split ((h' _).builds _) he).1
    exact (h' _).behindPlaced (h.placed s hs tidy first) hs tidy he

/-- A piece in front that gives no targets. -/
theorem behind (h : Places k bs m Same P) (h' : ∀ a, Places k bs (f a) (Only id kinds) Q) :
    Places k bs (m >>= f) (Only id kinds) fun p F A i j => ∃ l, P p F A i l ∧ Q p F A l j := by
  refine (h.bind h').mono ?_ ?_
  · rintro A C i j ⟨_, B, h, rfl⟩
    exact h
  · rintro p F C i j ⟨l, B, rfl, hp, hq⟩
    exact ⟨l, hp, hq⟩

/-- A piece in front that gives a target. -/
theorem given (h : Places k bs m (fun A B _ j => B = A.set id kinds j) fun _ _ _ i j => j = i)
    (h' : ∀ a, Places k bs (f a) (Only id kinds) Q) :
    Places k bs (m >>= f) (Only id kinds) fun p F A i j => ∃ B, Q p F B i j ∧ A = B.set id kinds i := by
  refine (h.bind h').mono ?_ ?_
  · rintro A C i j ⟨_, B, h, rfl⟩ n kind hn
    rw [Aims.set, if_neg hn]
    exact h n kind hn
  · rintro p F C i j ⟨l, B, hC, rfl, hq⟩
    exact ⟨B, hq, hC⟩

theorem next (h : Places k bs m Same P) (h' : ∀ a, Places k bs (f a) Same Q) :
    Places k bs (m >>= f) Same fun p F A i j => ∃ l, P p F A i l ∧ Q p F A l j := by
  refine (h.bind h').mono ?_ ?_
  · rintro A C i j ⟨_, B, rfl, rfl⟩
    rfl
  · rintro p F C i j ⟨l, B, rfl, hp, hq⟩
    exact ⟨l, hp, hq⟩

/-- A generator of values. -/
theorem emitted (h : Valued m) : Places k bs m Same fun _ F _ i j =>
    ∃ s : GenState, s.code.size = i ∧ (Gen.after m s).code.size = j ∧ (Gen.after m s).errors = s.errors ∧
      Holds F i (Gen.after m s).code where
  builds := fun s => (h s).builds
  placed := by
    intro s _ tidy he
    have hroot : 0 < s.blocks.blocks.size := by simpa using tidy.root
    exact .of_spares tidy ((h s).spares hroot) (h s).builds he fun _ _ _ _ _ hF => ⟨s, rfl, rfl, he, hF⟩

/-- A generator that adds no code and leaves the blocks alone. -/
theorem silent (h : Valued m) (hcode : ∀ s, (Gen.after m s).code.size = s.code.size) :
    Places k bs m Same fun _ _ _ i j => j = i where
  builds := fun s => (h s).builds
  placed := by
    intro s _ tidy he
    have hroot : 0 < s.blocks.blocks.size := by simpa using tidy.root
    exact .of_spares tidy ((h s).spares hroot) (h s).builds he fun _ _ _ _ _ _ => hcode s

end Places

/-! ### The parts of constructs -/

section Parts

variable {k : Nat} {bs : BlockStack} {id : Nat} {b : Block}

theorem places_valued {m : Gen Unit} (h : Valued m) : Places k bs m Same fun _ F _ i j => Emitted F m i j := .emitted h

theorem places_reportAll (rs : List Report) : Places k bs (reportAll rs) Same fun _ _ _ i j => j = i :=
  .silent (valued_reportAll rs) fun _ => rfl

theorem places_reportStrays (header : Header) (strays : List Token) :
    Places k bs (reportStrays header strays) Same fun _ _ _ i j => j = i := places_reportAll _

theorem places_reportFault (fault : Option Report) : Places k bs (reportFault fault) Same fun _ _ _ i j => j = i := by
  refine .silent (valued_reportFault fault) fun s => ?_
  cases fault <;> rfl

/-- Only what is no error is reported. -/
theorem places_report (line : Nat) (problem : Problem) :
    Places k bs (report line problem) Same fun _ _ _ i j => problem.severity ≠ .error ∧ j = i := by
  have silent : Places k bs (report line problem) Same fun _ _ _ i j => j = i :=
    .silent (valued_report line problem) fun _ => rfl
  refine ⟨silent.builds, fun s hs tidy he => (silent.placed s hs tidy he).mono (fun _ _ _ _ h => h) fun p F A h => ?_⟩
  exact ⟨fun hp => (tells_error line hp).told s he, h⟩

theorem places_reportIf (isWrong : Bool) (line : Nat) (problem : Problem) :
    Places k bs (reportIf isWrong line problem) Same fun _ _ _ i j => j = i := by
  refine .silent (valued_reportIf isWrong line problem) fun s => ?_
  unfold reportIf
  cases isWrong <;> rfl

theorem places_put (op : Opcode) (p2 : Nat) (p3 : Operand) :
    Places k bs (put op 0 p2 p3) Same fun _ F _ i j => F.JumpsAt op p3 i p2 ∧ j = i + 1 where
  builds := fun _ => .of_frame (.put op 0 p2 p3) rfl List.prefix_rfl rfl
  placed := by
    intro s _ tidy _
    refine .of_spares tidy (.put op 0 p2 p3) (.of_frame (.put op 0 p2 p3) rfl List.prefix_rfl rfl) rfl
      fun _ F _ _ _ hF => ?_
    rw [after_put] at hF ⊢
    exact ⟨⟨_, hF.last (Nat.le_refl _), rfl, rfl, rfl, rfl⟩, Array.size_push _⟩

theorem places_jumpTo (op : Opcode) (target : Nat) :
    Places k bs (jumpTo op target) Same fun _ F _ i j => F.JumpsAt op .none i target ∧ j = i + 1 := places_put ..

theorem places_await (hk : k ≤ id) (hb : bs.get? id = some b) (htarget : id = 0 ∨ b.isTarget = true) (op : Opcode)
    (p3 : Operand) :
    Places k bs (await id op p3) Same fun _ F B i j => F.JumpsAt op p3 i (B id (some op)) ∧ j = i + 1 where
  builds := fun _ => .of_frame (.await id op p3) rfl List.prefix_rfl rfl
  placed := by
    intro s hs tidy _
    obtain ⟨c, hc, hshape⟩ := BlockStack.get?_congr hs hb
    have waiting : Waiting id (some op) ⟨op, 0, 0, p3, s.buffer.line⟩ (s.cleared k) ((after (await id op p3) s).cleared k) := by
      rw [GenState.cleared_await hk]
      exact .await (by rw [GenState.blocks_cleared, BlockStack.get?_cleared_of_le hk, hc]) op p3
    refine (Placing.wait tidy waiting (.of_frame (.await id op p3) rfl List.prefix_rfl rfl) rfl hc
      (htarget.imp_right fun h => by rw [Block.isTarget, Block.hasAny_congr hshape]; exact h)).mono
      (fun _ _ _ _ h => h) ?_
    rintro p F B ⟨hx, hj⟩
    exact ⟨⟨_, hx, rfl, rfl, rfl, rfl⟩, hj⟩

theorem places_awaitContinue (hk : k ≤ id) (hb : bs.get? id = some b) (htarget : b.isTarget = true)
    (hd : b.deferred.isSome = true) :
    Places k bs (awaitContinue id) Same fun _ F B i j => F.JumpsAt .jmp .none i (B id none) ∧ j = i + 1 := by
  have builds : ∀ s, Builds s (after (awaitContinue id) s) := fun s =>
    .of_frame (Frame.awaitContinue _) rfl
      List.prefix_rfl rfl
  refine ⟨builds, fun s hs tidy _ => ?_⟩
  obtain ⟨c, hc, hshape⟩ := BlockStack.get?_congr hs hb
  have hd' : c.deferred.isSome = true := (congrArg (fun shape => shape.2.2) hshape).trans hd
  have waiting : Waiting id none ⟨.jmp, 0, 0, .none, s.buffer.line⟩ (s.cleared k) ((after (awaitContinue id) s).cleared k) := by
    rw [GenState.cleared_awaitContinue hk]
    exact .awaitContinue (by rw [GenState.blocks_cleared, BlockStack.get?_cleared_of_le hk, hc]) hd'
  refine (Placing.wait tidy waiting (builds s) rfl hc
    (.inr (by rw [Block.isTarget, Block.hasAny_congr hshape]; exact htarget))).mono (fun _ _ _ _ h => h) ?_
  rintro p F B ⟨hx, hj⟩
  exact ⟨⟨_, hx, rfl, rfl, rfl, rfl⟩, hj⟩

theorem places_settle (hk : k ≤ id) (hb : bs.get? id = some b) (htarget : id = 0 ∨ b.isTarget = true) (op : Option Opcode) :
    Places k bs (settle id op) (fun A B _ j => B = A.set id (Filling.kindsOf op) j) fun _ _ _ i j => j = i where
  builds := fun _ => .of_frame (.settle id op) rfl List.prefix_rfl rfl
  placed := by
    intro s hs tidy _
    obtain ⟨c, hc, hshape⟩ := BlockStack.get?_congr hs hb
    have filling : Filling id (Filling.kindsOf op) s.code.size (s.cleared k) ((after (settle id op) s).cleared k) := by
      rw [GenState.cleared_settle hk]
      exact .settle tidy (by rw [GenState.blocks_cleared, BlockStack.get?_cleared_of_le hk, hc]) op
    exact .fill tidy filling (.of_frame (.settle id op) rfl List.prefix_rfl rfl) rfl hk hc
      (htarget.imp_right fun h => by rw [Block.isTarget, Block.hasAny_congr hshape]; exact h) fun hkind => by cases hkind

theorem places_settleContinue (hk : k ≤ id) (hb : bs.get? id = some b) (htarget : b.isTarget = true) :
    Places k bs (settleContinue id) (fun A B _ j => B = A.set id (fun kind => kind.isNone && b.deferred.isSome) j)
      fun _ _ _ i j => j = i where
  builds := fun _ => .of_frame (.settleContinue id) rfl List.prefix_rfl rfl
  placed := by
    intro s hs tidy _
    obtain ⟨c, hc, hshape⟩ := BlockStack.get?_congr hs hb
    have hd : c.deferred.isSome = b.deferred.isSome := congrArg (fun shape => shape.2.2) hshape
    have filling : Filling id (fun kind => kind.isNone && b.deferred.isSome) s.code.size (s.cleared k)
        ((after (settleContinue id) s).cleared k) := by
      rw [GenState.cleared_settleContinue hk, ← hd]
      exact .settleContinue (by rw [GenState.blocks_cleared, BlockStack.get?_cleared_of_le hk, hc])
    refine .fill tidy filling (.of_frame (.settleContinue id) rfl List.prefix_rfl rfl) rfl hk hc
      (.inr (by rw [Block.isTarget, Block.hasAny_congr hshape]; exact htarget)) fun hkind => ?_
    rw [hd]
    exact hkind

end Parts

/-! ### Blocks -/

section Blocks

variable {k : Nat} {bs : BlockStack} {R : Aims → Aims → Nat → Nat → Prop} {P : Program → Code → Aims → Nat → Nat → Prop}
  {tags : List BlockTag} {first : Nat} {owner : BlockOwner} {deferred : Option (List Nat)} {b : Block} {s : GenState}

theorem Tidy.entered (tidy : Tidy (s.cleared k)) (hk : k ≤ s.blocks.blocks.size) (hd : deferred.getD [] = []) :
    Tidy ((after (Gen.enter tags first owner deferred) s).cleared k) := by
  rw [GenState.cleared_enter hk]
  exact tidy.enter hd

/-- Whatever waits on a block lies in the code, so nothing but a `continue` waits on it once it is settled. -/
theorem Tidy.settled {t : GenState} {id : Nat} {c : Block} (tidy : Tidy (t.cleared k)) (hk : k ≤ id)
    (hc : t.blocks.Innermost id c) :
    (after (Gen.settle id none) t).blocks.Innermost id { c with pending := [] } := by
  have hfilter : c.pending.filter (fun j => !BlockStack.settles none t.code j) = [] := by
    refine List.filter_eq_nil_iff.mpr fun j hj => ?_
    have hlt : j.index < t.code.size := tidy.inside id (some j.op) j.index ⟨c, (hc.cleared hk).block, hj⟩
    simp [BlockStack.settles, hlt]
  have h := hc.settle none
  rw [hfilter] at h
  exact h

/-- The end of a construct in a block of its own: all the jumps on the block go there. -/
theorem Placing.exitBlock {R : Aims → Aims → Prop} {t : GenState}
    (placed : Placing k (fun A B _ _ => R A B) P (after (enter tags s.code.size .none deferred) s) t)
    (ht : IsConstruct tags deferred) (hk : k < s.blocks.blocks.size)
    (hR : ∀ A B, R A B → ∀ id < s.blocks.blocks.size, B id = A id) :
    Placing k Same (fun p F A i j => ∃ C : Aims, (∀ id < s.blocks.blocks.size, C id = A id) ∧
      (∃ B, R B C ∧ ∀ op, B s.blocks.blocks.size (some op) = j) ∧
      (deferred.isSome = true → ∃ B, R B C ∧ B s.blocks.blocks.size none = j) ∧
      (tags.contains .loop = true → deferred = none → C s.blocks.blocks.size none = i) ∧ P p F C i j)
      s (t.exitBlock s.blocks.blocks.size) := by
  have hroot : 0 < (after (enter tags s.code.size .none deferred) s).blocks.blocks.size := stack_enter ..
  obtain ⟨c, hc, hshape⟩ := placed.builds.frame.innermost (innermost_enter tags s.code.size .none deferred s)
  have htarget : c.isTarget = true := by
    rw [Block.isTarget, Block.hasAny_congr hshape]
    cases ht <;> rfl
  have hdeferred : c.deferred.isSome = deferred.isSome := congrArg (fun shape => shape.2.2) hshape
  -- The jumps on the block are filled in at its end, so nothing waits on it when it is left.
  have settled := (places_settle (Nat.le_of_lt hk) hc.block (.inr htarget) none).placed t rfl placed.tidy rfl
  have hc' := placed.tidy.settled (Nat.le_of_lt hk) hc
  have continued := (places_settleContinue (Nat.le_of_lt hk) hc'.block htarget).placed _ rfl settled.tidy rfl
  have all := (placed.seq settled hroot).seq continued hroot
  refine (all.inside hk ht.undeferred ?_ hc'.settleContinue ?_).mono (fun _ _ _ _ h => h) ?_
  · rintro A C i j ⟨_, B, rfl, _, B', rfl, h⟩ id hid
    have hne : id ≠ s.blocks.blocks.size := Nat.ne_of_lt hid
    funext kind
    rw [hR _ _ h id hid, Aims.set, if_neg fun hset => hne hset.1, Aims.set, if_neg fun hset => hne hset.1]
  · intro kind i ha
    cases kind with
    | none =>
        unfold Block.Awaits at ha
        cases hd : c.deferred <;> simp [hd] at ha
    | some op => exact absurd ha List.not_mem_nil
  · rintro p F A ⟨C, D, hagree, hfirst, ⟨_, _, rfl, _, _, rfl, h⟩, l, B, ⟨_, _, rfl, h'⟩, ⟨_, _, -, hP, rfl⟩, hl⟩
    rw [hl] at h ⊢
    refine ⟨C, hagree, ⟨_, h', fun op => if_pos ⟨rfl, rfl⟩⟩, fun hd => ⟨_, h, ?_⟩, hfirst, hP⟩
    rw [Aims.set, if_neg fun hset => absurd hset.2 (by decide), Aims.set, if_pos ⟨rfl, by rw [hdeferred, hd]; rfl⟩]

/-- A construct in a block of its own. -/
theorem Places.inBlock {kinds : Option Opcode → Bool} (body : Nat → Gen Unit) (ht : IsConstruct tags deferred)
    (hb : b.shape = (tags, .none, deferred.isSome)) (hk : k < bs.blocks.size)
    (h : Places k ⟨bs.blocks.push b⟩ (body bs.blocks.size) (Only bs.blocks.size kinds) P)
    (hs : s.blocks.shapes = bs.shapes) (tidy : Tidy (s.cleared k))
    (he : (after (Gen.inBlock tags deferred body) s).errors = s.errors) :
    Placing k Same (fun p F A i j => ∃ C : Aims, (∀ id < bs.blocks.size, C id = A id) ∧
      (∀ op, kinds (some op) = false → C bs.blocks.size (some op) = j) ∧
      (kinds none = false → deferred.isSome = true → C bs.blocks.size none = j) ∧
      (tags.contains .loop = true → deferred = none → C bs.blocks.size none = i) ∧ P p F C i j)
      s (after (Gen.inBlock tags deferred body) s) := by
  have hsize : s.blocks.blocks.size = bs.blocks.size := BlockStack.size_congr hs
  have he' : (after (body s.blocks.blocks.size) (after (enter tags s.code.size .none deferred) s)).errors = s.errors := he
  show Placing _ _ _ s ((after (body s.blocks.blocks.size) (after (enter tags s.code.size .none deferred) s)).exitBlock
    s.blocks.blocks.size)
  rw [← hsize] at h hk ⊢
  have placed := h.placed _ (shapes_entered hs hb) (tidy.entered (Nat.le_of_lt hk) ht.undeferred) he'
  refine (placed.exitBlock (R := fun A B => Only s.blocks.blocks.size kinds A B 0 0) ht hk fun A B honly id hid => ?_).mono
    (fun _ _ _ _ h => h) ?_
  · funext kind
    exact honly id kind fun hset => Nat.ne_of_lt hid hset.1
  · rintro p F A ⟨C, hagree, ⟨B, honly, hout⟩, hcontinue, hfirst, hP⟩
    refine ⟨C, hagree, fun op hop => ?_, fun hnone hd => ?_, hfirst, hP⟩
    · rw [honly _ _ fun hset => absurd (hop.symm.trans hset.2) (by decide), hout]
    · obtain ⟨B', honly', htarget⟩ := hcontinue hd
      rw [honly' _ _ fun hset => absurd (hnone.symm.trans hset.2) (by decide), htarget]

end Blocks

end StackScript
