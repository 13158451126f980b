/-
Blocks, containers and tables of two runs side by side.

A construct enters a block of its own, and what waits on it when it is left is filled in.  Code made in a
container of its own starts a new `base`: no block before it belongs to that container, so behind it those
blocks are what they were, and so is what waits on them.
-/
import StackScript.Proofs.Likeness.State

namespace StackScript

open Gen

namespace Kinship

variable {K : Kinship} {flow : Bool} {base : Nat} {p q : ConstantPool} {α β : Type}

/-! ### Jumps that wait -/

/-- Something changes about a block of this container: what waits on it is no load. -/
theorem Match.modifyBlock {s t : GenState} (h : K.Match base s t) {id : Nat} (hid : base ≤ id)
    {f : Block → Block} (hshape : ∀ b, (f b).shape = b.shape)
    (hf : ∀ b, s.blocks.get? id = some b → ∀ i, (f b).Pends i → b.Pends i ∨ ∃ x, s.code[i]? = some x ∧ x.op ≠ .loadc) :
    K.Onto base s t { s with blocks := s.blocks.modify id f } { t with blocks := t.blocks.modify id f } where
  match' := by
    refine { h with
      blocks := by rw [h.blocks], stack := ?_, within := ?_, waiting := fun k c hk hc i hi => ?_ }
    · rw [BlockStack.size_modify]
      exact h.stack
    · rw [BlockStack.size_modify]
      exact h.within
    · rw [BlockStack.get?_modify] at hc
      split at hc
      · rename_i hik
        subst hik
        obtain ⟨b, hb, rfl⟩ := Option.map_eq_some_iff.mp hc
        rcases hf b hb i hi with hi | hx
        · exact h.waiting id b hid hb i hi
        · exact hx
      · exact h.waiting k c hk hc i hi
  forward := by
    refine ⟨s.blocks.shapes_modify id f hshape, fun k hk => ?_, fun _ x hx hop => ⟨x, hx, hop⟩, .refl⟩
    rw [BlockStack.get?_modify, if_neg (by omega)]
  constants := .refl

theorem Onto.trans {s t s₁ t₁ s₂ t₂ : GenState} (h : K.Onto base s t s₁ t₁) (h' : K.Onto base s₁ t₁ s₂ t₂) :
    K.Onto base s t s₂ t₂ := ⟨h'.match', h.forward.trans h'.forward, h.constants.trans h'.constants⟩

theorem like_await {id : Nat} (hid : base ≤ id) {op : Opcode} (hop : op ≠ .loadc) (p3 : Operand) :
    K.Like flow base (await id op p3) := by
  intro p q s t hp hq hroot h
  obtain ⟨emitted, -⟩ := like_emit hop 0 0 p3 p q s t hp hq hroot h
  refine ⟨?_, rfl⟩
  have waits := emitted.match'.modifyBlock hid (f := fun b => { b with pending := b.pending ++ [⟨op, s.code.size⟩] })
    (fun _ => rfl) fun b hb i hi => ?_
  · rw [after_await, after_await, ← h.code.size]
    exact emitted.trans waits
  · refine (Block.pends_await hi).imp_right ?_
    rintro rfl
    exact ⟨_, Array.getElem?_push_size, hop⟩

theorem like_awaitContinue {id : Nat} (hid : base ≤ id) : K.Like flow base (awaitContinue id) := by
  intro p q s t hp hq hroot h
  obtain ⟨emitted, -⟩ := like_emit (show Opcode.jmp ≠ .loadc by decide) 0 0 .none p q s t hp hq hroot h
  refine ⟨?_, rfl⟩
  have waits := emitted.match'.modifyBlock hid
    (f := fun b => { b with deferred := b.deferred.map (· ++ [s.code.size]) })
    (fun _ => by simp [Block.shape]) fun b hb i hi => ?_
  · rw [after_awaitContinue, after_awaitContinue, ← h.code.size]
    exact emitted.trans waits
  · refine (Block.pends_awaitContinue hi).imp_right ?_
    rintro rfl
    exact ⟨_, Array.getElem?_push_size, Opcode.noConfusion⟩

/-- Filling in the targets of some jumps that wait on a block. -/
theorem Match.patchAll {s t : GenState} (h : K.Match base s t) (index : β → Nat) (js : List β) (target : Nat)
    (hjs : ∀ j ∈ js, ∀ x, s.code[index j]? = some x → x.op ≠ .loadc) :
    K.Onto base s t
      { s with buffer := { s.buffer with code := js.foldl (fun code j => code.patch (index j) target) s.code } }
      { t with buffer := { t.buffer with code := js.foldl (fun code j => code.patch (index j) target) t.code } } := by
  refine h.revise (h.code.patchAll index target js hjs) fun i x hx hop => ?_
  rw [getElem?_foldl_patch]
  split
  · rw [hx]
    exact ⟨_, rfl, hop⟩
  · exact ⟨x, hx, hop⟩

theorem like_settle {id : Nat} (hid : base ≤ id) (op : Option Opcode) : K.Like flow base (settle id op) := by
  intro p q s t hp hq hroot h
  refine ⟨?_, rfl⟩
  have shrunk := h.modifyBlock hid
    (f := fun b => { b with pending := b.pending.filter fun j => !BlockStack.settles op s.code j })
    (fun _ => rfl) fun b hb i hi => .inl (Block.pends_settle hi)
  have filled := shrunk.match'.patchAll PendingJump.index
    ((((s.blocks.get? id).map Block.pending).getD []).filter (BlockStack.settles op s.code)) s.code.size
    fun j hj x hx => ?_
  · have settles : BlockStack.settles op t.code = BlockStack.settles op s.code := by
      funext j
      unfold BlockStack.settles
      rw [h.code.size]
    have all := shrunk.trans filled
    rw [after_settle, after_settle]
    unfold BlockStack.settle
    rw [settles, ← h.blocks, ← h.code.size]
    rw [← h.blocks] at all
    exact all
  · obtain ⟨b, hb, pends⟩ := BlockStack.exists_pending (List.mem_filter.mp hj).1
    obtain ⟨y, hy, hop⟩ := h.waiting id b hid hb j.index pends
    have hx' : s.code[j.index]? = some x := hx
    rw [hy] at hx'
    cases hx'
    exact hop

theorem like_settleContinue {id : Nat} (hid : base ≤ id) : K.Like flow base (settleContinue id) := by
  intro p q s t hp hq hroot h
  refine ⟨?_, rfl⟩
  have shrunk := h.modifyBlock hid (f := fun b => { b with deferred := b.deferred.map fun _ => [] })
    (fun _ => by simp [Block.shape]) fun b hb i hi => .inl (Block.pends_settleContinue hi)
  have filled := shrunk.match'.patchAll (fun i => i)
    (((s.blocks.get? id).bind Block.deferred).getD []) s.code.size fun j hj x hx => ?_
  · have all := shrunk.trans filled
    rw [after_settleContinue, after_settleContinue]
    unfold BlockStack.settleContinue
    rw [← h.blocks, ← h.code.size]
    rw [← h.blocks] at all
    exact all
  · obtain ⟨b, hb, pends⟩ := BlockStack.exists_deferred hj
    obtain ⟨y, hy, hop⟩ := h.waiting id b hid hb j pends
    have hx' : s.code[j]? = some x := hx
    rw [hy] at hx'
    cases hx'
    exact hop

theorem like_restartHere {id : Nat} (hid : base ≤ id) : K.Like flow base (restartHere id) := by
  intro p q s t _ _ _ h
  refine ⟨?_, rfl⟩
  rw [after_restartHere, after_restartHere, ← h.code.size]
  exact h.modifyBlock hid (fun _ => rfl) fun b hb i hi => .inl hi

theorem like_recordJump (id : Nat) : K.Like flow base (recordJump id) :=
  like_still (fun _ => ⟨rfl, rfl, rfl⟩) fun _ _ h => { h with }

/-! ### Blocks of constructs -/

/-- A block is entered on which nothing waits yet. -/
theorem Match.enter {s t : GenState} (h : K.Match base s t) (tags : List BlockTag) (first : Nat)
    (owner : BlockOwner) {deferred : Option (List Nat)} (hdeferred : deferred.getD [] = []) :
    K.Match base (after (enter tags first owner deferred) s) (after (enter tags first owner deferred) t) := by
  rw [after_enter, after_enter]
  refine { h with blocks := by rw [h.blocks], stack := ?_, within := ?_, waiting := fun id b hid hb i hi => ?_ }
  · rw [Array.size_push]
    exact Nat.succ_pos _
  · rw [Array.size_push]
    exact Nat.le_succ_of_le h.within
  · rw [BlockStack.get?_push] at hb
    split at hb
    · cases hb
      rcases hi with ⟨j, hj, -⟩ | hi
      · cases hj
      · rw [hdeferred] at hi
        cases hi
    · exact h.waiting id b hid hb i hi

/-- The block that was entered last is left.  What waits on it is forgotten. -/
theorem Match.leave {s t : GenState} {n : Nat} (h : K.Match n s t) (hstack : 1 < s.blocks.blocks.size)
    (hbase : base < s.blocks.blocks.size) (hn : n ≤ base ∨ base + 1 = s.blocks.blocks.size) :
    K.Match base (after leave s) (after leave t) := by
  have hsize : s.blocks.leave.blocks.size = s.blocks.blocks.size - 1 := by
    unfold BlockStack.leave
    rw [if_neg (by omega), Array.size_pop]
  rw [after_leave, after_leave]
  refine { h with blocks := by rw [h.blocks], stack := ?_, within := ?_, waiting := fun id b hid hb i hi => ?_ }
  · rw [hsize]
    omega
  · rw [hsize]
    omega
  · rw [BlockStack.get?_leave _ hstack] at hb
    split at hb
    · rename_i hlt
      exact h.waiting id b (by omega) hb i hi
    · cases hb

theorem size_enter (tags : List BlockTag) (first : Nat) (owner : BlockOwner) (deferred : Option (List Nat))
    (s : GenState) :
    (after (enter tags first owner deferred) s).blocks.blocks.size = s.blocks.blocks.size + 1 := Array.size_push _

/-- Entering and leaving a block around steps that keep what is outside of it. -/
theorem outer_leave {s s' : GenState} {b : Block} {n : Nat} (hn : n ≤ s.blocks.blocks.size)
    (hstack : 0 < s.blocks.blocks.size) (hshapes : s'.blocks.shapes = (BlockStack.mk (s.blocks.blocks.push b)).shapes)
    (h : ∀ id < n, s'.blocks.get? id = (BlockStack.mk (s.blocks.blocks.push b)).get? id) :
    ∀ id < n, (after leave s').blocks.get? id = s.blocks.get? id := by
  intro id hid
  have hsize : s'.blocks.blocks.size = s.blocks.blocks.size + 1 := by
    rw [BlockStack.size_congr hshapes, Array.size_push]
  rw [after_leave, BlockStack.get?_leave _ (by omega), if_pos (by omega), h id hid, BlockStack.get?_push,
    if_neg (by omega)]

/-- Steps inside a block of their own. -/
theorem twins_inside {R : (Nat → Nat → Prop) → α → α → Prop} (tags : List BlockTag) (first : Nat)
    (owner : BlockOwner) {deferred : Option (List Nat)} (hdeferred : deferred.getD [] = [])
    {b b' : Nat → Gen α} (h : ∀ id, base ≤ id → K.Twins flow base p q (b id) (b' id) R) :
    K.Twins flow base p q
      (enter tags first owner deferred >>= fun id => b id >>= fun a => leave >>= fun _ => pure a)
      (enter tags first owner deferred >>= fun id => b' id >>= fun a => leave >>= fun _ => pure a) R := by
  intro s t hp hq hroot hst
  have hid : result (enter tags first owner deferred) t = result (enter tags first owner deferred) s := by
    rw [result_enter, result_enter, hst.blocks]
  obtain ⟨inner, hr⟩ := h (result (enter tags first owner deferred) s) hst.within
    (after (enter tags first owner deferred) s) (after (enter tags first owner deferred) t) hp hq
    (fun hflow id hid => BlockStack.hides_push (hroot hflow id hid) _) (hst.enter tags first owner hdeferred)
  have hsize := (BlockStack.size_congr inner.forward.shapes).trans (size_enter ..)
  have hstack := hst.stack
  have hwithin := hst.within
  simp only [after_bind, result_bind, hid, after_pure, result_pure]
  refine ⟨⟨inner.match'.leave (by omega) (by omega) (.inl (Nat.le_refl _)), ?_, inner.constants⟩, hr⟩
  exact {
    shapes := BlockStack.shapes_leave hst.stack inner.forward.shapes
    outer := outer_leave hst.within hst.stack inner.forward.shapes inner.forward.outer
    solid := inner.forward.solid
    constants := inner.forward.constants }

theorem twins_owned {R : (Nat → Nat → Prop) → α → α → Prop} (tags : List BlockTag) (first : Nat)
    (owner : BlockOwner) {body body' : Nat → Gen α}
    (h : ∀ id, base ≤ id → K.Twins flow base p q (body id) (body' id) R) :
    K.Twins flow base p q (owned tags first owner body) (owned tags first owner body') R :=
  twins_inside tags first owner rfl h

theorem like_inBlock (tags : List BlockTag) {deferred : Option (List Nat)} (hdeferred : deferred.getD [] = [])
    {body : Nat → Gen Unit} (h : ∀ id, base ≤ id → K.Like flow base (body id)) :
    K.Like flow base (inBlock tags deferred body) := by
  -- The block is left behind everything in it.
  have nested : inBlock tags deferred body = here >>= fun first => enter tags first .none deferred >>= fun id =>
      (body id >>= fun _ => settle id none >>= fun _ => settleContinue id) >>= fun a => leave >>= fun _ => pure a := by
    simp [inBlock]
  rw [nested]
  refine like_here.bind fun first p q => twins_inside tags first .none hdeferred fun id hid => ?_
  exact ((h id hid).bind fun _ => (like_settle hid none).bind fun _ => like_settleContinue hid) p q

/-! ### Containers of their own -/

/-- With no block of the container being filled, nothing waits in it. -/
theorem Match.sealed {s t : GenState} (h : K.Match base s t) : K.Match s.blocks.blocks.size s t :=
  { h with
    within := Nat.le_refl _
    waiting := fun id b hid hb => by
      rw [BlockStack.get?, Array.getElem?_eq_none hid] at hb
      cases hb }

/-- Steps that leave code and blocks as they were are twins whatever waits. -/
theorem twins_sealed {R : (Nat → Nat → Prop) → α → α → Prop} {m m' : Gen α}
    (h : ∀ s t, p.Grows s.pool → q.Grows t.pool → K.Match s.blocks.blocks.size s t →
      K.Onto s.blocks.blocks.size s t (after m s) (after m' t) ∧ (after m s).code = s.code ∧
        R (K.same (after m s) (after m' t)) (result m s) (result m' t)) :
    K.Twins flow base p q m m' R := by
  intro s t hp hq _ hst
  obtain ⟨made, hcode, hr⟩ := h s t hp hq hst.sealed
  have hsize := BlockStack.size_congr made.forward.shapes
  refine ⟨⟨{ made.match' with within := ?_, waiting := fun id b hid hb i hi => ?_ }, ?_, made.constants⟩, hr⟩
  · rw [hsize]
    exact hst.within
  · have hlt : id < s.blocks.blocks.size := hsize ▸ (Array.getElem?_eq_some_iff.mp hb).1
    rw [made.forward.outer id hlt] at hb
    rw [hcode]
    exact hst.waiting id b hid hb i hi
  · exact { made.forward with
      outer := fun id hid => made.forward.outer id (Nat.lt_of_lt_of_le hid hst.within) }

variable (K) in
/-- Code was made in a container of its own, among blocks that from `base` on belong to it. -/
structure Aside (base : Nat) (s t s' t' : GenState) : Prop where
  match' : K.Match s'.blocks.blocks.size s' t'
  code : s'.code = s.code
  shapes : s'.blocks.shapes = s.blocks.shapes
  outer : ∀ id < base, s'.blocks.get? id = s.blocks.get? id
  constants : s.pool.Grows s'.pool
  constants' : t.pool.Grows t'.pool

theorem Aside.onto {s t s' t' : GenState} (h : K.Aside s.blocks.blocks.size s t s' t') :
    K.Onto s.blocks.blocks.size s t s' t' where
  match' := by
    rw [← BlockStack.size_congr h.shapes]
    exact h.match'
  forward := ⟨h.shapes, h.outer, fun i x hx hop => ⟨x, by rw [h.code]; exact hx, hop⟩, h.constants⟩
  constants := h.constants'

/-- A container of its own, on blocks on which nothing waits. -/
theorem aside_inContainer {s t : GenState} {body body' : Gen Unit} (hp : p.Grows s.pool) (hq : q.Grows t.pool)
    (h : K.Match base s t) (hroot : flow = true → s.blocks.Rooted base)
    (hempty : ∀ id b, base ≤ id → s.blocks.get? id = some b → ∀ i, ¬b.Pends i)
    (hbody : K.Twins flow base p q body body' Equal) :
    K.Aside base s t (after (inContainer body) s) (after (inContainer body') t) ∧
      Code.Alike (K.same (after (inContainer body) s) (after (inContainer body') t))
        (result (inContainer body) s) (result (inContainer body') t) := by
  have opened : K.Match base (after openContainer s) (after openContainer t) :=
    { h with
      code := .empty
      waiting := fun id b hid hb i hi => absurd hi (hempty id b hid hb i) }
  obtain ⟨inner, -⟩ := hbody (after openContainer s) (after openContainer t) hp hq hroot opened
  have mono := K.same_mono inner.forward.constants inner.constants
  refine ⟨⟨?_, rfl, inner.forward.shapes, inner.forward.outer, inner.forward.constants, inner.constants⟩,
    inner.match'.code⟩
  exact { inner.match'.sealed with
    code := h.code.mono mono
    waiting := fun id b hid hb => by
      rw [BlockStack.get?, Array.getElem?_eq_none hid] at hb
      cases hb }

/-- Values in a container of their own. -/
theorem twins_inContainer {body body' : Gen Unit}
    (h : ∀ base, K.Twins false base p q body body' Equal) :
    K.Twins flow base p q (inContainer body) (inContainer body') Code.Alike := by
  refine twins_sealed fun s t hp hq hst => ?_
  obtain ⟨made, hcode⟩ := aside_inContainer hp hq hst (fun hflow : false = true => absurd hflow (by decide))
    (fun id b hid hb => by
      rw [BlockStack.get?, Array.getElem?_eq_none hid] at hb
      cases hb) (h _)
  exact ⟨made.onto, made.code, hcode⟩

/-- Statements in a container of their own, inside a block they do not jump out of. -/
theorem twins_enclosed {R : (Nat → Nat → Prop) → α → α → Prop} (tags : List BlockTag) (owner : BlockOwner)
    (htags : ([.guarded, .function].any tags.contains && [.exception, .function].any tags.contains) = true)
    {m m' : Nat → Gen α}
    (h : ∀ s t id, p.Grows s.pool → q.Grows t.pool → K.Match id s t → s.blocks.Rooted id →
      (∀ k b, id ≤ k → s.blocks.get? k = some b → ∀ i, ¬b.Pends i) →
      K.Aside id s t (after (m id) s) (after (m' id) t) ∧
        R (K.same (after (m id) s) (after (m' id) t)) (result (m id) s) (result (m' id) t)) :
    K.Twins flow base p q (owned tags 0 owner m) (owned tags 0 owner m') R := by
  refine twins_sealed fun s t hp hq hst => ?_
  rw [Bool.and_eq_true] at htags
  have hnew : (after (enter tags 0 owner none) s).blocks.get? s.blocks.blocks.size =
      some { tags := tags, first := 0, owner := owner } := by
    rw [after_enter, BlockStack.get?_push, if_pos rfl]
  have hid : result (enter tags 0 owner none) t = s.blocks.blocks.size := by
    rw [result_enter, hst.blocks]
  obtain ⟨made, hr⟩ := h (after (enter tags 0 owner none) s) (after (enter tags 0 owner none) t)
    s.blocks.blocks.size hp hq (hst.enter tags 0 owner rfl)
    (fun id hid => ⟨_, _, hid, hnew, htags.1, htags.2⟩) fun k b hk hb i hi => by
      have hlt := (Array.getElem?_eq_some_iff.mp hb).1
      rw [after_enter, Array.size_push] at hlt
      obtain rfl : k = s.blocks.blocks.size := by omega
      rw [hnew] at hb
      cases hb
      rcases hi with ⟨j, hj, -⟩ | hi
      · cases hj
      · cases hi
  have hsize := (BlockStack.size_congr made.shapes).trans (size_enter ..)
  have hstack := hst.stack
  unfold owned
  simp only [after_bind, result_bind, hid, result_enter, after_pure, result_pure]
  refine ⟨⟨made.match'.leave (by omega) (by omega) (.inr hsize.symm), ?_, made.constants'⟩, made.code, hr⟩
  exact {
    shapes := BlockStack.shapes_leave hst.stack made.shapes
    outer := outer_leave (Nat.le_refl _) hst.stack made.shapes made.outer
    solid := fun i x hx hop => ⟨x, by rw [after_leave]; exact made.code ▸ hx, hop⟩
    constants := made.constants }

/-! ### Tables -/

/-- Steps that change the tables and nothing else. -/
theorem twins_program {R : (Nat → Nat → Prop) → α → α → Prop} {m m' : Gen α}
    (h : ∀ s t, p.Grows s.pool → q.Grows t.pool → K.Match base s t → ∃ P Q,
      after m s = { s with program := P } ∧ after m' t = { t with program := Q } ∧
      P.constants = s.pool ∧ Q.constants = t.pool ∧ P.Alike (K.same s t) Q ∧
      R (K.same s t) (result m s) (result m' t)) : K.Twins flow base p q m m' R := by
  intro s t hp hq _ hst
  obtain ⟨P, Q, hs, ht, hP, hQ, alike, hr⟩ := h s t hp hq hst
  rw [hs, ht]
  have same : K.same { s with program := P } { t with program := Q } = K.same s t := by
    show K.slots P.constants Q.constants = K.slots s.pool t.pool
    rw [hP, hQ]
  refine ⟨⟨{ hst with code := ?_, pools := ?_, program := ?_, statics := ?_ }, .same rfl rfl ?_, ?_⟩, ?_⟩
  · rw [same]
    exact hst.code
  · show K.pools P.constants Q.constants
    rw [hP, hQ]
    exact hst.pools
  · rw [same]
    exact alike
  · rw [same]
    exact hst.statics
  · show s.pool.Grows P.constants
    rw [hP]
    exact .refl
  · show t.pool.Grows Q.constants
    rw [hQ]
    exact .refl
  · rw [same]
    exact hr

theorem like_reserveSwitch : K.Like flow base reserveSwitch := by
  refine fun p q => twins_program fun s t _ _ h => ⟨_, _, rfl, rfl, rfl, rfl, ?_, h.program.switches.length_eq⟩
  exact { h.program with switches := forall₂_snoc h.program.switches ⟨.nil, rfl, rfl⟩ }

theorem twins_fillSwitch (id : Nat) {table table' : SwitchTable}
    (htable : ∀ p' q', p.Grows p' → q.Grows q' → table.Alike (K.slots p' q') table') :
    K.Twins flow base p q (fillSwitch id table) (fillSwitch id table') Equal := by
  refine twins_program fun s t hp hq h => ⟨_, _, rfl, rfl, rfl, rfl, ?_, rfl⟩
  exact { h.program with switches := forall₂_set h.program.switches (htable _ _ hp hq) id }

theorem like_addForeach (table : ForeachTable) : K.Like flow base (addForeach table) := by
  refine fun p q => twins_program fun s t _ _ h =>
    ⟨_, _, rfl, rfl, rfl, rfl, ?_, congrArg List.length h.program.foreachs⟩
  exact { h.program with foreachs := congrArg (· ++ [table]) h.program.foreachs }

theorem like_reserveException : K.Like flow base reserveException := by
  refine fun p q => twins_program fun s t _ _ h => ⟨_, _, rfl, rfl, rfl, rfl, ?_, h.program.exceptions.length_eq⟩
  exact { h.program with exceptions := forall₂_snoc h.program.exceptions .nil }

theorem twins_addCatch (id : Nat) {entry entry' : CatchEntry}
    (hentry : ∀ p' q', p.Grows p' → q.Grows q' → entry.Alike (K.slots p' q') entry') :
    K.Twins flow base p q (addCatch id entry) (addCatch id entry') Equal := by
  refine twins_program fun s t hp hq h => ⟨_, _, rfl, rfl, rfl, rfl, ?_, rfl⟩
  exact { h.program with
    exceptions := forall₂_modify h.program.exceptions (fun _ _ hab => forall₂_snoc hab (hentry _ _ hp hq)) id }

theorem like_addLink (link : ClassLink) : K.Like flow base (addLink link) := by
  refine fun p q => twins_program fun s t _ _ h =>
    ⟨_, _, rfl, rfl, rfl, rfl, ?_, congrArg List.length h.program.classLinks⟩
  exact { h.program with classLinks := congrArg (· ++ [link]) h.program.classLinks }

theorem twins_addClosure {f g : FunctionDef}
    (hfg : ∀ p' q', p.Grows p' → q.Grows q' → f.Alike (K.slots p' q') g) :
    K.Twins flow base p q (addClosure f) (addClosure g) Equal := by
  refine twins_program fun s t hp hq h => ⟨_, _, rfl, rfl, rfl, rfl, ?_, h.program.closures.length_eq⟩
  exact { h.program with closures := forall₂_snoc h.program.closures (hfg _ _ hp hq) }

theorem twins_installFunction {f g : FunctionDef}
    (hfg : ∀ p' q', p.Grows p' → q.Grows q' → f.Alike (K.slots p' q') g) :
    K.Twins flow base p q (installFunction f) (installFunction g) Equal := by
  refine twins_program fun s t hp hq h => ?_
  unfold installFunction Equal
  rw [after_modifyGet, after_modifyGet, result_modifyGet, result_modifyGet]
  rcases h.program.installFunction? (hfg _ _ hp hq) with ⟨hs, ht⟩ | ⟨hs, ht, alike⟩
  · rw [hs, ht]
    exact ⟨s.program, t.program, rfl, rfl, rfl, rfl, h.program, rfl⟩
  · rw [hs, ht]
    exact ⟨_, _, rfl, rfl, rfl, rfl, alike, rfl⟩

theorem twins_installClass {c d : ClassDef}
    (hcd : ∀ p' q', p.Grows p' → q.Grows q' → c.Alike (K.slots p' q') d) :
    K.Twins flow base p q (installClass c) (installClass d) Equal := by
  refine twins_program fun s t hp hq h => ?_
  unfold installClass Equal
  rw [after_modifyGet, after_modifyGet, result_modifyGet, result_modifyGet]
  rcases h.program.installClass? (hcd _ _ hp hq) with ⟨hs, ht⟩ | ⟨hs, ht, alike⟩
  · rw [hs, ht]
    exact ⟨s.program, t.program, rfl, rfl, rfl, rfl, h.program, rfl⟩
  · rw [hs, ht]
    exact ⟨_, _, rfl, rfl, rfl, rfl, alike, rfl⟩

theorem twins_defineConstant (name : String) {a b : Code}
    (hab : ∀ p' q', p.Grows p' → q.Grows q' → Code.Alike (K.slots p' q') a b) :
    K.Twins flow base p q (defineConstant name a) (defineConstant name b) Equal :=
  twins_program fun _ _ hp hq h =>
    ⟨_, _, rfl, rfl, rfl, rfl, h.program.defineConstant name (hab _ _ hp hq), rfl⟩

/-- The names of anonymous functions depend on the names that are taken. -/
theorem freeClosure_congr {σ : Nat → Nat → Prop} {P Q : Program} (h : P.Alike σ Q) (fuel n : Nat) :
    freeClosure P fuel n = freeClosure Q fuel n := by
  induction fuel generalizing n with
  | zero => rfl
  | succ fuel ih =>
      unfold freeClosure
      rw [h.isSome_function?, ih]

theorem like_nextClosureName : K.Like flow base nextClosureName := by
  intro p q s t _ _ _ h
  have name : freeClosure s.program s.program.functions.length s.closures =
      freeClosure t.program t.program.functions.length t.closures := by
    rw [freeClosure_congr h.program, h.program.functions.length_eq, h.closures]
  refine ⟨⟨{ h with closures := ?_ }, .same rfl rfl .refl, .refl⟩, ?_⟩
  · show freeClosure s.program _ _ + 1 = freeClosure t.program _ _ + 1
    rw [name]
  · show closureName (freeClosure s.program _ _) = closureName (freeClosure t.program _ _)
    rw [name]

/-! ### Static variables -/

theorem twins_addStatic {v w : StaticVar}
    (hvw : ∀ p' q', p.Grows p' → q.Grows q' → v.Alike (K.slots p' q') w) :
    K.Twins flow base p q (addStatic v) (addStatic w) Equal := by
  intro s t hp hq _ h
  have hstatics := h.statics
  unfold addStatic Equal
  rw [after_modifyGet, after_modifyGet, result_modifyGet, result_modifyGet]
  cases hs : s.statics with
  | nil =>
      rw [hs] at hstatics
      rw [List.forall₂_nil_left_iff.mp hstatics]
      exact ⟨⟨h, .same rfl rfl .refl, .refl⟩, rfl⟩
  | cons frame frames =>
      rw [hs] at hstatics
      obtain ⟨frame', frames', hframe, hframes, ht⟩ := List.forall₂_cons_left_iff.mp hstatics
      rw [ht]
      refine ⟨⟨{ h with statics := ?_ }, .same rfl rfl .refl, .refl⟩, rfl⟩
      exact .cons (forall₂_snoc hframe (hvw _ _ hp hq)) hframes

/-- The static variables of a body made on the side. -/
theorem aside_collectingStatics {s t : GenState} {body body' : Gen α} {R : (Nat → Nat → Prop) → α → α → Prop}
    (h : K.Match base s t)
    (hbody : K.Match base { s with statics := [] :: s.statics } { t with statics := [] :: t.statics } →
      K.Aside base { s with statics := [] :: s.statics } { t with statics := [] :: t.statics }
        (after body { s with statics := [] :: s.statics }) (after body' { t with statics := [] :: t.statics }) ∧
      R (K.same (after body { s with statics := [] :: s.statics }) (after body' { t with statics := [] :: t.statics }))
        (result body { s with statics := [] :: s.statics }) (result body' { t with statics := [] :: t.statics })) :
    K.Aside base s t (after (collectingStatics body) s) (after (collectingStatics body') t) ∧
      R (K.same (after (collectingStatics body) s) (after (collectingStatics body') t))
        (result (collectingStatics body) s).1 (result (collectingStatics body') t).1 ∧
      List.Forall₂ (StaticVar.Alike (K.same (after (collectingStatics body) s) (after (collectingStatics body') t)))
        (result (collectingStatics body) s).2 (result (collectingStatics body') t).2 := by
  obtain ⟨made, hr⟩ := hbody { h with statics := .cons .nil h.statics }
  have hstatics := made.match'.statics
  refine ⟨⟨{ made.match' with statics := ?_ }, made.code, made.shapes, made.outer, made.constants,
    made.constants'⟩, hr, ?_⟩
  · have tails : ∀ {xs ys : List (List StaticVar)} {S : List StaticVar → List StaticVar → Prop},
        List.Forall₂ S xs ys → List.Forall₂ S xs.tail ys.tail := by
      intro xs ys S hxy
      cases hxy with
      | nil => exact .nil
      | cons _ h => exact h
    exact tails hstatics
  · have heads : ∀ {xs ys : List (List StaticVar)} {S : StaticVar → StaticVar → Prop},
        List.Forall₂ (List.Forall₂ S) xs ys → List.Forall₂ S (xs.headD []) (ys.headD []) := by
      intro xs ys S hxy
      cases hxy with
      | nil => exact .nil
      | cons h _ => exact h
    exact heads hstatics

end Kinship

end StackScript
