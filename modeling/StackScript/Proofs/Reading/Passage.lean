/-
Reading a window twice.

A `Passage` is the end of a window in a buffer that is read as it stands and, a second time, in another buffer,
among other tokens.  `Reads` says that a reader does the same both times: it comes to the same result and leaves the
cursor on the same token.  Where a result is itself a position, `Echo` relates the two.  Two readers are compared, one
for each time, because they may be able to look to different depths.
-/
import StackScript.Parser.Basic
import StackScript.Proofs.Reading.Scan

namespace StackScript

/-- The end of a window in a buffer, and the buffer it is read in the second time, `shift` places further on.  Both
times the window holds the same tokens, and the cursor may leave it alike. -/
structure Passage where
  tokens : Array Token
  stop : Nat
  filled : stop ≤ tokens.size
  there : Array Token
  shift : Nat
  moved : Scan.Moved shift stop tokens there
  /-- A cursor that leaves the first buffer leaves the second one. -/
  room : stop < tokens.size ∧ tokens.size + shift ≤ there.size ∨ there.size = tokens.size + shift
  /-- The line behind the window is that of the token in front of the cursor, or of the last one. -/
  lines : ∀ pos, 0 < pos →
    ((there[pos - 1 + shift]?).or there.back?).map Token.line = ((tokens[pos - 1]?).or tokens.back?).map Token.line
  /-- Where there are other tokens there is a token in the window: the line of the first position is taken from it. -/
  anchored : shift = 0 ∧ there = tokens ∨ 0 < stop

/-- The window ends inside the buffer. -/
def TokenStream.Bounded (s : TokenStream) : Prop := s.stop ≤ s.tokens.size

theorem TokenStream.bounded_ofList (tokens : List Token) : (ofList tokens).Bounded := by
  simp [Bounded, ofList]

/-- What a stream shows, read twice as it stands. -/
def TokenStream.passage (s : TokenStream) (h : s.Bounded) : Passage where
  tokens := s.tokens
  stop := s.stop
  filled := h
  there := s.tokens
  shift := 0
  moved := fun _ _ => rfl
  room := .inr rfl
  lines := fun _ _ => rfl
  anchored := .inl ⟨rfl, rfl⟩

/-- A token list, read on its own and behind other tokens. -/
def Passage.behind (before tokens : List Token) (filled : 0 < tokens.length) : Passage where
  tokens := tokens.toArray
  stop := tokens.length
  filled := Nat.le_refl _
  there := (before ++ tokens).toArray
  shift := before.length
  moved := fun i _ => by
    rw [List.getElem?_toArray, List.getElem?_toArray, List.getElem?_append_right (Nat.le_add_left ..), Nat.add_sub_cancel]
  room := .inr (by simp [Nat.add_comm])
  lines := fun pos _ => by
    have last : (before ++ tokens).getLast? = tokens.getLast? := by
      rw [List.getLast?_append, List.getLast?_eq_some_getLast (List.length_pos_iff.mp filled), Option.some_or]
    rw [List.getElem?_toArray, List.getElem?_toArray, List.getElem?_append_right (Nat.le_add_left ..), Nat.add_sub_cancel,
      List.back?_toArray, List.back?_toArray, last]
  anchored := .inr filled

namespace Passage

variable {α β : Type} {W V : Passage} {pos : Nat}

/-- The window from `pos` on as it stands. -/
def near (W : Passage) (pos : Nat) : TokenStream := ⟨W.tokens, pos, W.stop⟩

/-- The same window the second time. -/
def far (W : Passage) (pos : Nat) : TokenStream := ⟨W.there, pos + W.shift, W.stop + W.shift⟩

@[simp] theorem near_tokens (W : Passage) (pos : Nat) : (W.near pos).tokens = W.tokens := rfl

@[simp] theorem near_pos (W : Passage) (pos : Nat) : (W.near pos).pos = pos := rfl

@[simp] theorem near_stop (W : Passage) (pos : Nat) : (W.near pos).stop = W.stop := rfl

@[simp] theorem far_tokens (W : Passage) (pos : Nat) : (W.far pos).tokens = W.there := rfl

@[simp] theorem far_pos (W : Passage) (pos : Nat) : (W.far pos).pos = pos + W.shift := rfl

@[simp] theorem far_stop (W : Passage) (pos : Nat) : (W.far pos).stop = W.stop + W.shift := rfl

/-- Both times the passage is read as it stands. -/
def Unmoved (W : Passage) : Prop := W.shift = 0 ∧ W.there = W.tokens

theorem size_le (W : Passage) : W.tokens.size + W.shift ≤ W.there.size := by
  rcases W.room with ⟨-, hsize⟩ | hsize <;> omega

/-- A passage that ends earlier in the same window. -/
structure Inside (V W : Passage) : Prop where
  tokens : V.tokens = W.tokens
  there : V.there = W.there
  shift : V.shift = W.shift
  stop : V.stop ≤ W.stop

theorem Inside.refl (W : Passage) : W.Inside W := ⟨rfl, rfl, rfl, Nat.le_refl _⟩

theorem Inside.trans {U : Passage} (h : U.Inside V) (h' : V.Inside W) : U.Inside W :=
  ⟨h.tokens.trans h'.tokens, h.there.trans h'.there, h.shift.trans h'.shift, Nat.le_trans h.stop h'.stop⟩

theorem Inside.unmoved (h : V.Inside W) (hW : W.Unmoved) : V.Unmoved :=
  ⟨h.shift.trans hW.1, h.there.trans (hW.2.trans h.tokens.symm)⟩

/-- The passage that ends at `stop`. -/
def narrow (W : Passage) (stop : Nat) (hpos : 0 < stop) (hle : stop ≤ W.stop) : Passage :=
  { W with
    stop := stop
    filled := Nat.le_trans hle W.filled
    moved := W.moved.mono hle
    room := W.room.imp_left fun h => ⟨Nat.lt_of_le_of_lt hle h.1, h.2⟩
    anchored := .inr hpos }

theorem narrow_inside (W : Passage) {stop : Nat} (hpos : 0 < stop) (hle : stop ≤ W.stop) :
    (W.narrow stop hpos hle).Inside W := ⟨rfl, rfl, rfl, hle⟩

/-! ### Readers that do the same -/

/-- One reader at `pos` and another one at the same place the second time come to related results, and both
leave the cursor at the third argument of the relation. -/
def Echo (W : Passage) (pos : Nat) (R : α → α → Nat → Prop) (p p' : Parse α) : Prop :=
  ∃ a a' e, R a a' e ∧ p.run (W.near pos) = (a, W.near e) ∧ p'.run (W.far pos) = (a', W.far e)

/-- Both readers come to the same result. -/
abbrev Reads (W : Passage) (pos : Nat) (R : α → Nat → Prop) (p p' : Parse α) : Prop :=
  W.Echo pos (fun a a' e => a' = a ∧ R a e) p p'

theorem Echo.mono {R S : α → α → Nat → Prop} {p p' : Parse α} (h : W.Echo pos R p p')
    (hRS : ∀ a a' e, R a a' e → S a a' e) : W.Echo pos S p p' := by
  obtain ⟨a, a', e, hR, hnear, hfar⟩ := h
  exact ⟨a, a', e, hRS _ _ _ hR, hnear, hfar⟩

theorem Reads.mono {R S : α → Nat → Prop} {p p' : Parse α} (h : W.Reads pos R p p') (hRS : ∀ a e, R a e → S a e) :
    W.Reads pos S p p' := Echo.mono h fun _ _ _ ⟨same, hR⟩ => ⟨same, hRS _ _ hR⟩

theorem Echo.bind {R : α → α → Nat → Prop} {S : β → β → Nat → Prop} {p p' : Parse α} {f f' : α → Parse β}
    (h : W.Echo pos R p p') (hf : ∀ a a' e, R a a' e → W.Echo e S (f a) (f' a')) :
    W.Echo pos S (p >>= f) (p' >>= f') := by
  obtain ⟨a, a', e, hR, hnear, hfar⟩ := h
  obtain ⟨b, b', e', hS, hnear', hfar'⟩ := hf a a' e hR
  refine ⟨b, b', e', hS, ?_, ?_⟩
  · show (f (p.run (W.near pos)).1).run (p.run (W.near pos)).2 = _
    rw [hnear]
    exact hnear'
  · show (f' (p'.run (W.far pos)).1).run (p'.run (W.far pos)).2 = _
    rw [hfar]
    exact hfar'

theorem Reads.bind {R : α → Nat → Prop} {S : β → β → Nat → Prop} {p p' : Parse α} {f f' : α → Parse β}
    (h : W.Reads pos R p p') (hf : ∀ a e, R a e → W.Echo e S (f a) (f' a)) :
    W.Echo pos S (p >>= f) (p' >>= f') :=
  Echo.bind h fun a _ e ⟨same, hR⟩ => same ▸ hf a e hR

theorem Echo.pure {R : α → α → Nat → Prop} {a a' : α} (h : R a a' pos) : W.Echo pos R (pure a) (pure a') :=
  ⟨a, a', pos, h, rfl, rfl⟩

theorem Reads.map {R : α → Nat → Prop} {S : β → Nat → Prop} {p p' : Parse α} {f : α → β} (h : W.Reads pos R p p')
    (hf : ∀ a e, R a e → S (f a) e) : W.Reads pos S (f <$> p) (f <$> p') :=
  Reads.bind h fun _ _ hR => .pure ⟨rfl, hf _ _ hR⟩

/-- The stream itself is looked at. -/
theorem Echo.get {S : β → β → Nat → Prop} {f f' : TokenStream → Parse β}
    (h : W.Echo pos S (f (W.near pos)) (f' (W.far pos))) : W.Echo pos S (get >>= f) (get >>= f') := h

/-- Something that is the same for both streams is looked at. -/
theorem reads_look {g : TokenStream → α} (h : g (W.far pos) = g (W.near pos)) :
    W.Reads pos (fun a e => e = pos ∧ a = g (W.near pos)) (do return g (← get)) (do return g (← get)) :=
  ⟨_, _, pos, ⟨h, rfl, rfl⟩, rfl, rfl⟩

theorem reads_modify {g : TokenStream → TokenStream} {R : Unit → Nat → Prop} {e : Nat}
    (hnear : g (W.near pos) = W.near e) (hfar : g (W.far pos) = W.far e) (hR : R () e) :
    W.Reads pos R (modify g) (modify g) :=
  ⟨(), (), e, ⟨rfl, hR⟩, congrArg _ hnear, congrArg _ hfar⟩

theorem near_window (W : Passage) (pos : Nat) {start stop : Nat} (hpos : 0 < stop) (hle : stop ≤ W.stop)
    (hstart : start ≤ stop) : (W.near pos).window start stop = (W.narrow stop hpos hle).near start := by
  have filled := W.filled
  simp [TokenStream.window, TokenStream.setStop, TokenStream.setPos, near, narrow]
  omega

theorem far_window (W : Passage) (pos : Nat) {start stop : Nat} (hpos : 0 < stop) (hle : stop ≤ W.stop)
    (hstart : start ≤ stop) :
    (W.far pos).window (start + W.shift) (stop + W.shift) = (W.narrow stop hpos hle).far start := by
  have filled := W.filled
  have size := W.size_le
  have narrowed : (W.narrow stop hpos hle).shift = W.shift := rfl
  simp only [TokenStream.window, TokenStream.setStop, TokenStream.setPos, far, narrowed]
  simp [narrow]
  omega

/-- Reading a narrower window leaves the cursor where it is. -/
theorem Echo.within {R : α → α → Nat → Prop} {p p' : Parse α} {start stop : Nat} (hpos : 0 < stop) (hle : stop ≤ W.stop)
    (hstart : start ≤ stop) (h : (W.narrow stop hpos hle).Echo start R p p') :
    W.Echo pos (fun a a' e => e = pos ∧ ∃ e', R a a' e') (Parse.within start stop p)
      (Parse.within (start + W.shift) (stop + W.shift) p') := by
  obtain ⟨a, a', e, hR, hnear, hfar⟩ := h
  refine ⟨a, a', pos, ⟨rfl, e, hR⟩, ?_, ?_⟩
  · show ((p.run ((W.near pos).window start stop)).1, W.near pos) = _
    rw [near_window W pos hpos hle hstart, hnear]
  · show ((p'.run ((W.far pos).window (start + W.shift) (stop + W.shift))).1, W.far pos) = _
    rw [far_window W pos hpos hle hstart, hfar]

theorem Reads.within {R : α → Nat → Prop} {p p' : Parse α} {start stop : Nat} (hpos : 0 < stop) (hle : stop ≤ W.stop)
    (hstart : start ≤ stop) (h : (W.narrow stop hpos hle).Reads start R p p') :
    W.Reads pos (fun a e => e = pos ∧ ∃ e', R a e') (Parse.within start stop p)
      (Parse.within (start + W.shift) (stop + W.shift) p') :=
  (Echo.within hpos hle hstart h).mono fun _ _ _ ⟨he, e', same, hR⟩ => ⟨same, he, e', hR⟩

end Passage

end StackScript
