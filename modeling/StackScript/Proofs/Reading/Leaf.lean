/-
The leaves of an expression, read twice.

A leaf is read in the window of its own tokens, and a double-quoted string from a text of its own, which is not
part of the buffer at all.  `Splices` is what the two readings need of such strings.
-/
import StackScript.Parser.Leaf
import StackScript.Proofs.Reading.Block
import StackScript.Proofs.Reading.Tree

namespace StackScript

namespace Passage

/-- The pieces of the double-quoted strings between `first` and the end of the window are read the same. -/
def Splices (W : Passage) (first : Nat) (r r' : Readers) : Prop :=
  ∀ i t, first ≤ i → i < W.stop → W.tokens[i]? = some t → t.is .template = true →
    ∀ part ∈ StringLiteral.parts t.text.toList,
      Parse.piece r' t.line part = Parse.piece r t.line part ∧ (Parse.piece r t.line part).meets .read = true

variable {W V : Passage} {first pos : Nat} {r r' : Readers}

theorem Splices.inside (h : W.Splices first r r') (hV : V.Inside W) {first' : Nat} (hle : first ≤ first') :
    V.Splices first' r r' := by
  intro i t hi hlt ht
  have := hV.stop
  exact h i t (by omega) (by omega) (hV.tokens ▸ ht)

/-- What every reader of a leaf comes to. -/
abbrev ReadsLeaf (W : Passage) (pos : Nat) (p p' : Parse Leaf) : Prop :=
  W.Reads pos (fun l _ => l.meets .read = true) p p'

/-! ### Strings -/

theorem template_same {t : Token}
    (h : ∀ part ∈ StringLiteral.parts t.text.toList,
      Parse.piece r' t.line part = Parse.piece r t.line part ∧ (Parse.piece r t.line part).meets .read = true) :
    Parse.template r' t = Parse.template r t ∧ (Parse.template r t).meets .read = true := by
  have all : (parts : List StringLiteral.Part) → (∀ part ∈ parts,
      Parse.piece r' t.line part = Parse.piece r t.line part ∧ (Parse.piece r t.line part).meets .read = true) →
      parts.map (Parse.piece r' t.line) = parts.map (Parse.piece r t.line) ∧
        Piece.allMeet .read (parts.map (Parse.piece r t.line)) = true := by
    intro parts
    induction parts with
    | nil => exact fun _ => ⟨rfl, rfl⟩
    | cons part parts ih =>
        intro h
        obtain ⟨same, meets⟩ := h part (List.mem_cons_self ..)
        obtain ⟨same', meets'⟩ := ih fun part hpart => h part (List.mem_cons_of_mem _ hpart)
        exact ⟨by rw [List.map_cons, List.map_cons, same, same'], both_true meets meets'⟩
  unfold Parse.template
  cases hparts : StringLiteral.parts t.text.toList with
  | nil => exact ⟨rfl, rfl⟩
  | cons part parts =>
      rw [hparts] at h
      obtain ⟨same, meets⟩ := h part (List.mem_cons_self ..)
      obtain ⟨same', meets'⟩ := all parts fun part hpart => h part (List.mem_cons_of_mem _ hpart)
      exact ⟨by simp only [same, same'], both_true meets meets'⟩

/-! ### Variables and names -/

theorem reads_variableLeaf (h : W.Agree (pos + 1) r r') : W.ReadsLeaf pos (Parse.variableLeaf r) (Parse.variableLeaf r') := by
  unfold Parse.variableLeaf
  refine reads_line.bind fun here e h₁ => echo_pos.bind fun before before' e₁ met => ?_
  obtain ⟨h₂, hbefore, hbefore'⟩ := met
  subst h₁ h₂
  refine (reads_skipWhile _).bind fun _ e₂ h₃ => echo_pos.bind fun behind behind' e₃ met => ?_
  obtain ⟨h₄, hbehind, hbehind'⟩ := met
  subst h₄
  have same : behind' - before' - 1 = behind - before - 1 := by omega
  rw [same]
  refine reads_peek.bind fun t e₄ met => ?_
  obtain ⟨h₅, ht⟩ := met
  subst h₅
  cases t with
  | none => exact .pure ⟨rfl, rfl⟩
  | some t =>
      have hlt := (ht t rfl).1
      dsimp only
      split
      · exact .pure ⟨rfl, rfl⟩
      · split
        · refine .get ?_
          by_cases hempty : (W.near e₄).stop - 1 ≤ (W.near e₄).pos + 1
          · have hempty' : (W.far e₄).stop - 1 ≤ (W.far e₄).pos + 1 := by
              simp only [near_stop, near_pos, far_stop, far_pos] at hempty ⊢
              omega
            rw [if_pos hempty, if_pos hempty']
            exact .pure ⟨rfl, rfl⟩
          · have hempty' : ¬(W.far e₄).stop - 1 ≤ (W.far e₄).pos + 1 := by
              simp only [near_stop, near_pos, far_stop, far_pos] at hempty ⊢
              omega
            have inside : (W.far e₄).pos + 1 = e₄ + 1 + W.shift := by simp only [far_pos]; omega
            have last : (W.far e₄).stop - 1 = W.stop - 1 + W.shift := by simp only [far_stop]; omega
            rw [if_neg hempty, if_neg hempty', inside, last, near_pos, near_stop]
            simp only [near_stop, near_pos] at hempty
            refine (Reads.within (by omega) (by omega) (by omega) (reads_filling
              (h.inside (W.narrow_inside (by omega) (by omega))) (by omega))).bind fun name e₅ met => ?_
            obtain ⟨_, _, hname, _⟩ := met
            exact .pure ⟨rfl, hname⟩
        · exact .pure ⟨rfl, rfl⟩

theorem reads_nameLeaf (hlt : pos < W.stop) : W.ReadsLeaf pos Parse.nameLeaf Parse.nameLeaf := by
  unfold Parse.nameLeaf
  refine .get ?_
  have last : (W.far pos).stop - 1 = W.stop - 1 + W.shift := by simp only [far_stop]; omega
  rw [remaining_far, line_far, last, get?_far W pos pos (by omega), near_stop]
  dsimp only
  cases (W.near pos).get? (W.stop - 1) with
  | none => exact .pure ⟨rfl, rfl⟩
  | some t => exact .pure ⟨rfl, rfl⟩

/-! ### Collections -/

/-- The range between the delimiters starts behind the first token, unless it is empty. -/
theorem echo_collectionBody (hlt : pos < W.stop) :
    W.Echo pos (fun c c' e => e = pos ∧ c' = Scan.movedBy W.shift c ∧ c.2 ≤ W.stop ∧ (c.1 < c.2 → pos < c.1))
      Parse.collectionBody Parse.collectionBody := by
  unfold Parse.collectionBody
  refine .get ?_
  simp only [checkKeyword_far, far_pos, far_stop, near_pos, near_stop]
  generalize ((W.near pos).checkKeyword .array || (W.near pos).checkKeyword .list) = long
  refine .pure ⟨rfl, ?_, Nat.sub_le _ _, fun h => ?_⟩
  · simp only [Scan.movedBy, Prod.mk.injEq]
    split <;> omega
  · dsimp only at h ⊢
    split at h <;> split <;> omega

/-- The pieces of the collection that fills the window, each with a token in it. -/
theorem echo_collectionPieces (hlt : pos < W.stop) :
    W.Echo pos (fun c c' e => e = pos ∧ c' = c.map (Scan.movedBy W.shift) ∧
        ∀ range ∈ c, pos < range.1 ∧ range.1 < range.2 ∧ range.2 ≤ W.stop)
      Parse.collectionPieces Parse.collectionPieces := by
  unfold Parse.collectionPieces
  refine (echo_collectionBody hlt).bind fun c c' e met => ?_
  obtain ⟨he, hc', hstop, hstart⟩ := met
  refine .get (.pure ⟨he, ?_, ?_⟩)
  · subst hc'
    dsimp only [Scan.movedBy]
    rw [far_tokens, near_tokens, Scan.splitCommas_moved _ (W.moved.mono hstop), List.filter_map]
    refine congrArg (List.map _) (List.filter_congr fun range _ => ?_)
    simp [Scan.movedBy]
  · intro range hrange
    obtain ⟨hsplit, hfilled⟩ := List.mem_filter.mp hrange
    have bounds := Scan.splitCommas_bounds hsplit
    have hfilled : range.1 < range.2 := by simpa using hfilled
    have := hstart (by omega)
    omega

theorem echo_entryArrow (start : Nat) {stop : Nat} (hle : stop ≤ W.stop) :
    W.Echo pos (fun i i' e => e = pos ∧ W.Found start stop i i') (Parse.entryArrow start stop)
      (Parse.entryArrow (start + W.shift) (stop + W.shift)) :=
  .get (.pure ⟨rfl, found_findAtDepth _ _ _ hle _⟩)

theorem reads_item (h : W.Agree first r r') {start stop : Nat} (hfirst : first ≤ start) (hlt : start < stop)
    (hle : stop ≤ W.stop) :
    W.Reads pos (fun c e => e = pos ∧ c.1.meets .read = true ∧ c.2.explains c.1 = true) (Parse.item r start stop)
      (Parse.item r' (start + W.shift) (stop + W.shift)) := by
  have next : start + W.shift + 1 = start + 1 + W.shift := by omega
  unfold Parse.item
  refine .get ?_
  rw [get?_far W pos pos (by omega), next]
  split
  · refine (Reads.within (by omega) hle (by omega) (h.expr (W.narrow_inside (by omega) hle) false (by omega))).bind
      fun value e met => ?_
    obtain ⟨he, _, hvalue, _⟩ := met
    exact .pure ⟨rfl, he, hvalue, by simp [ItemMark.explains]⟩
  · refine (Reads.within (by omega) hle (by omega) (reads_filling (h.inside (W.narrow_inside (by omega) hle)) hfirst)).bind
      fun c e met => ?_
    obtain ⟨he, _, hvalue, hfilled⟩ := met
    refine .pure ⟨rfl, he, hvalue, ?_⟩
    by_cases hmissing : c.1.isMissing = true
    · simp [ItemMark.explains, hfilled hlt hmissing]
    · simp [ItemMark.explains, hmissing]

theorem reads_entry (h : W.Agree first r r') {start stop : Nat} (hfirst : first ≤ start) (hlt : start < stop)
    (hle : stop ≤ W.stop) :
    W.Reads pos (fun c e => e = pos ∧ ∀ entry, c = .ok entry → entry.meets .read = true) (Parse.entry r start stop)
      (Parse.entry r' (start + W.shift) (stop + W.shift)) := by
  unfold Parse.entry
  refine .get ?_
  rw [get?_far W pos pos (by omega), line_far]
  dsimp only
  generalize ((W.near pos).get? start).elim (W.near pos).line Token.line = line
  refine (echo_entryArrow start hle).bind fun i i' e met => ?_
  obtain ⟨he, hi⟩ := met
  subst he
  cases hi with
  | none =>
      refine (reads_item h hfirst hlt hle).bind fun c e met => ?_
      obtain ⟨he, hvalue, hmark⟩ := met
      refine .pure ⟨rfl, he, ?_⟩
      rintro _ ⟨⟩
      exact both_true hmark hvalue
  | @some arrow hstart hstop =>
      have behind : arrow + W.shift + 1 = arrow + 1 + W.shift := by omega
      dsimp only
      rw [behind]
      by_cases hempty : stop ≤ arrow + 1
      · rw [if_pos hempty, if_pos (by omega)]
        exact .pure ⟨rfl, rfl, nofun⟩
      · rw [if_neg hempty, if_neg (by omega)]
        refine (reads_item h (by omega) (by omega) hle).bind fun c e met => ?_
        obtain ⟨he, hvalue, hmark⟩ := met
        subst he
        by_cases hkey : arrow = start
        · rw [if_pos hkey, if_pos (by omega)]
          refine .pure ⟨rfl, rfl, ?_⟩
          rintro _ ⟨⟩
          exact both_true hmark hvalue
        · rw [if_neg hkey, if_neg (by omega)]
          refine (reads_item h hfirst (by omega) (by omega)).bind fun k e met => ?_
          obtain ⟨he, hkeyMeets, hkeyMark⟩ := met
          refine .pure ⟨rfl, he, ?_⟩
          rintro _ ⟨⟩
          exact both_true (both_true (both_true hkeyMark hmark) hkeyMeets) hvalue

theorem reads_entries (h : W.Agree first r r') {ranges : List (Nat × Nat)}
    (hranges : ∀ range ∈ ranges, first ≤ range.1 ∧ range.1 < range.2 ∧ range.2 ≤ W.stop) :
    W.Reads pos (fun c _ => Entry.allMeet .read c.1 = true) (Parse.entries r ranges)
      (Parse.entries r' (ranges.map (Scan.movedBy W.shift))) := by
  induction ranges generalizing pos with
  | nil => exact .pure ⟨rfl, rfl⟩
  | cons range ranges ih =>
      obtain ⟨hfirst, hlt, hle⟩ := hranges _ (List.mem_cons_self ..)
      rw [List.map_cons]
      unfold Parse.entries
      refine (reads_entry h hfirst hlt hle).bind fun c e met => ?_
      obtain ⟨_, hc⟩ := met
      cases c with
      | error line => exact .pure ⟨rfl, rfl⟩
      | ok entry =>
          refine (ih fun range hrange => hranges range (List.mem_cons_of_mem _ hrange)).bind fun es e hes => .pure ⟨rfl, ?_⟩
          show (entry.meets .read && Entry.allMeet .read es.1) = true
          rw [hc _ rfl, hes]
          rfl

theorem reads_array (h : W.Agree (pos + 1) r r') (hlt : pos < W.stop) :
    W.ReadsLeaf pos (Parse.array r) (Parse.array r') := by
  unfold Parse.array
  refine (echo_collectionPieces hlt).bind fun c c' e met => ?_
  obtain ⟨_, hc', hranges⟩ := met
  subst hc'
  exact (reads_entries h hranges).bind fun _ _ hes => .pure ⟨rfl, hes⟩

theorem reads_targets (h : W.Agree first r r') {ranges : List (Nat × Nat)}
    (hranges : ∀ range ∈ ranges, first ≤ range.1 ∧ range.1 < range.2 ∧ range.2 ≤ W.stop) :
    W.Reads pos (fun xs _ => Expr.allMeet .read xs = true)
      (ranges.mapM fun (start, stop) => Parse.within start stop (r.expr false))
      ((ranges.map (Scan.movedBy W.shift)).mapM fun (start, stop) => Parse.within start stop (r'.expr false)) := by
  induction ranges generalizing pos with
  | nil => exact .pure ⟨rfl, rfl⟩
  | cons range ranges ih =>
      obtain ⟨hfirst, hlt, hle⟩ := hranges _ (List.mem_cons_self ..)
      rw [List.map_cons, List.mapM_cons, List.mapM_cons]
      refine (Reads.within (by omega) hle (Nat.le_of_lt hlt) (h.expr (W.narrow_inside (by omega) hle) false hfirst)).bind
        fun x e met => ?_
      obtain ⟨_, _, hx, _⟩ := met
      refine (ih fun range hrange => hranges range (List.mem_cons_of_mem _ hrange)).bind fun xs e hxs => .pure ⟨rfl, ?_⟩
      show (x.meets .read && Expr.allMeet .read xs) = true
      rw [hx, hxs]
      rfl

theorem reads_list (h : W.Agree (pos + 1) r r') (hlt : pos < W.stop) :
    W.ReadsLeaf pos (Parse.list r) (Parse.list r') := by
  unfold Parse.list
  refine (echo_collectionPieces hlt).bind fun c c' e met => ?_
  obtain ⟨_, hc', hranges⟩ := met
  subst hc'
  exact (reads_targets h hranges).bind fun _ _ hxs => .pure ⟨rfl, hxs⟩

/-! ### All leaves -/

theorem reads_construct (h : W.Agree (pos + 1) r r') : W.ReadsLeaf pos (Parse.construct r) (Parse.construct r') := by
  unfold Parse.construct
  refine reads_bump.bind fun t e he => ?_
  cases t with
  | none => exact reads_line.bind fun _ _ _ => .pure ⟨rfl, rfl⟩
  | some t =>
      have := he.2 rfl
      refine (h.expr (.refl W) false (by omega)).bind fun _ _ met => ?_
      obtain ⟨hx, _⟩ := met
      exact .pure ⟨rfl, hx⟩

theorem reads_tokenLeaf {f f' : Token → Leaf}
    (hf : ∀ t, pos < W.stop → W.tokens[pos]? = some t → f' t = f t ∧ (f t).meets .read = true) :
    W.ReadsLeaf pos (Parse.tokenLeaf f) (Parse.tokenLeaf f') := by
  unfold Parse.tokenLeaf
  refine reads_peek.bind fun t e met => ?_
  obtain ⟨_, ht⟩ := met
  cases t with
  | none => exact reads_line.bind fun _ _ _ => .pure ⟨rfl, rfl⟩
  | some t =>
      obtain ⟨hlt, htoken⟩ := ht t rfl
      exact .pure (hf t hlt htoken)

theorem reads_leaf (h : W.Agree (pos + 1) r r') (hsplices : W.Splices pos r r') (hlt : pos < W.stop) (kind : LeafKind)
    (hkind : kind = .template → W.tokens[pos]?.any (·.is .template) = true) :
    W.ReadsLeaf pos (Parse.leaf r kind) (Parse.leaf r' kind) := by
  unfold Parse.leaf
  split
  · exact reads_tokenLeaf fun t _ _ => ⟨rfl, rfl⟩
  · exact reads_tokenLeaf fun t _ _ => ⟨rfl, rfl⟩
  · refine reads_tokenLeaf fun t hlt ht => template_same (hsplices pos t (Nat.le_refl _) hlt ht ?_)
    have := hkind rfl
    rwa [ht] at this
  · exact reads_variableLeaf h
  · exact reads_nameLeaf hlt
  · exact reads_array h hlt
  · exact reads_list h hlt
  · exact reads_closure h (Nat.le_refl _)
  · exact reads_construct h

/-! ### Expressions -/

/-- A tree is built over the tokens of an expression and every leaf is read in its own window. -/
theorem leavesAgree_leaf (h : W.Agree (pos + 1) r r') (hsplices : W.Splices pos r r') {stop : Nat} (hle : stop ≤ W.stop) :
    LeavesAgree W.tokens W.shift pos stop
      (fun place kind => ((Parse.leaf r kind).run ((W.near pos).window place.start place.stop)).1)
      (fun place kind => ((Parse.leaf r' kind).run ((W.far pos).window place.start place.stop)).1) := by
  intro start last line kind hlow hfilled hhigh hkind
  have hlast : last ≤ W.stop := by omega
  have inside := W.narrow_inside (by omega : 0 < last) hlast
  obtain ⟨l, l', e, ⟨same, meets⟩, hnear, hfar⟩ :=
    reads_leaf (W := W.narrow last (by omega) hlast) ((h.mono (by omega)).inside inside) (hsplices.inside inside hlow)
      hfilled kind hkind
  dsimp only
  rw [near_window W pos (by omega) hlast (by omega), far_window W pos (by omega) hlast (by omega), hnear, hfar]
  exact ⟨same, meets⟩

theorem reads_expr (h : W.Agree (pos + 1) r r') (hsplices : W.Splices pos r r') (atComma : Bool) :
    W.Reads pos (fun x e => x.meets .read = true ∧ (pos ≤ e ∧ (pos ≤ W.stop → e ≤ W.stop)) ∧
      (x.isMissing = true → e = pos)) (Parse.expr r atComma) (Parse.expr r' atComma) := by
  have filled := W.filled
  unfold Parse.expr
  refine .get ?_
  have last := exprEnd_far W pos pos pos atComma
  have bounds := exprEnd_bounds W pos pos atComma
  dsimp only
  rw [far_pos, last, near_pos]
  generalize (W.near pos).exprEnd pos atComma = stop at bounds ⊢
  by_cases hempty : stop ≤ pos
  · rw [if_pos hempty, if_pos (by omega)]
    exact .pure ⟨rfl, rfl, ⟨Nat.le_refl _, id⟩, fun _ => rfl⟩
  · rw [if_neg hempty, if_neg (by omega)]
    have hle : stop ≤ W.stop := by omega
    refine (reads_setPos (by omega)).bind fun _ e he => ?_
    subst he
    have size := W.size_le
    have built := Node.build_moved (W.moved.mono hle) (Nat.lt_of_not_le hempty) (by omega) (by omega)
    have hsome := Node.build_ne_none (Nat.lt_of_not_le hempty) (show e ≤ W.tokens.size by omega)
    rw [near_tokens, far_tokens]
    generalize Node.build W.tokens pos e = tree at built hsome
    generalize Node.build W.there (pos + W.shift) (e + W.shift) = tree' at built
    cases built with
    | error error => exact .pure ⟨rfl, rfl, by omega, nofun⟩
    | ok made =>
        cases made with
        | none => exact absurd rfl hsome
        | some copied =>
            obtain ⟨same, meets⟩ := copied.mapLeaves (leavesAgree_leaf h hsplices hle)
            exact .pure ⟨congrArg Expr.tree same, meets, by omega, nofun⟩

end Passage

end StackScript
