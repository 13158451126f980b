/-
Readers without a bound on the depth.

Every level of `readers` looks one construct deeper, and a bound that is large for the text ahead is never felt.
`unbounded` picks such a bound for each stream anew.  What it reads depends on what it reads of less text only: a
construct that is read with any readers that are right about less text is read right.
-/
import StackScript.Proofs.Reading.Script

namespace StackScript

open Parse

namespace TokenStream

/-- The number of characters that the tokens from the cursor to the end of the window cover at least. -/
def extent (s : TokenStream) : Nat := Token.extents ((s.tokens.toList.take s.stop).drop s.pos)

end TokenStream

/-- Two families of readers do the same with a stream. -/
structure Readers.SameAt (r r' : Readers) (s : TokenStream) : Prop where
  stmt : r.stmt.run s = r'.stmt.run s
  expr (atComma : Bool) : (r.expr atComma).run s = (r'.expr atComma).run s
  scope : r.scope.run s = r'.scope.run s

/-- Two families of readers do the same with every stream that has less text ahead. -/
def Readers.SameBelow (r r' : Readers) (s : TokenStream) : Prop :=
  ∀ t : TokenStream, t.Bounded → t.extent < s.extent → r.SameAt r' t

/-- A reader that is picked for the stream it reads. -/
def Parse.picked {α : Type} (p : TokenStream → Parse α) : Parse α := do p (← get)

theorem Parse.run_picked {α : Type} (p : TokenStream → Parse α) (s : TokenStream) : (picked p).run s = (p s).run s := rfl

/-- The readers that look as deep as the text ahead can nest. -/
def Parse.unbounded : Readers where
  stmt := picked fun s => (readers (2 * s.extent + 2)).stmt
  expr atComma := picked fun s => (readers (2 * s.extent + 2)).expr atComma
  scope := picked fun s => (readers (2 * s.extent + 2)).scope

/-! ### Levels -/

theorem stmt_unbounded (s : TokenStream) : unbounded.stmt.run s = (readers (2 * s.extent + 2)).stmt.run s :=
  run_picked (fun s => (readers (2 * s.extent + 2)).stmt) s

theorem expr_unbounded (s : TokenStream) (atComma : Bool) :
    (unbounded.expr atComma).run s = ((readers (2 * s.extent + 2)).expr atComma).run s :=
  run_picked (fun s => (readers (2 * s.extent + 2)).expr atComma) s

theorem scope_unbounded (s : TokenStream) : unbounded.scope.run s = (readers (2 * s.extent + 2)).scope.run s :=
  run_picked (fun s => (readers (2 * s.extent + 2)).scope) s

theorem stmt_readers (n : Nat) (s : TokenStream) :
    (readers (n + 1)).stmt.run s = (Parse.statement (readers n)).run s := rfl

theorem expr_readers (n : Nat) (s : TokenStream) (atComma : Bool) :
    ((readers (n + 1)).expr atComma).run s = (Parse.expr (readers n) atComma).run s := rfl

theorem scope_readers (n : Nat) (s : TokenStream) :
    (readers (n + 1)).scope.run s = (Parse.scope (readers n)).run s := rfl

namespace Passage

variable {W : Passage} {first pos : Nat} {r : Readers}

theorem bounded_near (W : Passage) (pos : Nat) : (W.near pos).Bounded := W.filled

@[simp] theorem extent_near (W : Passage) (pos : Nat) : (W.near pos).extent = W.extent pos := rfl

/-- With nothing in front, a reader that does the same at the near position reads the same. -/
theorem Reads.congr {α : Type} {R : α → Nat → Prop} {p p' q q' : Parse α} (h : W.Reads pos R p p')
    (hW : W.Unmoved) (hp : q.run (W.near pos) = p.run (W.near pos)) (hp' : q'.run (W.near pos) = p'.run (W.near pos)) :
    W.Reads pos R q q' := by
  obtain ⟨a, a', e, hR, hnear, hfar⟩ := h
  refine ⟨a, a', e, hR, hp.trans hnear, ?_⟩
  rw [hW.far] at hfar ⊢
  exact hp'.trans hfar

/-- Both readings of a passage with nothing in front are one. -/
theorem Reads.run_eq {α : Type} {R : α → Nat → Prop} {p p' : Parse α} (h : W.Reads pos R p p') (hW : W.Unmoved) :
    p.run (W.near pos) = p'.run (W.near pos) := by
  obtain ⟨a, a', e, ⟨rfl, -⟩, hnear, hfar⟩ := h
  rw [hW.far, hW.far] at hfar
  rw [hnear, hfar]

/-- Any level that is large for the text ahead does what the readers without a bound do. -/
theorem agree_unbounded (hW : W.Unmoved) {n : Nat} (hn : 2 * W.extent first + 2 ≤ n) :
    W.Agree first (readers n) unbounded := by
  have deep {V : Passage} (hV : V.Inside W) {pos : Nat} (hpos : first ≤ pos) :
      V.Agree pos (readers n) (readers (2 * V.extent pos + 2)) := by
    have := extent_inside hV hpos
    exact agree_deep _ _ (by omega) (by omega)
  refine ⟨fun {V} hV pos hpos => ?_, fun {V} hV atComma pos hpos => ?_, fun {V} hV pos hpos => ?_⟩
  · exact ((deep hV hpos).stmt (.refl V) (Nat.le_refl _)).congr (hV.unmoved hW) rfl (stmt_unbounded _)
  · exact ((deep hV hpos).expr (.refl V) atComma (Nat.le_refl _)).congr (hV.unmoved hW) rfl (expr_unbounded _ _)
  · exact ((deep hV hpos).scope (.refl V) (Nat.le_refl _)).congr (hV.unmoved hW) rfl (scope_unbounded _)

/-- The readers without a bound do the same every time. -/
theorem agree_unbounded_self (hW : W.Unmoved) (first : Nat) : W.Agree first unbounded unbounded := by
  have h : W.Agree first (readers (2 * W.extent first + 2)) unbounded := agree_unbounded hW (Nat.le_refl _)
  refine ⟨fun {V} hV pos hpos => ?_, fun {V} hV atComma pos hpos => ?_, fun {V} hV pos hpos => ?_⟩
  · have both := h.stmt hV hpos
    exact both.congr (hV.unmoved hW) (both.run_eq (hV.unmoved hW)).symm rfl
  · have both := h.expr hV atComma hpos
    exact both.congr (hV.unmoved hW) (both.run_eq (hV.unmoved hW)).symm rfl
  · have both := h.scope hV hpos
    exact both.congr (hV.unmoved hW) (both.run_eq (hV.unmoved hW)).symm rfl

/-- Readers that are right about less text are right about everything behind the first token. -/
theorem agree_of_sameBelow (hW : W.Unmoved) (h : r.SameBelow unbounded (W.near pos)) (hlt : pos < W.stop) :
    W.Agree (pos + 1) r unbounded := by
  have self := agree_unbounded_self hW (pos + 1)
  have same {V : Passage} (hV : V.Inside W) {e : Nat} (he : pos + 1 ≤ e) : r.SameAt unbounded (V.near e) := by
    have := extent_inside hV he
    have := extent_succ hlt
    exact h _ (bounded_near V e) (by rw [extent_near, extent_near]; omega)
  refine ⟨fun {V} hV pos hpos => ?_, fun {V} hV atComma pos hpos => ?_, fun {V} hV pos hpos => ?_⟩
  · exact (self.stmt hV hpos).congr (hV.unmoved hW) (same hV hpos).stmt rfl
  · exact (self.expr hV atComma hpos).congr (hV.unmoved hW) ((same hV hpos).expr atComma) rfl
  · exact (self.scope hV hpos).congr (hV.unmoved hW) (same hV hpos).scope rfl

/-- The expressions inside the strings of a window cover less text than the window. -/
theorem splices_of_sameBelow (h : r.SameBelow unbounded (W.near pos)) : W.Splices pos r unbounded := by
  intro i t hi hlt ht htemplate part hpart
  refine piece_same t.line part fun cs hcs => ?_
  subst hcs
  have covered := Tokens.extents_ofSource (String.ofList cs) t.line
  have shorter := StringLiteral.length_splice hpart
  have string : t.extent ≤ W.extent pos := Token.extent_le_of_mem (mem_ahead hi hlt ht)
  rw [Token.extent, if_pos htemplate] at string
  rw [String.length_ofList] at covered
  rw [String.length_toList] at shorter
  refine ((agree_unbounded_self ⟨rfl, rfl⟩ 0).expr (.refl _) false (Nat.le_refl _)).congr ⟨rfl, rfl⟩ ?_ rfl
  refine (h _ (bounded_near _ _) ?_).expr false
  rw [extent_near, extent_near, extent_alone]
  omega

/-- An expression, read with readers that are right about less text. -/
theorem reads_expr_below (hW : W.Unmoved) (h : r.SameBelow unbounded (W.near pos)) (hlt : pos < W.stop) (atComma : Bool) :
    W.ReadsExpr pos (Parse.expr r atComma) (Parse.expr unbounded atComma) :=
  reads_expr (agree_of_sameBelow hW h hlt) (splices_of_sameBelow h) atComma

end Passage

namespace TokenStream

variable {s : TokenStream} {r : Readers}

/-- The readers of a level that is large for less text are right about less text. -/
theorem sameBelow_readers {n : Nat} (hn : 2 * s.extent ≤ n) : (readers n).SameBelow unbounded s := by
  intro t ht hlt
  have agree : (t.passage ht).Agree t.pos (readers n) unbounded := by
    refine Passage.agree_unbounded ⟨rfl, rfl⟩ ?_
    show 2 * t.extent + 2 ≤ n
    omega
  exact ⟨(agree.stmt (.refl _) (Nat.le_refl _)).run_eq ⟨rfl, rfl⟩,
    fun atComma => (agree.expr (.refl _) atComma (Nat.le_refl _)).run_eq ⟨rfl, rfl⟩,
    (agree.scope (.refl _) (Nat.le_refl _)).run_eq ⟨rfl, rfl⟩⟩

/-- An expression is read right with readers that are right about less text. -/
theorem expr_below (hs : s.Bounded) (h : r.SameBelow unbounded s) (atComma : Bool) :
    (Parse.expr r atComma).run s = (unbounded.expr atComma).run s := by
  rw [expr_unbounded, expr_readers]
  by_cases hend : s.stop ≤ s.pos
  · rw [Passage.run_expr_atEnd _ hend, Passage.run_expr_atEnd _ hend]
  · have right {r : Readers} (h : r.SameBelow unbounded s) :
        (Parse.expr r atComma).run s = (Parse.expr unbounded atComma).run s :=
      (Passage.reads_expr_below (W := s.passage hs) ⟨rfl, rfl⟩ h (Nat.lt_of_not_le hend) atComma).run_eq ⟨rfl, rfl⟩
    rw [right h, right (sameBelow_readers (by omega))]

/-- The declarations in a window are read right with readers that are right about less text. -/
theorem scope_below (hs : s.Bounded) (h : r.SameBelow unbounded s) :
    (Parse.scope r).run s = unbounded.scope.run s := by
  rw [scope_unbounded, scope_readers]
  by_cases hend : s.stop ≤ s.pos
  · rw [Passage.run_scope_atEnd _ hend, Passage.run_scope_atEnd _ hend]
  · have right {r : Readers} (h : r.SameBelow unbounded s) :
        (Parse.scope r).run s = (Parse.scope unbounded).run s :=
      (Passage.reads_scope (Passage.agree_of_sameBelow (W := s.passage hs) ⟨rfl, rfl⟩ h (Nat.lt_of_not_le hend))).run_eq ⟨rfl, rfl⟩
    rw [right h, right (sameBelow_readers (by omega))]

/-- Readers that are right about less text, and about an expression in the place of a statement, read the statement
as the readers without a bound do; a statement takes at least one token. -/
theorem reads_statement_below (hs : s.Bounded) (h : r.SameBelow unbounded s)
    (hexpr : (r.expr false).run s = (unbounded.expr false).run s) (hlt : s.pos < s.stop) :
    (s.passage hs).Reads s.pos (fun _ e => s.pos < e) (Parse.statement r) (Parse.statement unbounded) := by
  have place := (Passage.agree_unbounded_self (W := s.passage hs) ⟨rfl, rfl⟩ s.pos).expr (.refl _) false (Nat.le_refl _)
  refine Passage.Reads.mono (Passage.reads_statement (Passage.agree_of_sameBelow ⟨rfl, rfl⟩ h hlt) (place.congr ⟨rfl, rfl⟩ hexpr rfl))
    fun _ _ met => ?_
  obtain ⟨-, -, hprogress⟩ := met
  exact hprogress hlt

theorem run_stmt_unbounded (hs : s.Bounded) : unbounded.stmt.run s = (Parse.statement unbounded).run s := by
  rw [stmt_unbounded, stmt_readers]
  by_cases hend : s.stop ≤ s.pos
  · rw [Passage.run_statement_atEnd _ hend, Passage.run_statement_atEnd _ hend]
  · refine (reads_statement_below hs (sameBelow_readers (by omega)) ?_ (Nat.lt_of_not_le hend)).run_eq ⟨rfl, rfl⟩
    exact expr_below hs (sameBelow_readers (Nat.le_refl _)) false

/-- A statement is read right with readers that are right about less text and about an expression in its place. -/
theorem statement_below (hs : s.Bounded) (h : r.SameBelow unbounded s)
    (hexpr : (r.expr false).run s = (unbounded.expr false).run s) :
    (Parse.statement r).run s = unbounded.stmt.run s := by
  rw [run_stmt_unbounded hs]
  by_cases hend : s.stop ≤ s.pos
  · rw [Passage.run_statement_atEnd _ hend, Passage.run_statement_atEnd _ hend]
  · exact (reads_statement_below hs h hexpr (Nat.lt_of_not_le hend)).run_eq ⟨rfl, rfl⟩

end TokenStream

/-- A statement takes at least one token. -/
theorem Passage.reads_stmt_unbounded {W : Passage} {pos : Nat} (hW : W.Unmoved) (hlt : pos < W.stop) :
    W.Reads pos (fun _ e => pos < e) unbounded.stmt unbounded.stmt := by
  have run := TokenStream.run_stmt_unbounded (Passage.bounded_near W pos)
  obtain ⟨a, a', e, met, hnear, hfar⟩ := TokenStream.reads_statement_below (Passage.bounded_near W pos)
    (fun _ _ _ => ⟨rfl, fun _ => rfl, rfl⟩) rfl hlt
  refine ⟨a, a', e, met, run.trans hnear, ?_⟩
  rw [hW.far, hW.far]
  exact run.trans hfar

/-- A source is read as the readers without a bound read it. -/
theorem Script.read_unbounded {config : Config} {source : String} {read : Tokens} (h : config.tokens? source = some read) :
    Script.read config.mode source.utf8ByteSize read.tokens =
      ((Parse.source unbounded config.mode).run (TokenStream.ofList read.tokens)).1 := by
  have room := Config.extents_tokens? h
  have agree : (Passage.alone read.tokens).Agree 0 (readers (depthBound source.utf8ByteSize)) unbounded := by
    refine Passage.agree_unbounded ⟨rfl, rfl⟩ ?_
    rw [Passage.extent_alone, depthBound]
    omega
  exact congrArg Prod.fst ((Passage.reads_source agree config.mode).run_eq ⟨rfl, rfl⟩)

end StackScript
