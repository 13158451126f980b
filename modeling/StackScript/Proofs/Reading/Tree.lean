/-
Building the same tree twice.

The builder looks at the tokens of its window and nothing else.  Over a second buffer that holds these tokens
`k` places further on it does the same: it fails with the same error, or builds a tree that differs in places
only.  On the way it is seen that every operator of a tree stands where it belongs and that every leaf covers
tokens of the window.
-/
import StackScript.Proofs.Checks
import StackScript.Proofs.Reading.Scan
import StackScript.Tree.Builder

namespace StackScript

/-! ### Copies of a tree -/

mutual

/-- The second tree is a copy of the first one, whose leaves cover tokens of `[low, high)`, with the places `k`
further on.  Every operator stands where it belongs. -/
inductive Node.Copied (tokens : Array Token) (k low high : Nat) : Node → Node → Prop
  | leaf {start stop line : Nat} (kind : LeafKind) (hlow : low ≤ start) (hfilled : start < stop)
      (hhigh : stop ≤ high) (hkind : kind = .template → tokens[start]?.any (·.is .template) = true) :
      Node.Copied tokens k low high (.leaf ⟨start, stop, line⟩ kind) (.leaf ⟨start + k, stop + k, line⟩ kind)
  | prefixed {p p' : Place} {op : Operator} {x x' : Node} (hline : p'.line = p.line)
      (hop : op.prefixPower?.isSome = true) (hx : Node.Copied tokens k low high x x') :
      Node.Copied tokens k low high (.prefixed p op x) (.prefixed p' op x')
  | postfixed {p p' : Place} {op : Operator} {x x' : Node} (hline : p'.line = p.line) (hop : op.isBehind = true)
      (hx : Node.Copied tokens k low high x x') : Node.Copied tokens k low high (.postfixed p op x) (.postfixed p' op x')
  | binary {p p' : Place} {op : Operator} {x x' y y' : Node} (hline : p'.line = p.line)
      (hop : op.isBetween = true) (hx : Node.Copied tokens k low high x x') (hy : Node.Copied tokens k low high y y') :
      Node.Copied tokens k low high (.binary p op x y) (.binary p' op x' y')
  | assign {p p' : Place} {op : Operator} {x x' y y' : Node} (hline : p'.line = p.line)
      (hop : op.isAssignment = true) (hx : Node.Copied tokens k low high x x') (hy : Node.Copied tokens k low high y y') :
      Node.Copied tokens k low high (.assign p op x y) (.assign p' op x' y')
  | ternary {p p' : Place} {c c' x x' y y' : Node} (hline : p'.line = p.line) (hc : Node.Copied tokens k low high c c')
      (hx : Node.Copied tokens k low high x x') (hy : Node.Copied tokens k low high y y') :
      Node.Copied tokens k low high (.ternary p c x y) (.ternary p' c' x' y')
  | call {p p' : Place} {f f' : Node} {xs xs' : List Node} (hline : p'.line = p.line)
      (hf : Node.Copied tokens k low high f f') (hxs : Node.AllCopied tokens k low high xs xs') :
      Node.Copied tokens k low high (.call p f xs) (.call p' f' xs')
  | index {p p' : Place} {x x' y y' : Node} (hline : p'.line = p.line) (hx : Node.Copied tokens k low high x x')
      (hy : Node.Copied tokens k low high y y') : Node.Copied tokens k low high (.index p x y) (.index p' x' y')
  | append {p p' : Place} {x x' : Node} (hline : p'.line = p.line) (hx : Node.Copied tokens k low high x x') :
      Node.Copied tokens k low high (.append p x) (.append p' x')

/-- The arguments of a call are copies. -/
inductive Node.AllCopied (tokens : Array Token) (k low high : Nat) : List Node → List Node → Prop
  | nil : Node.AllCopied tokens k low high [] []
  | cons {x x' : Node} {xs xs' : List Node} (hx : Node.Copied tokens k low high x x')
      (hxs : Node.AllCopied tokens k low high xs xs') : Node.AllCopied tokens k low high (x :: xs) (x' :: xs')

end

section Leaves

variable {tokens : Array Token} {k low high : Nat} {f f' : Place → LeafKind → Leaf}

/-- Two readings of the leaves between `low` and `high` agree, and they make leaves that meet what reading
ensures. -/
def LeavesAgree (tokens : Array Token) (k low high : Nat) (f f' : Place → LeafKind → Leaf) : Prop :=
  ∀ start stop line kind, low ≤ start → start < stop → stop ≤ high →
    (kind = .template → tokens[start]?.any (·.is .template) = true) →
    f' ⟨start + k, stop + k, line⟩ kind = f ⟨start, stop, line⟩ kind ∧
      (f ⟨start, stop, line⟩ kind).meets .read = true

mutual

/-- A copy of a tree is read as the same tree. -/
theorem Node.Copied.mapLeaves (hf : LeavesAgree tokens k low high f f') :
    (x : Node) → {x' : Node} → Node.Copied tokens k low high x x' →
      x'.mapLeaves f' = x.mapLeaves f ∧ Leaf.treeMeets .read (x.mapLeaves f) = true
  | .leaf ⟨_, _, line⟩ _, _, .leaf kind hlow hfilled hhigh hkind => by
    obtain ⟨same, meets⟩ := hf _ _ line kind hlow hfilled hhigh hkind
    refine ⟨by simp [Tree.mapLeaves, Place.lineOnly, same], ?_⟩
    exact both_true rfl meets
  | .prefixed _ _ x, _, .prefixed hline hop hx => by
    obtain ⟨same, meets⟩ := Node.Copied.mapLeaves hf x hx
    refine ⟨by simp [Tree.mapLeaves, Place.lineOnly, hline, same], ?_⟩
    exact both_true hop meets
  | .postfixed _ _ x, _, .postfixed hline hop hx => by
    obtain ⟨same, meets⟩ := Node.Copied.mapLeaves hf x hx
    refine ⟨by simp [Tree.mapLeaves, Place.lineOnly, hline, same], ?_⟩
    exact both_true hop meets
  | .binary _ _ x y, _, .binary hline hop hx hy => by
    obtain ⟨same, meets⟩ := Node.Copied.mapLeaves hf x hx
    obtain ⟨same', meets'⟩ := Node.Copied.mapLeaves hf y hy
    refine ⟨by simp [Tree.mapLeaves, Place.lineOnly, hline, same, same'], ?_⟩
    exact both_true (both_true hop meets) meets'
  | .assign _ _ x y, _, .assign hline hop hx hy => by
    obtain ⟨same, meets⟩ := Node.Copied.mapLeaves hf x hx
    obtain ⟨same', meets'⟩ := Node.Copied.mapLeaves hf y hy
    refine ⟨by simp [Tree.mapLeaves, Place.lineOnly, hline, same, same'], ?_⟩
    exact both_true (both_true hop meets) meets'
  | .ternary _ c x y, _, .ternary hline hc hx hy => by
    obtain ⟨same, meets⟩ := Node.Copied.mapLeaves hf c hc
    obtain ⟨same', meets'⟩ := Node.Copied.mapLeaves hf x hx
    obtain ⟨same'', meets''⟩ := Node.Copied.mapLeaves hf y hy
    refine ⟨by simp [Tree.mapLeaves, Place.lineOnly, hline, same, same', same''], ?_⟩
    exact both_true (both_true (both_true rfl meets) meets') meets''
  | .call _ g xs, _, .call hline hg hxs => by
    obtain ⟨same, meets⟩ := Node.Copied.mapLeaves hf g hg
    obtain ⟨same', meets'⟩ := Node.AllCopied.mapLeaves hf xs hxs
    refine ⟨by simp [Tree.mapLeaves, Place.lineOnly, hline, same, same'], ?_⟩
    exact both_true (both_true rfl meets) meets'
  | .index _ x y, _, .index hline hx hy => by
    obtain ⟨same, meets⟩ := Node.Copied.mapLeaves hf x hx
    obtain ⟨same', meets'⟩ := Node.Copied.mapLeaves hf y hy
    refine ⟨by simp [Tree.mapLeaves, Place.lineOnly, hline, same, same'], ?_⟩
    exact both_true (both_true rfl meets) meets'
  | .append _ x, _, .append hline hx => by
    obtain ⟨same, meets⟩ := Node.Copied.mapLeaves hf x hx
    refine ⟨by simp [Tree.mapLeaves, Place.lineOnly, hline, same], ?_⟩
    exact both_true rfl meets

theorem Node.AllCopied.mapLeaves (hf : LeavesAgree tokens k low high f f') :
    (xs : List Node) → {xs' : List Node} → Node.AllCopied tokens k low high xs xs' →
      Tree.mapAllLeaves f' xs' = Tree.mapAllLeaves f xs ∧ Leaf.treesMeet .read (Tree.mapAllLeaves f xs) = true
  | [], _, .nil => ⟨rfl, rfl⟩
  | x :: xs, _, .cons hx hxs => by
    obtain ⟨same, meets⟩ := Node.Copied.mapLeaves hf x hx
    obtain ⟨same', meets'⟩ := Node.AllCopied.mapLeaves hf xs hxs
    refine ⟨by simp [Tree.mapAllLeaves, same, same'], ?_⟩
    exact both_true meets meets'

end

end Leaves

namespace Builder

/-! ### Windows with the same tokens -/

/-- Two attempts come to the same: they fail with one error, or what they make is related. -/
inductive Attempts {α β : Type} (R : α → β → Prop) : Except TreeError α → Except TreeError β → Prop
  | ok {a : α} {b : β} (h : R a b) : Attempts R (.ok a) (.ok b)
  | error (e : TreeError) : Attempts R (.error e) (.error e)

theorem Attempts.ite {α β : Type} {R : α → β → Prop} {c : Prop} [Decidable c] {x y : Except TreeError α}
    {x' y' : Except TreeError β} (h : c → Attempts R x x') (h' : ¬c → Attempts R y y') :
    Attempts R (if c then x else y) (if c then x' else y') := by
  split
  · exact h ‹_›
  · exact h' ‹_›

theorem Attempts.bind {α β γ δ : Type} {R : α → β → Prop} {S : γ → δ → Prop} {x : Except TreeError α}
    {x' : Except TreeError β} {f : α → Except TreeError γ} {f' : β → Except TreeError δ} (h : Attempts R x x')
    (hf : ∀ a b, R a b → Attempts S (f a) (f' b)) : Attempts S (x >>= f) (x' >>= f') := by
  cases h with
  | ok h => exact hf _ _ h
  | error e => exact .error e

theorem Attempts.map {α β γ δ : Type} {R : α → β → Prop} {S : γ → δ → Prop} {x : Except TreeError α}
    {x' : Except TreeError β} {f : α → γ} {g : β → δ} (h : Attempts R x x') (hf : ∀ a b, R a b → S (f a) (g b)) :
    Attempts S (f <$> x) (g <$> x') := by
  cases h with
  | ok h => exact .ok (hf _ _ h)
  | error e => exact .error e

/-- The second window shows the tokens of the first one, `k` places further on.  There is a token in front
whenever the places differ. -/
structure Window.Moved (k : Nat) (w w' : Window) : Prop where
  stop : w'.stop = w.stop + k
  tokens : Scan.Moved k w.stop w.tokens w'.tokens
  filled : w.stop ≤ w.tokens.size
  anchored : k = 0 ∨ 0 < w.stop

namespace Window

variable {k : Nat} {w w' : Window}

theorem Moved.narrow (h : Moved k w w') {stop : Nat} (hpos : 0 < stop) (hle : stop ≤ w.stop) :
    Moved k ⟨w.tokens, stop⟩ ⟨w'.tokens, stop + k⟩ where
  stop := rfl
  tokens := h.tokens.mono hle
  filled := Nat.le_trans hle h.filled
  anchored := .inr hpos

theorem at?_moved (h : Moved k w w') (i : Nat) : w'.at? (i + k) = w.at? i := by
  unfold at?
  rw [h.stop]
  by_cases hi : i < w.stop
  · rw [if_pos hi, if_pos (by omega), h.tokens i hi]
  · rw [if_neg hi, if_neg (by omega)]

theorem isAt_moved (h : Moved k w w') (i : Nat) (cs : List TokenClass) : w'.isAt (i + k) cs = w.isAt i cs := by
  unfold isAt
  rw [at?_moved h]

theorem isKeywordAt_moved (h : Moved k w w') (i : Nat) (word : Keyword) :
    w'.isKeywordAt (i + k) word = w.isKeywordAt i word := by
  unfold isKeywordAt
  rw [at?_moved h]

theorem lt_of_at? {i : Nat} {t : Token} (h : w.at? i = some t) : i < w.stop := by
  unfold at? at h
  split at h
  · assumption
  · cases h

theorem lt_of_isAt {i : Nat} {cs : List TokenClass} (h : w.isAt i cs = true) : i < w.stop := by
  unfold isAt at h
  cases hi : w.at? i with
  | none => simp [hi] at h
  | some t => exact lt_of_at? hi

theorem lineAt_moved (h : Moved k w w') {i : Nat} (hi : i ≤ w.stop) : w'.lineAt (i + k) = w.lineAt i := by
  unfold lineAt
  rw [at?_moved h]
  by_cases hzero : i = 0
  · subst hzero
    rcases h.anchored with rfl | hpos
    · rfl
    · have filled : 0 < w.tokens.size := by
        have := h.filled
        omega
      have first : w.at? 0 = some w.tokens[0] := by
        unfold at?
        rw [if_pos hpos, Array.getElem?_eq_getElem]
      simp [first]
  · have before : i + k - 1 = i - 1 + k := by omega
    rw [if_neg hzero, if_neg (by omega), before, h.tokens _ (by omega)]

theorem closing_moved (h : Moved k w w') (start : Nat) (opening closing : TokenClass) (error : TreeError) :
    Attempts (fun i i' => i' = i + k ∧ start ≤ i ∧ i < w.stop) (w.closing start opening closing error)
      (w'.closing (start + k) opening closing error) := by
  unfold Window.closing
  rw [h.stop, Scan.matching?_moved _ _ _ h.tokens]
  cases hm : Scan.matching? w.tokens [opening] [closing] start w.stop with
  | none => exact .error _
  | some i => exact .ok ⟨rfl, Scan.matching?_bounds hm⟩

theorem closing_bind {α β : Type} {S : α → β → Prop} {f : Nat → Except TreeError α} {f' : Nat → Except TreeError β}
    (h : Moved k w w') {start : Nat} {opening closing : TokenClass} {error : TreeError}
    (hf : ∀ i, start ≤ i → i < w.stop → Attempts S (f i) (f' (i + k))) :
    Attempts S (w.closing start opening closing error >>= f) (w'.closing (start + k) opening closing error >>= f') := by
  apply (closing_moved h start opening closing error).bind
  rintro i i' ⟨rfl, hge, hlt⟩
  exact hf i hge hlt

theorem runLength_moved (h : Moved k w w') (p : Token → Bool) (n i : Nat) :
    w'.runLength p n (i + k) = w.runLength p n i := by
  induction n generalizing i with
  | zero => rfl
  | succ n ih =>
      have next : i + k + 1 = i + 1 + k := by omega
      rw [runLength, runLength, at?_moved h, next, ih]

theorem runLength_le (w : Window) (p : Token → Bool) (n i : Nat) : w.runLength p n i ≤ n := by
  induction n generalizing i with
  | zero => exact Nat.le_refl _
  | succ n ih =>
      rw [runLength]
      split
      · have := ih (i + 1)
        omega
      · omega

theorem segments_moved (h : Moved k w w') (n i : Nat) : w'.segments n (i + k) = w.segments n i := by
  induction n generalizing i with
  | zero => rfl
  | succ n ih =>
      have next : i + k + 1 = i + 1 + k := by omega
      have behind : i + k + 2 = i + 2 + k := by omega
      rw [segments, segments, isAt_moved h, next, isAt_moved h, behind, ih]

theorem segments_le {n i : Nat} (hi : i ≤ w.stop) : i + 2 * w.segments n i ≤ w.stop := by
  induction n generalizing i with
  | zero => exact hi
  | succ n ih =>
      rw [segments]
      split
      · rename_i h
        rw [Bool.and_eq_true] at h
        have := lt_of_isAt h.2
        have := ih (i := i + 2) (by omega)
        omega
      · exact hi

end Window

/-! ### Leaves -/

/-- What is built ends in the window, and the copy `k` places further on. -/
structure Made (w : Window) (k low high : Nat) (made made' : Node × Nat) : Prop where
  copied : Node.Copied w.tokens k low high made.1 made'.1
  moved : made'.2 = made.2 + k
  behind : low < made.2
  within : made.2 ≤ w.stop

section Leaves

variable {k low high : Nat} {w w' : Window}

/-- What goes on behind a tree that is built does so behind the copy. -/
theorem Attempts.built {α β : Type} {S : α → β → Prop} {x x' : Except TreeError (Node × Nat)}
    {f : Node × Nat → Except TreeError α} {f' : Node × Nat → Except TreeError β}
    (h : Attempts (Made w k low high) x x')
    (hf : ∀ node node' stop, Node.Copied w.tokens k low high node node' → low < stop → stop ≤ w.stop →
      Attempts S (f (node, stop)) (f' (node', stop + k))) : Attempts S (x >>= f) (x' >>= f') := by
  apply h.bind
  rintro ⟨node, stop⟩ ⟨node', stop'⟩ ⟨hcopied, hmoved, hbehind, hwithin⟩
  cases hmoved
  exact hf node node' stop hcopied hbehind hwithin

theorem made_leaf (kind : LeafKind) {start stop : Nat} (line : Nat) (hlow : low ≤ start) (hfilled : start < stop)
    (hstop : stop ≤ w.stop) (hhigh : w.stop ≤ high)
    (hkind : kind = .template → w.tokens[start]?.any (·.is .template) = true) :
    Attempts (Made w k low high) (leaf kind start stop line) (leaf kind (start + k) (stop + k) line) :=
  .ok ⟨.leaf kind hlow hfilled (by omega) hkind, rfl, by dsimp only; omega, hstop⟩

variable (h : w.Moved k w') (hhigh : w.stop ≤ high)

include h hhigh

theorem made_variableLeaf {start : Nat} (line : Nat) (hlow : low ≤ start) (hstart : start ≤ w.stop) :
    Attempts (Made w k low high) (variableLeaf w start line) (variableLeaf w' (start + k) line) := by
  unfold variableLeaf
  have span : w'.stop - (start + k) = w.stop - start := by rw [h.stop]; omega
  have dollars := w.runLength_le (·.is .dollar) (w.stop - start) start
  rw [span, Window.runLength_moved h]
  generalize w.runLength (·.is .dollar) (w.stop - start) start = n at dollars ⊢
  have first : start + k + n = start + n + k := by omega
  have second : start + n + k + 1 = start + n + 1 + k := by omega
  dsimp only
  rw [first, second, Window.isAt_moved h, Window.isAt_moved h]
  by_cases hname : w.isAt (start + n) [.name, .keyword] = true
  · have := Window.lt_of_isAt hname
    rw [if_pos hname, if_pos hname]
    exact made_leaf _ _ hlow (by omega) (by omega) hhigh (by simp)
  · rw [if_neg hname, if_neg hname]
    split
    · refine Window.closing_bind h fun close hge hlt => ?_
      have behind : close + k + 1 = close + 1 + k := by omega
      rw [behind]
      exact made_leaf _ _ hlow (by omega) (by omega) hhigh (by simp)
    · exact .error _

theorem made_nameOrError {pos : Nat} {t : Token} (hlow : low ≤ pos) (ht : w.at? pos = some t) :
    Attempts (Made w k low high) (nameOrError w pos t) (nameOrError w' (pos + k) t) := by
  have hpos := Window.lt_of_at? ht
  unfold nameOrError
  split
  · rename_i hname
    unfold nameLeaf
    have next : pos + k + 1 = pos + 1 + k := by omega
    have first : (if w'.isAt (pos + k) [.namespaceMark] = true then pos + k + 1 else pos + k) =
        (if w.isAt pos [.namespaceMark] = true then pos + 1 else pos) + k := by
      rw [Window.isAt_moved h]
      split <;> omega
    dsimp only
    rw [first]
    generalize hi : (if w.isAt pos [.namespaceMark] = true then pos + 1 else pos) = i
    have behind : pos ≤ i ∧ i ≤ w.stop := by
      rw [← hi]
      split <;> omega
    have second : (if w'.isAt (i + k) [.name] = true then i + k + 1 else i + k) =
        (if w.isAt i [.name] = true then i + 1 else i) + k := by
      rw [Window.isAt_moved h]
      split <;> omega
    rw [second]
    generalize hj : (if w.isAt i [.name] = true then i + 1 else i) = j
    -- One of the two steps was taken: the token is a namespace mark or a name.
    have ahead : pos < j ∧ j ≤ w.stop := by
      by_cases hn : w.isAt i [.name] = true
      · have := Window.lt_of_isAt hn
        rw [if_pos hn] at hj
        omega
      · rw [if_neg hn] at hj
        by_cases hm : w.isAt pos [.namespaceMark] = true
        · rw [if_pos hm] at hi
          omega
        · rw [if_neg hm] at hi
          subst hi
          simp only [Window.isAt, ht, Option.any_some, Token.isAny, List.any_cons, List.any_nil,
            Bool.or_false] at hn hm hname
          simp [hn, hm] at hname
    have span : w'.stop - (j + k) = w.stop - j := by rw [h.stop]; omega
    have stop : j + k + 2 * w.segments (w.stop - j) j = j + 2 * w.segments (w.stop - j) j + k := by omega
    rw [span, Window.segments_moved h, stop]
    exact made_leaf _ _ hlow (by omega) (Window.segments_le ahead.2) hhigh (by simp)
  · exact .error _

theorem made_bracketed {start : Nat} (line : Nat) (hlow : low ≤ start) :
    Attempts (Made w k low high) (bracketed w start line) (bracketed w' (start + k) line) := by
  unfold bracketed
  have next : start + k + 1 = start + 1 + k := by omega
  rw [next]
  refine Window.closing_bind h fun close hge hlt => ?_
  have behind : close + k + 1 = close + 1 + k := by omega
  rw [behind]
  exact made_leaf _ _ hlow (by omega) (by omega) hhigh (by simp)

theorem made_collection {kind : LeafKind} (hkind : kind ≠ .template) {start : Nat} (t : Token) (hlow : low ≤ start) :
    Attempts (Made w k low high) (collection w kind start t) (collection w' kind (start + k) t) := by
  unfold collection
  have next : start + k + 1 = start + 1 + k := by omega
  have inside : start + k + 2 = start + 2 + k := by omega
  rw [next, inside, Window.isAt_moved h]
  split
  · refine Window.closing_bind h fun close hge hlt => ?_
    have behind : close + k + 1 = close + 1 + k := by omega
    rw [behind]
    exact made_leaf _ _ hlow (by omega) (by omega) hhigh fun h => absurd h hkind
  · exact .error _

/-- The body of a function, from its opening brace on. -/
theorem made_body {start i : Nat} (line : Nat) (hlow : low ≤ start) (hstart : start < i) :
    Attempts (Made w k low high)
      (if (!w.isAt i [.openBrace]) = true then .error ⟨line, .closureWithoutBody⟩
      else do
        let close ← w.closing (i + 1) .openBrace .closeBrace ⟨line, .unclosedBody⟩
        leaf .closure start (close + 1) line)
      (if (!w'.isAt (i + k) [.openBrace]) = true then .error ⟨line, .closureWithoutBody⟩
      else do
        let close ← w'.closing (i + k + 1) .openBrace .closeBrace ⟨line, .unclosedBody⟩
        leaf .closure (start + k) (close + 1) line) := by
  have next : i + k + 1 = i + 1 + k := by omega
  rw [Window.isAt_moved h, next]
  split
  · exact .error _
  · refine Window.closing_bind h fun close hge hlt => ?_
    have behind : close + k + 1 = close + 1 + k := by omega
    rw [behind]
    exact made_leaf _ _ hlow (by omega) (by omega) hhigh (by simp)

theorem made_closure {start : Nat} (line : Nat) (hlow : low ≤ start) :
    Attempts (Made w k low high) (closure w start line) (closure w' (start + k) line) := by
  unfold closure
  have span : w'.stop - (start + k) = w.stop - start := by rw [h.stop]; omega
  dsimp only
  rw [span, Window.runLength_moved h]
  generalize w.runLength (fun t => !t.isKeyword .function) (w.stop - start) start = n
  have behindWord : start + k + n + 1 = start + n + 1 + k := by omega
  have behindName : (if w'.isAt (start + n + 1 + k) [.name] = true then start + n + 1 + k + 1 else start + n + 1 + k) =
      (if w.isAt (start + n + 1) [.name] = true then start + n + 1 + 1 else start + n + 1) + k := by
    rw [Window.isAt_moved h]
    split <;> omega
  rw [behindWord, behindName]
  generalize hi : (if w.isAt (start + n + 1) [.name] = true then start + n + 1 + 1 else start + n + 1) = i
  have ahead : start < i := by
    rw [← hi]
    split <;> omega
  have next : i + k + 1 = i + 1 + k := by omega
  rw [Window.isAt_moved h, next]
  split
  · exact .error _
  · refine Window.closing_bind h fun close hge hlt => ?_
    have behind : close + k + 1 = close + 1 + k := by omega
    rw [behind]
    have word : close + 1 + k + 1 = close + 1 + 1 + k := by omega
    have inside : close + 1 + k + 2 = close + 1 + 2 + k := by omega
    rw [Window.isKeywordAt_moved h, word, Window.isAt_moved h, inside]
    refine .ite (fun _ => .ite (fun _ => ?_) fun _ => made_body h hhigh line hlow (by omega)) fun _ =>
      made_body h hhigh line hlow (by omega)
    have captures := (Window.closing_moved h (close + 1 + 2) .openParen .closeParen ⟨line, .unclosedCaptures⟩).map
      (S := fun j j' => j' = j + k ∧ close < j) (f := (· + 1)) (g := (· + 1)) fun i i' hi => by omega
    exact captures.bind fun j j' ⟨hj, hlt'⟩ => hj ▸ made_body h hhigh line hlow (by omega)

omit hhigh in
theorem startsTypedClosure_moved (start : Nat) :
    startsTypedClosure w' (start + k) = startsTypedClosure w start := by
  unfold startsTypedClosure
  have one : start + k + 1 = start + 1 + k := by omega
  have two : start + k + 2 = start + 2 + k := by omega
  have three : start + k + 3 = start + 3 + k := by omega
  dsimp only
  rw [one, two, three, Window.isAt_moved h, Window.isAt_moved h]
  split <;> exact Window.isKeywordAt_moved h _ _

theorem made_keyword (word : Keyword) {start : Nat} {t : Token} (hlow : low ≤ start) (ht : w.at? start = some t) :
    Attempts (Made w k low high) (keyword w word start t) (keyword w' word (start + k) t) := by
  have hstart := Window.lt_of_at? ht
  have next : start + k + 1 = start + 1 + k := by omega
  have name : Attempts (Made w k low high) (leaf .name start (start + 1) t.line)
      (leaf .name (start + k) (start + k + 1) t.line) := by
    rw [next]
    exact made_leaf _ _ hlow (by omega) (by omega) hhigh (by simp)
  have others : Attempts (Made w k low high)
      (if word.isType then
        if startsTypedClosure w start then closure w start t.line else .error ⟨t.line, .unexpectedKeyword t.text⟩
      else if word.isConstruct then
        leaf (.construct word) start (max ((Scan.comma? w.tokens (start + 1) w.stop).getD w.stop) (start + 1)) t.line
      else .error ⟨t.line, .unexpectedKeyword t.text⟩)
      (if word.isType then
        if startsTypedClosure w' (start + k) then closure w' (start + k) t.line
        else .error ⟨t.line, .unexpectedKeyword t.text⟩
      else if word.isConstruct then
        leaf (.construct word) (start + k)
          (max ((Scan.comma? w'.tokens (start + k + 1) w'.stop).getD w'.stop) (start + k + 1)) t.line
      else .error ⟨t.line, .unexpectedKeyword t.text⟩) := by
    rw [startsTypedClosure_moved h, next, h.stop, Scan.comma?_moved _ h.tokens]
    split
    · split
      · exact made_closure h hhigh _ hlow
      · exact .error _
    · split
      · cases hc : Scan.comma? w.tokens (start + 1) w.stop with
        | none =>
            have stop : max (w.stop + k) (start + 1 + k) = max w.stop (start + 1) + k := by omega
            simp only [Option.map_none, Option.getD_none, stop]
            exact made_leaf _ _ hlow (by omega) (by omega) hhigh (by simp)
        | some i =>
            have := Scan.comma?_bounds hc
            have stop : max (i + k) (start + 1 + k) = max i (start + 1) + k := by omega
            simp only [Option.map_some, Option.getD_some, stop]
            exact made_leaf _ _ hlow (by omega) (by omega) hhigh (by simp)
      · exact .error _
  unfold keyword
  split
  · exact made_collection h hhigh (by decide) _ hlow
  · exact made_collection h hhigh (by decide) _ hlow
  · exact made_closure h hhigh _ hlow
  · exact name
  · exact name
  · exact name
  · exact others

end Leaves

/-! ### Operators -/

/-- What an enclosed window comes to. -/
inductive MadeAny (tokens : Array Token) (k low high : Nat) : Option Node → Option Node → Prop
  | none : MadeAny tokens k low high none none
  | some {x x' : Node} (h : Node.Copied tokens k low high x x') : MadeAny tokens k low high (some x) (some x')

/-- With so much fuel, building over a copied window makes a copy. -/
structure Copies (n : Nat) : Prop where
  expression {k low high : Nat} {w w' : Window} (h : w.Moved k w') (hhigh : w.stop ≤ high) {pos : Nat} (power : Nat)
    (hlow : low ≤ pos) (hpos : pos ≤ w.stop) :
    Attempts (Made w k low high) (expression n w pos power) (expression n w' (pos + k) power)
  operandOf {k low high : Nat} {w w' : Window} (h : w.Moved k w') (hhigh : w.stop ≤ high) (t : Token) {pos : Nat}
    (power : Nat) (hlow : low ≤ pos) (hpos : pos ≤ w.stop) :
    Attempts (Made w k low high) (operandOf n w t pos power) (operandOf n w' t (pos + k) power)
  enclosed {k low high : Nat} {w w' : Window} (h : w.Moved k w') (hhigh : w.stop ≤ high) {start : Nat}
    (hlow : low ≤ start) (hstart : start ≤ w.stop) :
    Attempts (MadeAny w.tokens k low high) (enclosed n w start) (enclosed n w' (start + k))
  arguments {k low high stop : Nat} {tokens tokens' : Array Token} (h : Window.Moved k ⟨tokens, stop⟩ ⟨tokens', stop + k⟩)
    (hhigh : stop ≤ high) (line : Nat) {ranges : List (Nat × Nat)}
    (hranges : ∀ r ∈ ranges, low < r.1 ∧ r.1 ≤ r.2 ∧ r.2 ≤ stop) :
    Attempts (Node.AllCopied tokens k low high) (arguments n tokens line ranges)
      (arguments n tokens' line (ranges.map (Scan.movedBy k)))
  operators {k low high : Nat} {w w' : Window} (h : w.Moved k w') (hhigh : w.stop ≤ high) {left left' : Node}
    (hleft : Node.Copied w.tokens k low high left left') {pos : Nat} (power : Nat) (hlow : low < pos) (hpos : pos ≤ w.stop) :
    Attempts (Made w k low high) (operators n w left pos power) (operators n w' left' (pos + k) power)
  join {k low high : Nat} {w w' : Window} (h : w.Moved k w') (hhigh : w.stop ≤ high) {op : Operator}
    (hop : op.infixPower?.isSome = true) (t : Token) {left left' : Node} (hleft : Node.Copied w.tokens k low high left left')
    {pos : Nat} (power : Nat) (hlow : low ≤ pos) (hpos : pos < w.stop) :
    Attempts (Made w k low high) (join n w op t left pos power) (join n w' op t left' (pos + k) power)
  member {k low high : Nat} {w w' : Window} (h : w.Moved k w') (hhigh : w.stop ≤ high) {pos : Nat} (power : Nat)
    (hlow : low ≤ pos) (hpos : pos ≤ w.stop) :
    Attempts (Made w k low high) (member n w pos power) (member n w' (pos + k) power)
  operand {k low high : Nat} {w w' : Window} (h : w.Moved k w') (hhigh : w.stop ≤ high) {pos : Nat}
    (hlow : low ≤ pos) (hpos : pos ≤ w.stop) :
    Attempts (Made w k low high) (operand n w pos) (operand n w' (pos + k))

section Operators

variable {n k low high : Nat} {w w' : Window}

theorem Copies.zero : Copies 0 where
  expression h _ _ _ _ hpos := by
    rw [Builder.expression, Builder.expression, Window.lineAt_moved h hpos]
    exact .error _
  operandOf h _ _ _ _ _ hpos := by
    rw [Builder.operandOf, Builder.operandOf, Window.lineAt_moved h hpos]
    exact .error _
  enclosed h _ _ _ hstart := by
    rw [Builder.enclosed, Builder.enclosed, Window.lineAt_moved h hstart]
    exact .error _
  arguments _ _ line _ _ := by
    rw [Builder.arguments, Builder.arguments]
    exact .error _
  operators h _ _ _ _ _ _ _ hpos := by
    unfold Builder.operators
    rw [Window.lineAt_moved h hpos]
    exact .error _
  join h _ _ _ _ _ _ _ _ _ _ hpos := by
    unfold Builder.join
    rw [Window.lineAt_moved h (Nat.le_of_lt hpos)]
    exact .error _
  member h _ _ _ _ hpos := by
    rw [Builder.member, Builder.member, Window.lineAt_moved h hpos]
    exact .error _
  operand h _ _ _ hpos := by
    rw [Builder.operand, Builder.operand, Window.lineAt_moved h hpos]
    exact .error _

variable (ih : Copies n) (h : w.Moved k w') (hhigh : w.stop ≤ high)

include ih h hhigh

theorem made_call (t : Token) {left left' : Node} (hleft : Node.Copied w.tokens k low high left left') {pos : Nat}
    (power : Nat) (hlow : low ≤ pos) :
    Attempts (Made w k low high) (join (n + 1) w .call t left pos power)
      (join (n + 1) w' .call t left' (pos + k) power) := by
  have next : pos + k + 1 = pos + 1 + k := by omega
  rw [Builder.join, Builder.join, next]
  refine Window.closing_bind h fun close hge hlt => ?_
  have inner : Window.Moved k ⟨w.tokens, close⟩ ⟨w'.tokens, close + k⟩ := h.narrow (by omega) (by omega)
  rw [Scan.splitCommas_moved _ (h.tokens.mono (Nat.le_of_lt hlt))]
  have inside : ∀ r ∈ Scan.splitCommas w.tokens (pos + 1) close, low < r.1 ∧ r.1 ≤ r.2 ∧ r.2 ≤ close := fun r hr => by
    have := Scan.splitCommas_bounds hr
    omega
  refine (ih.arguments inner (show close ≤ high by omega) t.line inside).bind fun xs xs' hxs => ?_
  exact .ok ⟨.call rfl hleft hxs, by dsimp only; omega, by dsimp only; omega, by dsimp only; omega⟩

theorem made_subscript (t : Token) {left left' : Node} (hleft : Node.Copied w.tokens k low high left left') {pos : Nat}
    (power : Nat) (hlow : low ≤ pos) :
    Attempts (Made w k low high) (join (n + 1) w .subscript t left pos power)
      (join (n + 1) w' .subscript t left' (pos + k) power) := by
  have next : pos + k + 1 = pos + 1 + k := by omega
  rw [Builder.join, Builder.join, next]
  refine Window.closing_bind h fun close hge hlt => ?_
  have inner : Window.Moved k ⟨w.tokens, close⟩ ⟨w'.tokens, close + k⟩ := h.narrow (by omega) (by omega)
  refine (ih.enclosed inner (show close ≤ high by omega) (Nat.le_succ_of_le hlow) hge).bind fun key key' hkey => ?_
  cases hkey with
  | none => exact .ok ⟨.append rfl hleft, by dsimp only; omega, by dsimp only; omega, by dsimp only; omega⟩
  | some hkey => exact .ok ⟨.index rfl hleft hkey, by dsimp only; omega, by dsimp only; omega, by dsimp only; omega⟩

theorem made_ternary (t : Token) {left left' : Node} (hleft : Node.Copied w.tokens k low high left left') {pos : Nat}
    (power : Nat) (hlow : low ≤ pos) (hpos : pos < w.stop) :
    Attempts (Made w k low high) (join (n + 1) w .ternary t left pos power)
      (join (n + 1) w' .ternary t left' (pos + k) power) := by
  have next : pos + k + 1 = pos + 1 + k := by omega
  rw [Builder.join, Builder.join, next]
  refine (ih.operandOf h hhigh t 0 (Nat.le_succ_of_le hlow) hpos).built fun yes yes' e hyes hle hin => ?_
  have behind : e + k + 1 = e + 1 + k := by omega
  dsimp only
  rw [Window.at?_moved h, behind]
  cases hcolon : w.at? e with
  | none => exact .error _
  | some colon =>
      have := Window.lt_of_at? hcolon
      dsimp only
      split
      · refine (ih.operandOf h hhigh colon power (show low ≤ e + 1 by omega) (by omega)).built fun no no' e hno hle' hin' => ?_
        exact .ok ⟨.ternary rfl hleft hyes hno, rfl, hle', hin'⟩
      · exact .error _

theorem made_between {op : Operator} (hop : op.isAssignment = true ∨ op.isBetween = true) (t : Token)
    {left left' : Node} (hleft : Node.Copied w.tokens k low high left left') {pos : Nat} (power start start' : Nat)
    (hlow : low ≤ pos) (hpos : pos < w.stop) :
    Attempts (Made w k low high)
      (do
        let (right, pos) ← operandOf n w t (pos + 1) power
        let place : Place := ⟨start, pos, t.line⟩
        if op.isAssignment then return (.assign place op left right, pos)
        else return (.binary place op left right, pos))
      (do
        let (right, pos) ← operandOf n w' t (pos + k + 1) power
        let place : Place := ⟨start', pos, t.line⟩
        if op.isAssignment then return (.assign place op left' right, pos)
        else return (.binary place op left' right, pos)) := by
  have next : pos + k + 1 = pos + 1 + k := by omega
  rw [next]
  refine (ih.operandOf h hhigh t power (Nat.le_succ_of_le hlow) hpos).built fun right right' e hright hle hin => ?_
  dsimp only
  by_cases ha : op.isAssignment = true
  · rw [if_pos ha, if_pos ha]
    exact .ok ⟨.assign rfl ha hleft hright, rfl, hle, hin⟩
  · rw [if_neg ha, if_neg ha]
    exact .ok ⟨.binary rfl (hop.resolve_left ha) hleft hright, rfl, hle, hin⟩

theorem made_access {op : Operator} (hop : op.isBetween = true) (t : Token) {left left' : Node}
    (hleft : Node.Copied w.tokens k low high left left') {pos : Nat} (power start start' : Nat) (hlow : low ≤ pos)
    (hpos : pos < w.stop) :
    Attempts (Made w k low high)
      (do
        let (member, pos) ← member n w (pos + 1) power
        return (.binary ⟨start, pos, t.line⟩ op left member, pos))
      (do
        let (member, pos) ← member n w' (pos + k + 1) power
        return (.binary ⟨start', pos, t.line⟩ op left' member, pos)) := by
  have next : pos + k + 1 = pos + 1 + k := by omega
  rw [next]
  refine (ih.member h hhigh power (Nat.le_succ_of_le hlow) hpos).built fun right right' e hright hle hin => ?_
  exact .ok ⟨.binary rfl hop hleft hright, rfl, hle, hin⟩

theorem made_join {op : Operator} (hop : op.infixPower?.isSome = true) (t : Token) {left left' : Node}
    (hleft : Node.Copied w.tokens k low high left left') {pos : Nat} (power : Nat) (hlow : low ≤ pos) (hpos : pos < w.stop) :
    Attempts (Made w k low high) (join (n + 1) w op t left pos power) (join (n + 1) w' op t left' (pos + k) power) := by
  have next : pos + k + 1 = pos + 1 + k := by omega
  cases op using join_cases with
  | call => exact made_call ih h hhigh t hleft power hlow
  | subscript => exact made_subscript ih h hhigh t hleft power hlow
  | ternary => exact made_ternary ih h hhigh t hleft power hlow hpos
  | incr | decr =>
      rw [Builder.join, Builder.join, next]
      exact .ok ⟨.postfixed rfl rfl hleft, rfl, by dsimp only; omega, by dsimp only; omega⟩
  | arrow =>
      rw [Builder.join, Builder.join]
      exact made_access ih h hhigh rfl t hleft power _ _ hlow hpos
  | doubleColon =>
      rw [Builder.join, Builder.join]
      exact made_access ih h hhigh rfl t hleft power _ _ hlow hpos
  | operand op hcall hsubscript hincr hdecr hternary =>
      have between : op.isAssignment = true ∨ op.isBetween = true := by
        cases op <;> first | exact .inl rfl | exact .inr rfl | exact Bool.noConfusion hop | contradiction
      rw [Builder.join, Builder.join]
      · exact made_between ih h hhigh between t hleft power _ _ hlow hpos
      all_goals assumption

theorem made_operators {left left' : Node} (hleft : Node.Copied w.tokens k low high left left') {pos : Nat} (power : Nat)
    (hlow : low < pos) (hpos : pos ≤ w.stop) :
    Attempts (Made w k low high) (operators (n + 1) w left pos power)
      (operators (n + 1) w' left' (pos + k) power) := by
  have stay : Attempts (Made w k low high) (.ok (left, pos)) (.ok (left', pos + k)) :=
    .ok ⟨hleft, rfl, hlow, hpos⟩
  rw [Builder.operators, Builder.operators, Window.at?_moved h]
  cases ht : w.at? pos with
  | none => exact stay
  | some t =>
      have hlt := Window.lt_of_at? ht
      dsimp only
      cases if t.is .openParen then some .call else t.op? with
      | none => exact stay
      | some op =>
          dsimp only
          cases hpower : op.infixPower? with
          | none => exact stay
          | some powers =>
              dsimp only
              split
              · exact stay
              · refine (ih.join h hhigh (by simp [hpower]) t hleft powers.2 (Nat.le_of_lt hlow) hlt).built fun joined joined' e hjoined hle hin => ?_
                exact ih.operators h hhigh hjoined power hle hin

theorem made_member {pos : Nat} (power : Nat) (hlow : low ≤ pos) (hpos : pos ≤ w.stop) :
    Attempts (Made w k low high) (member (n + 1) w pos power) (member (n + 1) w' (pos + k) power) := by
  rw [Builder.member, Builder.member, Window.at?_moved h, Window.lineAt_moved h hpos]
  cases ht : w.at? pos with
  | none => exact .error _
  | some t =>
      have hlt := Window.lt_of_at? ht
      have next : pos + k + 1 = pos + 1 + k := by omega
      dsimp only
      split
      · rw [next]
        exact made_leaf _ _ hlow (by omega) (by omega) hhigh (by simp)
      · exact ih.expression h hhigh power hlow hpos

theorem made_prefixed {op : Operator} {power : Nat} (hop : op.prefixPower? = some power) (t : Token) {pos : Nat}
    (hlow : low ≤ pos) (hpos : pos < w.stop) :
    Attempts (Made w k low high)
      (do
        let (x, stop) ← operandOf n w t (pos + 1) power
        return (.prefixed ⟨pos, stop, t.line⟩ op x, stop))
      (do
        let (x, stop) ← operandOf n w' t (pos + k + 1) power
        return (.prefixed ⟨pos + k, stop, t.line⟩ op x, stop)) := by
  have next : pos + k + 1 = pos + 1 + k := by omega
  rw [next]
  refine (ih.operandOf h hhigh t power (Nat.le_succ_of_le hlow) hpos).built fun x x' e hx hle hin => ?_
  exact .ok ⟨.prefixed rfl (by simp [hop]) hx, rfl, hle, hin⟩

theorem made_group (t : Token) {pos : Nat} (hlow : low ≤ pos) :
    Attempts (Made w k low high)
      (do
        let close ← w.closing (pos + 1) .openParen .closeParen ⟨t.line, .unclosedParen⟩
        match ← enclosed n ⟨w.tokens, close⟩ (pos + 1) with
        | some tree => return (tree, close + 1)
        | none => .error ⟨t.line, .emptyGroup⟩)
      (do
        let close ← w'.closing (pos + k + 1) .openParen .closeParen ⟨t.line, .unclosedParen⟩
        match ← enclosed n ⟨w'.tokens, close⟩ (pos + k + 1) with
        | some tree => return (tree, close + 1)
        | none => .error ⟨t.line, .emptyGroup⟩) := by
  have next : pos + k + 1 = pos + 1 + k := by omega
  rw [next]
  refine Window.closing_bind h fun close hge hlt => ?_
  have inner : Window.Moved k ⟨w.tokens, close⟩ ⟨w'.tokens, close + k⟩ := h.narrow (by omega) (by omega)
  refine (ih.enclosed inner (show close ≤ high by omega) (Nat.le_succ_of_le hlow) hge).bind fun x x' hx => ?_
  cases hx with
  | none => exact .error _
  | some hx => exact .ok ⟨hx, by dsimp only; omega, by dsimp only; omega, by dsimp only; omega⟩

theorem made_operand {pos : Nat} (hlow : low ≤ pos) (hpos : pos ≤ w.stop) :
    Attempts (Made w k low high) (operand (n + 1) w pos) (operand (n + 1) w' (pos + k)) := by
  rw [Builder.operand, Builder.operand, Window.at?_moved h, Window.lineAt_moved h hpos]
  cases ht : w.at? pos with
  | none => exact .error _
  | some t =>
      have hlt := Window.lt_of_at? ht
      have next : pos + k + 1 = pos + 1 + k := by omega
      have token : w.tokens[pos]? = some t := by
        unfold Window.at? at ht
        rwa [if_pos hlt] at ht
      have single {kind : LeafKind} (hkind : kind = .template → t.is .template = true) :
          Attempts (Made w k low high) (leaf kind pos (pos + 1) t.line)
            (leaf kind (pos + k) (pos + k + 1) t.line) := by
        rw [next]
        exact made_leaf _ _ hlow (by omega) (by omega) hhigh fun h => by simpa [token] using hkind h
      dsimp only
      refine .ite (fun _ => single (by simp)) fun _ => .ite (fun _ => single (by simp)) fun _ =>
        .ite (fun template => single fun _ => template) fun _ =>
        .ite (fun _ => made_variableLeaf h hhigh _ hlow hpos) fun _ => .ite (fun _ => made_group ih h hhigh t hlow) fun _ =>
        .ite (fun _ => made_bracketed h hhigh _ hlow) fun _ => ?_
      cases t.keyword? with
      | some word => exact made_keyword h hhigh word hlow ht
      | none =>
          dsimp only
          cases t.op?.map Operator.asPrefix with
          | none => exact made_nameOrError h hhigh hlow ht
          | some op =>
              dsimp only
              cases hpower : op.prefixPower? with
              | none => exact made_nameOrError h hhigh hlow ht
              | some power => exact made_prefixed ih h hhigh hpower t hlow hlt

theorem made_enclosed {start : Nat} (hlow : low ≤ start) (hstart : start ≤ w.stop) :
    Attempts (MadeAny w.tokens k low high) (enclosed (n + 1) w start) (enclosed (n + 1) w' (start + k)) := by
  rw [Builder.enclosed, Builder.enclosed, h.stop]
  by_cases hempty : w.stop ≤ start
  · rw [if_pos hempty, if_pos (by omega)]
    exact .ok .none
  · rw [if_neg hempty, if_neg (by omega)]
    refine (ih.expression h hhigh 0 hlow hstart).built fun x x' e hx hle hin => ?_
    dsimp only
    rw [Window.at?_moved h]
    cases w.at? e with
    | some t => exact .error _
    | none => exact .ok (.some hx)

theorem made_operandOf (t : Token) {pos : Nat} (power : Nat) (hlow : low ≤ pos) (hpos : pos ≤ w.stop) :
    Attempts (Made w k low high) (operandOf (n + 1) w t pos power) (operandOf (n + 1) w' t (pos + k) power) := by
  rw [Builder.operandOf, Builder.operandOf, Window.at?_moved h]
  split
  · exact .error _
  · exact ih.expression h hhigh power hlow hpos

omit h hhigh in
theorem made_arguments {stop : Nat} {tokens tokens' : Array Token} (h : Window.Moved k ⟨tokens, stop⟩ ⟨tokens', stop + k⟩)
    (hhigh : stop ≤ high) (line : Nat) {ranges : List (Nat × Nat)}
    (hranges : ∀ r ∈ ranges, low < r.1 ∧ r.1 ≤ r.2 ∧ r.2 ≤ stop) :
    Attempts (Node.AllCopied tokens k low high) (arguments (n + 1) tokens line ranges)
      (arguments (n + 1) tokens' line (ranges.map (Scan.movedBy k))) := by
  cases ranges with
  | nil =>
      rw [List.map_nil, Builder.arguments, Builder.arguments]
      exact .ok .nil
  | cons r rest =>
      obtain ⟨start, last⟩ := r
      obtain ⟨hstart, hle, hlast⟩ := hranges _ (List.mem_cons_self ..)
      rw [List.map_cons, Scan.movedBy, Builder.arguments, Builder.arguments]
      have first : Attempts (MadeAny tokens k low high) (Builder.enclosed n ⟨tokens, last⟩ start)
          (Builder.enclosed n ⟨tokens', last + k⟩ (start + k)) := by
        dsimp only at hstart hle hlast
        exact ih.enclosed (h.narrow (by omega) hlast) (by dsimp only; omega) (by omega) hle
      refine first.bind fun x x' hx => ?_
      cases hx with
      | none => exact .error _
      | some hx =>
          refine (ih.arguments h hhigh line fun r hr => hranges r (List.mem_cons_of_mem _ hr)).bind fun xs xs' hxs => ?_
          exact .ok (.cons hx hxs)

omit h hhigh in
theorem Copies.succ : Copies (n + 1) where
  expression {k low high w w'} h hhigh pos power hlow hpos := by
    rw [Builder.expression, Builder.expression]
    refine (ih.operand h hhigh hlow hpos).built fun first first' e hfirst hle hin => ?_
    exact ih.operators h hhigh hfirst power hle hin
  operandOf h hhigh t _ power hlow hpos := made_operandOf ih h hhigh t power hlow hpos
  enclosed h hhigh _ hlow hstart := made_enclosed ih h hhigh hlow hstart
  arguments h hhigh line _ hranges := made_arguments ih h hhigh line hranges
  operators h hhigh _ _ hleft _ power hlow hpos := made_operators ih h hhigh hleft power hlow hpos
  join h hhigh _ hop t _ _ hleft _ power hlow hpos := made_join ih h hhigh hop t hleft power hlow hpos
  member h hhigh _ power hlow hpos := made_member ih h hhigh power hlow hpos
  operand h hhigh _ hlow hpos := made_operand ih h hhigh hlow hpos

omit ih h hhigh in
theorem copies (n : Nat) : Copies n := by
  induction n with
  | zero => exact .zero
  | succ n ih => exact .succ ih

end Operators

end Builder

/-! ### Whole trees -/

section Build

variable {k start stop : Nat} {tokens tokens' : Array Token}

/-- Building a tree over the same tokens, `k` places further on. -/
theorem Node.build_moved (h : Scan.Moved k stop tokens tokens') (hstart : start < stop) (hstop : stop ≤ tokens.size)
    (hstop' : stop + k ≤ tokens'.size) :
    Builder.Attempts (Builder.MadeAny tokens k start stop) (Node.build tokens start stop)
      (Node.build tokens' (start + k) (stop + k)) := by
  have window : Builder.Window.Moved k ⟨tokens, stop⟩ ⟨tokens', stop + k⟩ := ⟨rfl, h, hstop, .inr (show 0 < stop by omega)⟩
  have same : 8 * (stop + k - (start + k)) + 8 = 8 * (stop - start) + 8 := by omega
  unfold Node.build
  dsimp only
  rw [Nat.min_eq_left hstop, Nat.min_eq_left hstop', Nat.min_eq_left (show start ≤ stop by omega),
    Nat.min_eq_left (show start + k ≤ stop + k by omega), same]
  exact (Builder.copies _).enclosed window (Nat.le_refl _) (Nat.le_refl _) (by dsimp only; omega)

/-- Where tokens stand there is a tree or an error. -/
theorem Node.build_ne_none (hstart : start < stop) (hstop : stop ≤ tokens.size) :
    Node.build tokens start stop ≠ .ok none := by
  unfold Node.build
  dsimp only
  rw [Nat.min_eq_left hstop, Nat.min_eq_left (show start ≤ stop by omega), Builder.enclosed,
    if_neg (by dsimp only; omega)]
  cases Builder.expression (8 * (stop - start) + 7) ⟨tokens, stop⟩ start 0 with
  | error e => simp [bind, Except.bind]
  | ok made =>
      simp only [bind, Except.bind]
      split <;> simp

end Build

end StackScript
