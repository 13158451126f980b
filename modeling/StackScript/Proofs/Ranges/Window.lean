/-
Where the builder looks.

Over a buffer that holds the tokens of a window `k` places further on the same tree is built, with all of its places
moved by `k`, or the same error.  So nothing depends on what stands in front of the window or behind it: of two buffers
that hold the same tokens there, both are a moved copy of a third one that holds nothing else.
-/
import Mathlib.Data.List.Basic
import StackScript.Proofs.Ranges.Building

namespace StackScript

/-- The place `k` tokens further on. -/
def Place.moved (k : Nat) (p : Place) : Place := ⟨p.start + k, p.stop + k, p.line⟩

namespace Tree

variable {α : Type}

mutual

/-- The tree with all places `k` tokens further on. -/
def moved (k : Nat) : Tree α → Tree α
  | leaf p a => leaf (p.moved k) a
  | prefixed p op x => prefixed (p.moved k) op (x.moved k)
  | postfixed p op x => postfixed (p.moved k) op (x.moved k)
  | binary p op x y => binary (p.moved k) op (x.moved k) (y.moved k)
  | assign p op x y => assign (p.moved k) op (x.moved k) (y.moved k)
  | ternary p c x y => ternary (p.moved k) (c.moved k) (x.moved k) (y.moved k)
  | call p g xs => call (p.moved k) (g.moved k) (allMoved k xs)
  | index p x y => index (p.moved k) (x.moved k) (y.moved k)
  | append p x => append (p.moved k) (x.moved k)

/-- The arguments of a call with all places `k` tokens further on. -/
def allMoved (k : Nat) : List (Tree α) → List (Tree α)
  | [] => []
  | t :: ts => t.moved k :: allMoved k ts

end

theorem place_moved (k : Nat) (t : Tree α) : (t.moved k).place = t.place.moved k := by cases t <;> rfl

end Tree

namespace Builder

variable {n k pos start power : Nat} {w w' : Window}

/-- What is built over the second buffer is the first one's, moved. -/
def Shifted (k : Nat) (built built' : Node × Nat) : Prop := built' = (built.1.moved k, built.2 + k)

theorem Attempts.bind_ok {α β γ δ : Type} {R : α → β → Prop} {S : γ → δ → Prop} {x : Except TreeError α}
    {x' : Except TreeError β} {f : α → Except TreeError γ} {f' : β → Except TreeError δ} (h : Attempts R x x')
    (hf : ∀ a b, x = .ok a → R a b → Attempts S (f a) (f' b)) : Attempts S (x >>= f) (x' >>= f') := by
  cases h with
  | ok h => exact hf _ _ rfl h
  | error e => exact .error e

/-- What goes on behind a tree that is built does so behind the moved one. -/
theorem Attempts.shifted {α β : Type} {S : α → β → Prop} {x x' : Except TreeError (Node × Nat)}
    {f : Node × Nat → Except TreeError α} {f' : Node × Nat → Except TreeError β} (h : Attempts (Shifted k) x x')
    (hf : ∀ node e, x = .ok (node, e) → Attempts S (f (node, e)) (f' (node.moved k, e + k))) :
    Attempts S (x >>= f) (x' >>= f') := by
  apply h.bind_ok
  rintro ⟨node, e⟩ built' hx rfl
  exact hf node e hx

/-- A leaf that is copied is moved. -/
theorem Attempts.shifted_of_made {low high : Nat} {x x' : Except TreeError (Node × Nat)}
    (h : Attempts (Made w k low high) x x')
    (hleaf : ∀ built, x = .ok built → ∃ kind start stop line, leaf kind start stop line = .ok built) :
    Attempts (Shifted k) x x' := by
  cases h with
  | error e => exact .error e
  | @ok built built' h =>
      obtain ⟨kind, start, stop, line, hbuilt⟩ := hleaf built rfl
      cases hbuilt
      obtain ⟨node, e⟩ := built'
      obtain ⟨hcopied, hmoved, -, -⟩ := h
      cases hcopied
      cases hmoved
      exact .ok rfl

/-- With so much fuel, building over a moved window makes the moved tree. -/
structure Shifts (n : Nat) : Prop where
  expression {k : Nat} {w w' : Window} (h : w.Moved k w') {pos : Nat} (power : Nat) (hpos : pos ≤ w.stop) :
    Attempts (Shifted k) (expression n w pos power) (expression n w' (pos + k) power)
  operandOf {k : Nat} {w w' : Window} (h : w.Moved k w') (t : Token) {pos : Nat} (power : Nat) (hpos : pos ≤ w.stop) :
    Attempts (Shifted k) (operandOf n w t pos power) (operandOf n w' t (pos + k) power)
  enclosed {k : Nat} {w w' : Window} (h : w.Moved k w') {start : Nat} (hstart : start ≤ w.stop) :
    Attempts (fun x x' => x' = x.map (Tree.moved k)) (enclosed n w start) (enclosed n w' (start + k))
  arguments {k stop : Nat} {tokens tokens' : Array Token} (h : Window.Moved k ⟨tokens, stop⟩ ⟨tokens', stop + k⟩)
    (line : Nat) {ranges : List (Nat × Nat)} (hranges : ∀ r ∈ ranges, 0 < r.1 ∧ r.1 ≤ r.2 ∧ r.2 ≤ stop) :
    Attempts (fun xs xs' => xs' = Tree.allMoved k xs) (arguments n tokens line ranges)
      (arguments n tokens' line (ranges.map (Scan.movedBy k)))
  operators {k : Nat} {w w' : Window} (h : w.Moved k w') {left : Node} {i pos : Nat} (hleft : left.Covers w.tokens i pos)
    (power : Nat) (hpos : pos ≤ w.stop) :
    Attempts (Shifted k) (operators n w left pos power) (operators n w' (left.moved k) (pos + k) power)
  join {k : Nat} {w w' : Window} (h : w.Moved k w') (op : Operator) (t : Token) (left : Node) {pos : Nat} (power : Nat)
    (hpos : pos < w.stop) :
    Attempts (Shifted k) (join n w op t left pos power) (join n w' op t (left.moved k) (pos + k) power)
  member {k : Nat} {w w' : Window} (h : w.Moved k w') {pos : Nat} (power : Nat) (hpos : pos ≤ w.stop) :
    Attempts (Shifted k) (member n w pos power) (member n w' (pos + k) power)
  operand {k : Nat} {w w' : Window} (h : w.Moved k w') {pos : Nat} (hpos : pos ≤ w.stop) :
    Attempts (Shifted k) (operand n w pos) (operand n w' (pos + k))

theorem Shifts.zero : Shifts 0 where
  expression h _ _ hpos := by
    rw [Builder.expression, Builder.expression, Window.lineAt_moved h hpos]
    exact .error _
  operandOf h _ _ _ hpos := by
    rw [Builder.operandOf, Builder.operandOf, Window.lineAt_moved h hpos]
    exact .error _
  enclosed h _ hstart := by
    rw [Builder.enclosed, Builder.enclosed, Window.lineAt_moved h hstart]
    exact .error _
  arguments _ line _ _ := by
    rw [Builder.arguments, Builder.arguments]
    exact .error _
  operators h _ _ _ _ _ hpos := by
    unfold Builder.operators
    rw [Window.lineAt_moved h hpos]
    exact .error _
  join h _ _ _ _ _ hpos := by
    unfold Builder.join
    rw [Window.lineAt_moved h (Nat.le_of_lt hpos)]
    exact .error _
  member h _ _ hpos := by
    rw [Builder.member, Builder.member, Window.lineAt_moved h hpos]
    exact .error _
  operand h _ hpos := by
    rw [Builder.operand, Builder.operand, Window.lineAt_moved h hpos]
    exact .error _

/-! ### Operators behind an operand -/

section Step

variable (ih : Shifts n) (h : w.Moved k w')

include ih h

theorem shifted_call (t : Token) (left : Node) :
    Attempts (Shifted k) (join (n + 1) w .call t left pos power)
      (join (n + 1) w' .call t (left.moved k) (pos + k) power) := by
  have next : pos + k + 1 = pos + 1 + k := by omega
  rw [join, join, next]
  refine Window.closing_bind h fun close hge hlt => ?_
  have inner : Window.Moved k ⟨w.tokens, close⟩ ⟨w'.tokens, close + k⟩ := h.narrow (by omega) (by omega)
  rw [Scan.splitCommas_moved _ (h.tokens.mono (Nat.le_of_lt hlt))]
  have inside : ∀ r ∈ Scan.splitCommas w.tokens (pos + 1) close, 0 < r.1 ∧ r.1 ≤ r.2 ∧ r.2 ≤ close := fun r hr => by
    have := Scan.splitCommas_bounds hr
    omega
  refine (ih.arguments inner t.line inside).bind fun xs xs' hxs => ?_
  subst hxs
  have behind : close + k + 1 = close + 1 + k := by omega
  rw [behind, Tree.place_moved]
  exact .ok rfl

theorem shifted_subscript (t : Token) (left : Node) :
    Attempts (Shifted k) (join (n + 1) w .subscript t left pos power)
      (join (n + 1) w' .subscript t (left.moved k) (pos + k) power) := by
  have next : pos + k + 1 = pos + 1 + k := by omega
  rw [join, join, next]
  refine Window.closing_bind h fun close hge hlt => ?_
  have inner : Window.Moved k ⟨w.tokens, close⟩ ⟨w'.tokens, close + k⟩ := h.narrow (by omega) (by omega)
  refine (ih.enclosed inner hge).bind fun key key' hkey => ?_
  subst hkey
  have behind : close + k + 1 = close + 1 + k := by omega
  rw [behind, Tree.place_moved]
  cases key with
  | none => exact .ok rfl
  | some key => exact .ok rfl

theorem shifted_ternary (t : Token) (left : Node) (hpos : pos < w.stop) :
    Attempts (Shifted k) (join (n + 1) w .ternary t left pos power)
      (join (n + 1) w' .ternary t (left.moved k) (pos + k) power) := by
  have next : pos + k + 1 = pos + 1 + k := by omega
  rw [join, join, next]
  refine (ih.operandOf h t 0 hpos).shifted fun yes e hyes => ?_
  have behind : e + k + 1 = e + 1 + k := by omega
  dsimp only
  rw [Window.at?_moved h, behind]
  cases hcolon : w.at? e with
  | none => exact .error _
  | some colon =>
      dsimp only
      split
      · refine (ih.operandOf h colon power (Window.lt_of_at? hcolon)).shifted fun no e' hno => ?_
        rw [Tree.place_moved]
        exact .ok rfl
      · exact .error _

theorem shifted_join (op : Operator) (t : Token) (left : Node) (hpos : pos < w.stop) :
    Attempts (Shifted k) (join (n + 1) w op t left pos power) (join (n + 1) w' op t (left.moved k) (pos + k) power) := by
  have next : pos + k + 1 = pos + 1 + k := by omega
  cases op using join_cases with
  | call => exact shifted_call ih h t left
  | subscript => exact shifted_subscript ih h t left
  | ternary => exact shifted_ternary ih h t left hpos
  | incr | decr =>
      rw [join, join, next, Tree.place_moved]
      exact .ok rfl
  | arrow | doubleColon =>
      rw [join, join, next, Tree.place_moved]
      exact (ih.member h power hpos).shifted fun right e _ => .ok rfl
  | operand op =>
      rw [join, join, next, Tree.place_moved]
      · refine (ih.operandOf h t power hpos).shifted fun right e _ => ?_
        dsimp only
        split <;> exact .ok rfl
      all_goals assumption

theorem shifted_operators {left : Node} {i : Nat} (hleft : left.Covers w.tokens i pos) :
    Attempts (Shifted k) (operators (n + 1) w left pos power)
      (operators (n + 1) w' (left.moved k) (pos + k) power) := by
  have stay : Attempts (Shifted k) (.ok (left, pos)) (.ok (left.moved k, pos + k)) := .ok rfl
  rw [operators, operators, Window.at?_moved h]
  cases ht : w.at? pos with
  | none => exact stay
  | some t =>
      dsimp only
      cases hop : (if t.is .openParen then some .call else t.op?) with
      | none => exact stay
      | some op =>
          dsimp only
          cases op.infixPower? with
          | none => exact stay
          | some powers =>
              dsimp only
              split
              · exact stay
              · refine (ih.join h op t left powers.2 (Window.lt_of_at? ht)).shifted fun joined e hjoined => ?_
                have made := (sound n).join h.filled hleft ht (by simpa [Sign.fits] using hop) hjoined
                exact ih.operators h made.covers power made.within

/-! ### Operands -/

theorem shifted_member (hpos : pos ≤ w.stop) :
    Attempts (Shifted k) (member (n + 1) w pos power) (member (n + 1) w' (pos + k) power) := by
  rw [member, member, Window.at?_moved h, Window.lineAt_moved h hpos]
  cases w.at? pos with
  | none => exact .error _
  | some t =>
      have next : pos + k + 1 = pos + 1 + k := by omega
      dsimp only
      split
      · rw [next]
        exact .ok rfl
      · exact ih.expression h power hpos

theorem shifted_group (t : Token) :
    Attempts (Shifted k)
      (do
        let close ← w.closing (pos + 1) .openParen .closeParen ⟨t.line, .unclosedParen⟩
        match ← enclosed n ⟨w.tokens, close⟩ (pos + 1) with
        | some tree => return (tree, close + 1)
        | none => .error ⟨t.line, .emptyGroup⟩)
      (do
        let close ← w'.closing (pos + k + 1) .openParen .closeParen ⟨t.line, .unclosedParen⟩
        match ← enclosed n ⟨w'.tokens, close⟩ (pos + k + 1) with
        | some tree => return (tree, close + 1)
        | none => .error ⟨t.line, .emptyGroup⟩) := by
  have next : pos + k + 1 = pos + 1 + k := by omega
  rw [next]
  refine Window.closing_bind h fun close hge hlt => ?_
  have inner : Window.Moved k ⟨w.tokens, close⟩ ⟨w'.tokens, close + k⟩ := h.narrow (by omega) (by omega)
  refine (ih.enclosed inner hge).bind fun x x' hx => ?_
  subst hx
  have behind : close + k + 1 = close + 1 + k := by omega
  rw [behind]
  cases x with
  | none => exact .error _
  | some x => exact .ok rfl

theorem shifted_prefixed (op : Operator) (t : Token) (hpos : pos < w.stop) :
    Attempts (Shifted k)
      (do
        let (x, stop) ← operandOf n w t (pos + 1) power
        return (.prefixed ⟨pos, stop, t.line⟩ op x, stop))
      (do
        let (x, stop) ← operandOf n w' t (pos + k + 1) power
        return (.prefixed ⟨pos + k, stop, t.line⟩ op x, stop)) := by
  have next : pos + k + 1 = pos + 1 + k := by omega
  rw [next]
  exact (ih.operandOf h t power hpos).shifted fun x e _ => .ok rfl

theorem shifted_operand (hpos : pos ≤ w.stop) :
    Attempts (Shifted k) (operand (n + 1) w pos) (operand (n + 1) w' (pos + k)) := by
  rw [operand, operand, Window.at?_moved h, Window.lineAt_moved h hpos]
  cases ht : w.at? pos with
  | none => exact .error _
  | some t =>
      have hlt := Window.lt_of_at? ht
      have hhigh := Nat.le_refl w.stop
      have hlow := Nat.le_refl pos
      have name : Attempts (Shifted k) (nameOrError w pos t) (nameOrError w' (pos + k) t) :=
        (made_nameOrError h hhigh hlow ht).shifted_of_made fun built hbuilt => by
          obtain ⟨stop, hleaf⟩ := exists_of_nameOrError hbuilt
          exact ⟨_, _, _, _, hleaf⟩
      have single (kind : LeafKind) :
          Attempts (Shifted k) (leaf kind pos (pos + 1) t.line) (leaf kind (pos + k) (pos + k + 1) t.line) := by
        rw [show pos + k + 1 = pos + 1 + k by omega]
        exact .ok rfl
      dsimp only
      refine .ite (fun _ => single _) fun _ => .ite (fun _ => single _) fun _ => .ite (fun _ => single _) fun _ => ?_
      refine .ite (fun _ => ?_) fun _ => .ite (fun _ => shifted_group ih h t) fun _ => .ite (fun _ => ?_) fun _ => ?_
      · refine (made_variableLeaf h hhigh _ hlow hpos).shifted_of_made fun built hbuilt => ?_
        obtain ⟨stop, hleaf⟩ := exists_of_variableLeaf hbuilt
        exact ⟨_, _, _, _, hleaf⟩
      · refine (made_bracketed h hhigh _ hlow).shifted_of_made fun built hbuilt => ?_
        obtain ⟨close, -, hleaf⟩ := exists_of_bind hbuilt
        exact ⟨_, _, _, _, hleaf⟩
      cases hword : t.keyword? with
      | some word =>
          refine (made_keyword h hhigh word hlow ht).shifted_of_made fun built hbuilt => ?_
          obtain ⟨kind, stop, -, hleaf⟩ := exists_of_keyword ht hword hbuilt
          exact ⟨_, _, _, _, hleaf⟩
      | none =>
          dsimp only
          cases t.op?.map Operator.asPrefix with
          | none => exact name
          | some op =>
              dsimp only
              cases op.prefixPower? with
              | none => exact name
              | some power => exact shifted_prefixed ih h op t hlt

/-! ### Windows -/

theorem shifted_enclosed (hstart : start ≤ w.stop) :
    Attempts (fun x x' => x' = x.map (Tree.moved k)) (enclosed (n + 1) w start) (enclosed (n + 1) w' (start + k)) := by
  rw [enclosed, enclosed, h.stop]
  by_cases hempty : w.stop ≤ start
  · rw [if_pos hempty, if_pos (by omega)]
    exact .ok rfl
  · rw [if_neg hempty, if_neg (by omega)]
    refine (ih.expression h 0 hstart).shifted fun x e hx => ?_
    dsimp only
    rw [Window.at?_moved h]
    cases w.at? e with
    | some t => exact .error _
    | none => exact .ok rfl

omit h in
theorem shifted_arguments {stop : Nat} {tokens tokens' : Array Token}
    (h : Window.Moved k ⟨tokens, stop⟩ ⟨tokens', stop + k⟩) (line : Nat) {ranges : List (Nat × Nat)}
    (hranges : ∀ r ∈ ranges, 0 < r.1 ∧ r.1 ≤ r.2 ∧ r.2 ≤ stop) :
    Attempts (fun xs xs' => xs' = Tree.allMoved k xs) (arguments (n + 1) tokens line ranges)
      (arguments (n + 1) tokens' line (ranges.map (Scan.movedBy k))) := by
  cases ranges with
  | nil =>
      rw [List.map_nil, arguments, arguments]
      exact .ok rfl
  | cons r rest =>
      obtain ⟨start, last⟩ := r
      obtain ⟨hstart, hle, hlast⟩ := hranges _ (List.mem_cons_self ..)
      dsimp only at hstart hle hlast
      rw [List.map_cons, Scan.movedBy, arguments, arguments]
      have inner : Window.Moved k ⟨tokens, last⟩ ⟨tokens', last + k⟩ := h.narrow (by omega) hlast
      refine (ih.enclosed inner hle).bind fun x x' hx => ?_
      subst hx
      cases x with
      | none => exact .error _
      | some x =>
          refine (ih.arguments h line fun r hr => hranges r (List.mem_cons_of_mem _ hr)).bind fun xs xs' hxs => ?_
          subst hxs
          exact .ok rfl

omit h in
theorem Shifts.succ : Shifts (n + 1) where
  expression {k w w'} h pos power hpos := by
    rw [Builder.expression, Builder.expression]
    refine (ih.operand h hpos).shifted fun first e hfirst => ?_
    have made := (sound n).operand h.filled hfirst
    exact ih.operators h made.covers power made.within
  operandOf {k w w'} h t pos power hpos := by
    rw [Builder.operandOf, Builder.operandOf, Window.at?_moved h]
    split
    · exact .error _
    · exact ih.expression h power hpos
  enclosed h _ hstart := shifted_enclosed ih h hstart
  arguments h line _ hranges := shifted_arguments ih h line hranges
  operators h _ _ _ hleft _ _ := shifted_operators ih h hleft
  join h op t left _ _ hpos := shifted_join ih h op t left hpos
  member h _ _ hpos := shifted_member ih h hpos
  operand h _ hpos := shifted_operand ih h hpos

end Step

theorem Attempts.eq_map {α β : Type} {f : α → β} {x : Except TreeError α} {x' : Except TreeError β}
    (h : Attempts (fun a b => b = f a) x x') : x' = f <$> x := by
  cases h with
  | ok h =>
      subst h
      rfl
  | error e => rfl

theorem shifts (n : Nat) : Shifts n := by
  induction n with
  | zero => exact .zero
  | succ n ih => exact .succ ih

end Builder

namespace Node

variable {tokens tokens' : Array Token} {k start stop : Nat}

/-- A window further on is built as the same tree, moved. -/
theorem build_shift (h : Scan.Moved k stop tokens tokens') (hstart : start < stop) (hstop : stop ≤ tokens.size)
    (hstop' : stop + k ≤ tokens'.size) :
    Node.build tokens' (start + k) (stop + k) = Option.map (Tree.moved k) <$> Node.build tokens start stop := by
  have window : Builder.Window.Moved k ⟨tokens, stop⟩ ⟨tokens', stop + k⟩ := ⟨rfl, h, hstop, .inr (show 0 < stop by omega)⟩
  have same : 8 * (stop + k - (start + k)) + 8 = 8 * (stop - start) + 8 := by omega
  unfold Node.build
  dsimp only
  rw [Nat.min_eq_left hstop, Nat.min_eq_left hstop', Nat.min_eq_left (show start ≤ stop by omega),
    Nat.min_eq_left (show start + k ≤ stop + k by omega), same]
  exact ((Builder.shifts _).enclosed window (Nat.le_of_lt hstart)).eq_map

theorem build_empty (tokens : Array Token) (h : stop ≤ start) : Node.build tokens start stop = .ok none := by
  unfold Node.build
  dsimp only
  rw [Builder.enclosed, if_pos (by dsimp only; omega)]

/-- A window is cut to the buffer before it is built. -/
theorem build_clamped (tokens : Array Token) (start stop : Nat) :
    Node.build tokens (min start (min stop tokens.size)) (min stop tokens.size) = Node.build tokens start stop := by
  unfold Node.build
  dsimp only
  rw [Nat.min_eq_left (Nat.min_le_right stop tokens.size), Nat.min_eq_left (Nat.min_le_right start _)]

/-- Where two buffers hold the same tokens the same tree is built. -/
theorem build_congr (h : ∀ i, start ≤ i → i < stop → tokens'[i]? = tokens[i]?) (hstop : stop ≤ tokens.size) :
    Node.build tokens' start stop = Node.build tokens start stop := by
  by_cases hstart : start < stop
  · have hstop' : stop ≤ tokens'.size := by
      have last := h (stop - 1) (by omega) (by omega)
      rw [Array.getElem?_eq_getElem (show stop - 1 < tokens.size by omega)] at last
      have := (Array.getElem?_eq_some_iff.mp last).1
      omega
    -- The tokens of the window alone, from which both buffers show a moved copy.
    have back : stop - start + start = stop := by omega
    have moved : Scan.Moved start (stop - start) (tokens.extract start stop) tokens := fun i hi => by
      rw [Array.getElem?_extract, if_pos (by omega), Nat.add_comm]
    have moved' : Scan.Moved start (stop - start) (tokens.extract start stop) tokens' := fun i hi => by
      rw [h (i + start) (by omega) (by omega), moved i hi]
    have size : stop - start ≤ (tokens.extract start stop).size := by
      rw [Array.size_extract]
      omega
    have built := build_shift moved (show 0 < stop - start by omega) size (by omega)
    have built' := build_shift moved' (show 0 < stop - start by omega) size (by omega)
    rw [Nat.zero_add, back] at built built'
    rw [built, built']
  · rw [build_empty tokens (by omega), build_empty tokens' (by omega)]

/-- The places of a tree account for every token of its window, and no token outside the window has a part in what is
built. -/
theorem build_accounts (tokens : Array Token) (start stop : Nat) :
    (∀ t, Node.build tokens start stop = .ok (some t) →
      t.Accounts tokens (min start (min stop tokens.size)) (min stop tokens.size)) ∧
    ∀ tokens' : Array Token,
      (∀ i, min start (min stop tokens.size) ≤ i → i < min stop tokens.size → tokens'[i]? = tokens[i]?) →
      Node.build tokens' (min start (min stop tokens.size)) (min stop tokens.size) = Node.build tokens start stop := by
  refine ⟨fun t h => (Node.covers_of_build h).accounts, fun tokens' h => ?_⟩
  rw [build_congr h (Nat.min_le_right ..), build_clamped]

/-- A call with a group and an array for its arguments, in a range that reaches beyond the buffer.  Another token in
the buffer changes nothing. -/
theorem build_accounts_call :
    ∃ (tokens : Array Token) (t : Node),
      tokens = #[⟨.name, "f", 1⟩, ⟨.openParen, "(", 1⟩, ⟨.openParen, "(", 1⟩, ⟨.integer, "1", 1⟩, ⟨.closeParen, ")", 1⟩,
        ⟨.comma, ",", 1⟩, ⟨.openBracket, "[", 1⟩, ⟨.integer, "2", 1⟩, ⟨.closeBracket, "]", 1⟩, ⟨.closeParen, ")", 1⟩] ∧
      t = .call ⟨0, 10, 1⟩ (.leaf ⟨0, 1, 1⟩ .name) [.leaf ⟨3, 4, 1⟩ .number, .leaf ⟨6, 9, 1⟩ .array] ∧
      Node.build tokens 0 99 = .ok (some t) ∧ t.Accounts tokens 0 10 ∧
      Node.build (tokens ++ #[⟨.comma, ",", 1⟩]) 0 10 = .ok (some t) := by
  refine ⟨_, _, rfl, rfl, ?_⟩
  suffices built : Node.build _ 0 99 = .ok (some _) from
    ⟨built, (build_accounts _ 0 99).1 _ built, ((build_accounts _ 0 99).2 _ fun i _ hi =>
      Array.getElem?_append_left (Nat.lt_of_lt_of_le hi (Nat.min_le_right ..))).trans built⟩
  with_unfolding_all rfl

end Node

end StackScript
