/-
Building undoes writing.

A tree is built from the tokens it was written as, whatever lines they are on.  Every operand is a leaf or a group, so
the builder meets one operator between two ends of a window and joins its operands whatever its power.
-/
import StackScript.Proofs.Printing.Groups

namespace StackScript

namespace Builder

variable {tokens : Array Token}

@[simp] theorem ok_bind {α β : Type} (a : α) (f : α → Except TreeError β) :
    ((Except.ok a : Except TreeError α) >>= f) = f a := rfl

@[simp] theorem pure_eq_ok {α : Type} (a : α) : (pure a : Except TreeError α) = .ok a := rfl

/-! ### Windows -/

namespace Window

theorem at?_of_getElem? {i stop : Nat} {t : Token} (ht : tokens[i]? = some t) (hi : i < stop) :
    (⟨tokens, stop⟩ : Window).at? i = some t := by
  simp [at?, hi, ht]

@[simp] theorem at?_stop (stop : Nat) : (⟨tokens, stop⟩ : Window).at? stop = none := by
  simp [at?]

theorem isAt_of_getElem? {i stop : Nat} {t : Token} (ht : tokens[i]? = some t) (hi : i < stop) (cs : List TokenClass) :
    (⟨tokens, stop⟩ : Window).isAt i cs = t.isAny cs := by
  simp [isAt, at?_of_getElem? ht hi]

/-- The group of nested tokens is closed behind them. -/
theorem closing_nested {openKind closeKind : TokenKind} {openClass closeClass : TokenClass}
    (h : Scan.Brackets openKind closeKind openClass closeClass) {xs : List Lexeme} (hxs : Nested xs) {i j stop : Nat}
    (hspelled : Spelled tokens i xs j) {t : Token} (ht : tokens[j]? = some t) (hkind : t.kind = closeKind) (hj : j < stop)
    (error : TreeError) : (⟨tokens, stop⟩ : Window).closing i openClass closeClass error = .ok j := by
  rw [Window.closing, Scan.matching?_nested h hxs hspelled ht hkind hj]

end Window

/-! ### Leaves -/

/-- What stands behind an operand: no further segment of a path. -/
def Ends (w : Window) (j : Nat) : Prop := w.isAt j [.namespaceMark] = false

theorem ends_stop (stop : Nat) : Ends ⟨tokens, stop⟩ stop := by
  simp [Ends, Window.isAt]

theorem ends_of_getElem? {j stop : Nat} {t : Token} (ht : tokens[j]? = some t) (hkind : t.kind ≠ .namespaceMark)
    (hj : j < stop) : Ends ⟨tokens, stop⟩ j := by
  rw [Ends, Window.isAt_of_getElem? ht hj]
  obtain ⟨kind, text, line⟩ := t
  cases kind <;> simp [Token.isAny, Token.is, TokenKind.classes] at hkind ⊢

theorem segments_ends {w : Window} {j : Nat} (h : Ends w j) (n : Nat) : w.segments n j = 0 := by
  cases n with
  | zero => rfl
  | succ n =>
      unfold Ends at h
      simp [Window.segments, h]

/-- One dollar sign and a word make a variable. -/
theorem variableLeaf_word {i stop : Nat} {t u : Token} (ht : tokens[i]? = some t) (hu : tokens[i + 1]? = some u)
    (hdollar : t.kind = .dollar) (hword : u.isAny [.name, .keyword] = true) (hother : u.is .dollar = false)
    (hstop : i + 2 ≤ stop) (line : Nat) :
    variableLeaf ⟨tokens, stop⟩ i line = .ok (.leaf ⟨i, i + 2, line⟩ .variable, i + 2) := by
  have first : (⟨tokens, stop⟩ : Window).at? i = some t := Window.at?_of_getElem? ht (by omega)
  have second : (⟨tokens, stop⟩ : Window).at? (i + 1) = some u := Window.at?_of_getElem? hu (by omega)
  have word : (⟨tokens, stop⟩ : Window).isAt (i + 1) [.name, .keyword] = true := by
    rw [Window.isAt_of_getElem? hu (by omega)]
    exact hword
  have dollar : t.is .dollar = true := by simp [Token.is, hdollar, TokenKind.classes]
  have length : (⟨tokens, stop⟩ : Window).runLength (·.is .dollar) (stop - i) i = 1 := by
    obtain ⟨m, hm⟩ : ∃ m, stop - i = m + 2 := ⟨stop - i - 2, by omega⟩
    simp [hm, Window.runLength, first, second, dollar, hother]
  simp [variableLeaf, length, word, leaf]

/-- A simple leaf covers its tokens. -/
theorem operand_simple {a : LeafText} (ha : a.Simple) {i j stop : Nat} (h : Spelled tokens i a.lexemes j) (hj : j ≤ stop)
    (hends : Ends ⟨tokens, stop⟩ j) (n : Nat) :
    ∃ line, operand (n + 1) ⟨tokens, stop⟩ i = .ok (.leaf ⟨i, j, line⟩ a.kind, j) := by
  cases ha with
  | integer text | real text | simpleString text | template text =>
      obtain ⟨t, ht, hlexeme, hend⟩ := h.of_cons
      obtain rfl := hend.length
      have kind := congrArg Prod.fst hlexeme
      dsimp only [Token.lexeme] at kind
      refine ⟨t.line, ?_⟩
      rw [operand, Window.at?_of_getElem? ht (by simp at hj; omega)]
      simp [Scan.isAny_of_kind kind, Token.is, kind, TokenKind.classes, leaf]
  | var hkind text =>
      obtain ⟨t, ht, hlexeme, hrest⟩ := h.of_cons
      obtain ⟨u, hu, hlexeme', hend⟩ := hrest.of_cons
      obtain rfl := hend.length
      have kind := congrArg Prod.fst hlexeme
      have kind' := congrArg Prod.fst hlexeme'
      dsimp only [Token.lexeme] at kind kind'
      simp only [List.length_nil, Nat.add_zero] at hj hends ⊢
      have word : u.isAny [.name, .keyword] = true := by simpa [Scan.isAny_of_kind kind'] using hkind
      have other : u.is .dollar = false := by
        cases hu' : u.kind <;> simp [← kind', hu', TokenKind.classes] at hkind <;> simp [Token.is, hu', TokenKind.classes]
      refine ⟨t.line, ?_⟩
      rw [operand, Window.at?_of_getElem? ht (by omega)]
      simp [Scan.isAny_of_kind kind, Token.is, kind, TokenKind.classes, variableLeaf_word ht hu kind word other hj]
  | name text =>
      obtain ⟨t, ht, hlexeme, hend⟩ := h.of_cons
      obtain rfl := hend.length
      have kind := congrArg Prod.fst hlexeme
      dsimp only [Token.lexeme] at kind
      simp only [List.length_nil, Nat.add_zero] at hj hends ⊢
      refine ⟨t.line, ?_⟩
      have word : (⟨tokens, stop⟩ : Window).isAt i [.name] = true := by
        rw [Window.isAt_of_getElem? ht (by omega), Scan.isAny_of_kind kind]
        decide
      have mark : (⟨tokens, stop⟩ : Window).isAt i [.namespaceMark] = false := by
        rw [Window.isAt_of_getElem? ht (by omega), Scan.isAny_of_kind kind]
        decide
      rw [operand, Window.at?_of_getElem? ht (by omega)]
      simp [Scan.isAny_of_kind kind, Token.is, Token.keyword?, Token.op?, kind, TokenKind.classes, TokenKind.keyword?,
        TokenKind.op?, nameOrError, nameLeaf, word, mark, segments_ends hends, leaf]

/-! ### Operands -/

/-- The tree that was built is the one that was written, apart from places. -/
def Same (tokens : Array Token) (t : Tree LeafText) (node : Node) : Prop :=
  (node.mapLeaves (LeafText.at tokens)).unplaced = t.unplaced

/-- A tree is built from the tokens it is written as. -/
def Rebuilt (tokens : Array Token) (t : Tree LeafText) : Prop :=
  ∀ i j n, Spelled tokens i t.lexemes j → 8 * t.lexemes.length ≤ n →
    ∃ node, expression n ⟨tokens, j⟩ i 0 = .ok (node, j) ∧ Same tokens t node

theorem lexemes_ne_nil {t : Tree LeafText} (ht : t.Writable) : t.lexemes ≠ [] := by
  cases ht with
  | leaf h => cases h <;> simp [Tree.lexemes]
  | _ => simp [Tree.lexemes]

theorem operand_ne_nil {t : Tree LeafText} (ht : t.Writable) : t.operand ≠ [] := by
  unfold Tree.operand Tree.enclose
  split
  · exact lexemes_ne_nil ht
  · simp

variable {t : Tree LeafText} {i j stop n : Nat}

theorem enclosed_rebuilt (ht : t.Writable) (h : Rebuilt tokens t) (hs : Spelled tokens i t.lexemes j)
    (hn : 8 * t.lexemes.length + 1 ≤ n) : ∃ node, enclosed n ⟨tokens, j⟩ i = .ok (some node) ∧ Same tokens t node := by
  obtain ⟨n, rfl⟩ : ∃ m, n = m + 1 := ⟨n - 1, by omega⟩
  obtain ⟨node, hnode, hsame⟩ := h i j n hs (by omega)
  have filled := List.length_pos_iff.mpr (lexemes_ne_nil ht)
  have length := hs.length
  refine ⟨node, ?_, hsame⟩
  rw [enclosed, if_neg (by dsimp only; omega), hnode]
  simp

/-- A group is the tree inside it. -/
theorem operand_group (ht : t.Writable) (h : Rebuilt tokens t)
    (hs : Spelled tokens i (Lexeme.openParen :: (t.lexemes ++ [Lexeme.closeParen])) j) (hj : j ≤ stop)
    (hn : 8 * t.lexemes.length + 1 ≤ n) :
    ∃ node, operand (n + 1) ⟨tokens, stop⟩ i = .ok (node, j) ∧ Same tokens t node := by
  obtain ⟨u, hu, hopening, hbehind⟩ := hs.of_cons
  obtain ⟨m, hinside, hclose⟩ := hbehind.of_append
  obtain ⟨v, hv, hclosing, hend⟩ := hclose.of_cons
  obtain rfl := hend.length
  have opens : u.kind = .openParen := congrArg Prod.fst hopening
  have closes : v.kind = .closeParen := congrArg Prod.fst hclosing
  have length := hinside.length
  simp only [List.length_nil, Nat.add_zero] at hj ⊢
  obtain ⟨node, hnode, hsame⟩ := enclosed_rebuilt ht h hinside hn
  refine ⟨node, ?_, hsame⟩
  have closing (e : TreeError) := Window.closing_nested .round ht.nested hinside hv closes (show m < stop by omega) e
  rw [operand, Window.at?_of_getElem? hu (by omega)]
  simp [Scan.isAny_of_kind opens, Token.is, opens, TokenKind.classes, closing, hnode]

theorem at_of_spelled {p : Place} {a : LeafText} (h : Spelled tokens p.start a.lexemes p.stop) :
    LeafText.at tokens p a.kind = a := by
  rw [LeafText.at, h.extract]

/-- A leaf is built again, or the tree in a group. -/
theorem operand_rebuilt (ht : t.Writable) (h : Rebuilt tokens t) (hs : Spelled tokens i t.operand j) (hj : j ≤ stop)
    (hends : Ends ⟨tokens, stop⟩ j) (hn : 8 * t.operand.length ≤ n + 7) :
    ∃ node, operand n ⟨tokens, stop⟩ i = .ok (node, j) ∧ Same tokens t node := by
  have filled := List.length_pos_iff.mpr (operand_ne_nil ht)
  obtain ⟨n, rfl⟩ : ∃ m, n = m + 1 := ⟨n - 1, by omega⟩
  cases hleaf : t.isLeaf with
  | true =>
      cases ht with
      | @leaf p a ha =>
          obtain ⟨line, hnode⟩ := operand_simple ha hs hj hends n
          refine ⟨_, hnode, ?_⟩
          simp only [Same, Tree.mapLeaves, Tree.unplaced]
          rw [at_of_spelled (p := ⟨i, j, line⟩) hs]
      | _ => simp [Tree.isLeaf] at hleaf
  | false =>
      have group : t.operand = Lexeme.openParen :: (t.lexemes ++ [Lexeme.closeParen]) := by
        simp [Tree.operand, Tree.enclose, hleaf]
      rw [group] at hs hn
      simp only [List.length_cons, List.length_append, List.length_nil] at hn
      exact operand_group ht h hs hj (by omega)

/-- Where no operator follows, an operand is a whole expression. -/
def Closes (w : Window) (j : Nat) : Prop := ∀ t, w.at? j = some t → t.kind = .colon

theorem closes_stop (stop : Nat) : Closes ⟨tokens, stop⟩ stop := by
  simp [Closes]

theorem Closes.ends {w : Window} (h : Closes w j) : Ends w j := by
  unfold Ends Window.isAt
  cases hat : w.at? j with
  | none => rfl
  | some t => simp [Scan.isAny_of_kind (h t hat), TokenKind.classes]

theorem operators_closes {w : Window} (h : Closes w j) (left : Node) (power : Nat) :
    operators (n + 1) w left j power = .ok (left, j) := by
  rw [operators]
  cases hat : w.at? j with
  | none => rfl
  | some t => simp [Token.is, Token.op?, h t hat, TokenKind.classes, TokenKind.op?]

theorem expression_rebuilt (ht : t.Writable) (h : Rebuilt tokens t) (hs : Spelled tokens i t.operand j) (hj : j ≤ stop)
    (hcloses : Closes ⟨tokens, stop⟩ j) (hn : 8 * t.operand.length ≤ n + 6) (power : Nat) :
    ∃ node, expression n ⟨tokens, stop⟩ i power = .ok (node, j) ∧ Same tokens t node := by
  have filled := List.length_pos_iff.mpr (operand_ne_nil ht)
  obtain ⟨n, rfl⟩ : ∃ m, n = m + 2 := ⟨n - 2, by omega⟩
  obtain ⟨node, hnode, hsame⟩ := operand_rebuilt (n := n + 1) ht h hs hj hcloses.ends (by omega)
  refine ⟨node, ?_, hsame⟩
  rw [expression, hnode]
  simp [operators_closes hcloses]

theorem operandOf_rebuilt (ht : t.Writable) (h : Rebuilt tokens t) (hs : Spelled tokens i t.operand j) (hj : j ≤ stop)
    (hcloses : Closes ⟨tokens, stop⟩ j) (hn : 8 * t.operand.length ≤ n + 5) (u : Token) (power : Nat) :
    ∃ node, operandOf n ⟨tokens, stop⟩ u i power = .ok (node, j) ∧ Same tokens t node := by
  obtain ⟨n, rfl⟩ : ∃ m, n = m + 1 := by
    have filled := List.length_pos_iff.mpr (operand_ne_nil ht)
    exact ⟨n - 1, by omega⟩
  obtain ⟨node, hnode, hsame⟩ := expression_rebuilt ht h hs hj hcloses (show 8 * t.operand.length ≤ n + 6 by omega) power
  obtain ⟨x, xs, hxs⟩ := List.exists_cons_of_ne_nil (operand_ne_nil ht)
  have length := hs.length
  rw [hxs] at hs length
  obtain ⟨v, hv, -⟩ := hs.of_cons
  rw [List.length_cons] at length
  refine ⟨node, ?_, hsame⟩
  rw [operandOf, Window.at?_of_getElem? hv (by omega)]
  simpa using hnode

/-- An operand that does not start with a name or a reserved word, or a name. -/
theorem operand_starts (ht : t.Writable) : (∃ p text, t = .leaf p ⟨.name, [(.name, text)]⟩) ∨
    ∃ x xs, t.operand = x :: xs ∧ .name ∉ x.1.classes ∧ .keyword ∉ x.1.classes := by
  cases ht with
  | leaf ha =>
      cases ha with
      | name text => exact .inl ⟨_, _, rfl⟩
      | _ => exact .inr ⟨_, _, rfl, by simp [TokenKind.classes], by simp [TokenKind.classes]⟩
  | _ => exact .inr ⟨_, _, rfl, by decide, by decide⟩

theorem member_rebuilt (ht : t.Writable) (h : Rebuilt tokens t) (hs : Spelled tokens i t.operand j) (hj : j ≤ stop)
    (hcloses : Closes ⟨tokens, stop⟩ j) (hn : 8 * t.operand.length ≤ n + 5) (power : Nat) :
    ∃ node, member n ⟨tokens, stop⟩ i power = .ok (node, j) ∧ Same tokens t node := by
  obtain ⟨n, rfl⟩ : ∃ m, n = m + 1 := by
    have filled := List.length_pos_iff.mpr (operand_ne_nil ht)
    exact ⟨n - 1, by omega⟩
  have length := hs.length
  rcases operand_starts ht with ⟨p, text, rfl⟩ | ⟨x, xs, hxs, hname, hkeyword⟩
  · obtain ⟨v, hv, hlexeme, hend⟩ := hs.of_cons
    obtain rfl := hend.length
    have kind : v.kind = .name := congrArg Prod.fst hlexeme
    refine ⟨.leaf ⟨i, i + 1, v.line⟩ .name, ?_, ?_⟩
    · rw [member, Window.at?_of_getElem? hv (by simp at hj; omega)]
      simp [Scan.isAny_of_kind kind, TokenKind.classes, leaf]
    · simp only [Same, Tree.mapLeaves, Tree.unplaced]
      rw [at_of_spelled (p := ⟨i, i + 1, v.line⟩) (a := ⟨.name, [(.name, text)]⟩) hs]
  · obtain ⟨node, hnode, hsame⟩ := expression_rebuilt ht h hs hj hcloses (show 8 * t.operand.length ≤ n + 6 by omega) power
    rw [hxs] at hs length
    obtain ⟨v, hv, hlexeme, -⟩ := hs.of_cons
    rw [List.length_cons] at length
    have kind : v.kind = x.1 := congrArg Prod.fst hlexeme
    refine ⟨node, ?_, hsame⟩
    rw [member, Window.at?_of_getElem? hv (by omega)]
    simpa [Scan.isAny_of_kind kind, hname, hkeyword] using hnode

/-! ### Operators -/

/-- What a window holds behind an operand is one operator with its other operands. -/
theorem expression_join {u : Token} {op : Operator} {powers : Nat × Nat} {m : Nat} {left joined : Node}
    (hleft : operand (n + 2) ⟨tokens, j⟩ i = .ok (left, m)) (hu : tokens[m]? = some u) (hm : m < j)
    (hop : (if u.is .openParen then some .call else u.op?) = some op) (hpowers : op.infixPower? = some powers)
    (hjoin : join (n + 1) ⟨tokens, j⟩ op u left m powers.2 = .ok (joined, j)) :
    expression (n + 3) ⟨tokens, j⟩ i 0 = .ok (joined, j) := by
  rw [expression, hleft, ok_bind]
  dsimp only
  rw [operators, Window.at?_of_getElem? hu hm]
  simp [hop, hpowers, hjoin, operators_closes (closes_stop j)]

/-- An operator in front of its operand. -/
theorem operand_prefix {w : Window} {u : Token} {op : Operator} {power : Nat} (hu : w.at? i = some u)
    (hkind : u.kind = op.tokenKind) (hpower : op.prefixPower? = some power) :
    operand (n + 1) w i = (do
      let (x, stop) ← operandOf n w u (i + 1) power
      return (.prefixed ⟨i, stop, u.line⟩ op x, stop)) := by
  have tests : (u.isAny [.integer, .real] = false ∧ u.is .simpleString = false ∧ u.is .template = false ∧
      u.is .dollar = false ∧ u.is .openParen = false ∧ u.is .openBracket = false) ∧
      u.keyword? = none ∧ u.op?.map Operator.asPrefix = some op := by
    obtain ⟨kind, text, line⟩ := u
    obtain rfl : kind = op.tokenKind := hkind
    cases op <;> cases hpower <;> exact ⟨⟨rfl, rfl, rfl, rfl, rfl, rfl⟩, rfl, rfl⟩
  obtain ⟨⟨number, simple, template, dollar, paren, bracket⟩, word, signed⟩ := tests
  rw [operand, hu]
  simp only [number, simple, template, dollar, paren, bracket, word, signed, hpower, Bool.false_eq_true, if_false]

theorem rebuilt_prefixed {p : Place} {op : Operator} {x : Tree LeafText} (hop : op.prefixPower?.isSome = true)
    (hx : x.Writable) (h : Rebuilt tokens x) : Rebuilt tokens (.prefixed p op x) := by
  intro i j n hs hn
  rw [Tree.lexemes_prefixed] at hs hn
  obtain ⟨u, hu, hlexeme, hbehind⟩ := hs.of_cons
  obtain ⟨power, hpower⟩ := Option.isSome_iff_exists.mp hop
  have filled := List.length_pos_iff.mpr (operand_ne_nil hx)
  have length := hbehind.length
  rw [List.length_cons] at hn
  obtain ⟨n, rfl⟩ : ∃ m, n = m + 2 := ⟨n - 2, by omega⟩
  obtain ⟨node, hnode, hsame⟩ := operandOf_rebuilt hx h hbehind (Nat.le_refl j) (closes_stop j)
    (show 8 * x.operand.length ≤ n + 5 by omega) u power
  refine ⟨.prefixed ⟨i, j, u.line⟩ op node, ?_, ?_⟩
  · rw [expression, operand_prefix (Window.at?_of_getElem? hu (by omega)) (congrArg Prod.fst hlexeme) hpower, hnode]
    simp [operators_closes (closes_stop j)]
  · simp only [Same, Tree.mapLeaves, Tree.unplaced]
    rw [hsame]

/-- The operator behind an operand. -/
theorem op?_behind {u : Token} {op : Operator} (hkind : u.kind = op.tokenKind) (h : op.infixPower?.isSome = true) :
    (if u.is .openParen then some .call else u.op?) = some op := by
  have paren : u.is .openParen = false := by
    rw [Token.is, hkind]
    cases op <;> rfl
  simpa [paren, Token.op?, hkind] using Operator.op?_tokenKind h

/-- The first operand, with an operator behind it. -/
theorem operand_before {x : Tree LeafText} (hx : x.Writable) (h : Rebuilt tokens x) {y : Lexeme} {ys : List Lexeme}
    (hs : Spelled tokens i (x.operand ++ y :: ys) j) (hy : y.1 ≠ .namespaceMark) (hn : 8 * x.operand.length ≤ n + 7) :
    ∃ left m u, operand n ⟨tokens, j⟩ i = .ok (left, m) ∧ Same tokens x left ∧ tokens[m]? = some u ∧ u.kind = y.1 ∧ m < j ∧
      Spelled tokens (m + 1) ys j := by
  obtain ⟨m, hleft, hbehind⟩ := hs.of_append
  obtain ⟨u, hu, hlexeme, hrest⟩ := hbehind.of_cons
  have kind : u.kind = y.1 := congrArg Prod.fst hlexeme
  have length := hrest.length
  have ends : Ends ⟨tokens, j⟩ m := ends_of_getElem? hu (by rw [kind]; exact hy) (by omega)
  obtain ⟨left, hnode, hsame⟩ := operand_rebuilt hx h hleft (show m ≤ j by omega) ends hn
  exact ⟨left, m, u, hnode, hsame, hu, kind, by omega, hrest⟩

theorem tokenKind_ne (op : Operator) : op.tokenKind ≠ .namespaceMark := by
  cases op <;> exact TokenKind.noConfusion

theorem rebuilt_postfixed {p : Place} {op : Operator} {x : Tree LeafText} (hop : op.isBehind = true)
    (hx : x.Writable) (h : Rebuilt tokens x) : Rebuilt tokens (.postfixed p op x) := by
  intro i j n hs hn
  rw [Tree.lexemes_postfixed] at hs hn
  simp only [List.length_append, List.length_cons, List.length_nil] at hn
  obtain ⟨n, rfl⟩ : ∃ m, n = m + 3 := ⟨n - 3, by omega⟩
  obtain ⟨left, m, u, hleft, hsame, hu, kind, hm, hend⟩ := operand_before (n := n + 2) hx h hs (tokenKind_ne op) (by omega)
  obtain rfl : j = m + 1 := hend.length
  refine ⟨.postfixed ⟨left.place.start, m + 1, u.line⟩ op left, ?_, ?_⟩
  · have powers : op.infixPower? = some (35, 36) := by
      cases op <;> first | rfl | exact Bool.noConfusion hop
    apply expression_join hleft hu hm (op?_behind kind (by simp [powers])) powers
    cases op <;> first | exact Bool.noConfusion hop | rw [join]
  · simp only [Same, Tree.mapLeaves, Tree.unplaced]
    rw [hsame]

/-- An operator that stands between two operands and does not store takes its right one as a member or as an operand. -/
theorem join_between {w : Window} {u : Token} {op : Operator} {left right : Node} {m stop power : Nat}
    (hop : op.isBetween = true) (hright : (if op = .arrow ∨ op = .doubleColon then member n w (m + 1) power
      else operandOf n w u (m + 1) power) = .ok (right, stop)) :
    join (n + 1) w op u left m power = .ok (.binary ⟨left.place.start, stop, u.line⟩ op left right, stop) := by
  cases op using join_cases with
  | call | subscript | incr | decr | ternary => cases hop
  | arrow | doubleColon =>
      rw [join, show member n w (m + 1) power = .ok (right, stop) from hright]
      rfl
  | operand op =>
      have stores : op.isAssignment = false := by
        cases op <;> first | rfl | exact Bool.noConfusion hop
      rw [if_neg (not_or_intro ‹_› ‹_›)] at hright
      rw [join, hright]
      · exact if_neg (Bool.eq_false_iff.mp stores)
      all_goals assumption

theorem join_assign {w : Window} {u : Token} {op : Operator} {left right : Node} {m stop power : Nat}
    (hop : op.isAssignment = true) (hright : operandOf n w u (m + 1) power = .ok (right, stop)) :
    join (n + 1) w op u left m power = .ok (.assign ⟨left.place.start, stop, u.line⟩ op left right, stop) := by
  cases op using join_cases with
  | operand op =>
      rw [join, hright]
      · exact if_pos hop
      all_goals assumption
  | _ => cases hop

theorem rebuilt_binary {p : Place} {op : Operator} {x y : Tree LeafText} (hop : op.isBetween = true)
    (hx : x.Writable) (hy : y.Writable) (h : Rebuilt tokens x) (h' : Rebuilt tokens y) :
    Rebuilt tokens (.binary p op x y) := by
  intro i j n hs hn
  rw [Tree.lexemes_binary] at hs hn
  simp only [List.length_append, List.length_cons] at hn
  obtain ⟨n, rfl⟩ : ∃ m, n = m + 3 := ⟨n - 3, by omega⟩
  obtain ⟨left, m, u, hleft, hsame, hu, kind, hm, hright⟩ := operand_before (n := n + 2) hx h hs (tokenKind_ne op) (by omega)
  have infixed : op.infixPower?.isSome = true := by
    cases op <;> first | exact Bool.noConfusion hop | rfl
  obtain ⟨powers, hpowers⟩ := Option.isSome_iff_exists.mp infixed
  obtain ⟨right, hnode, hsame'⟩ : ∃ right, (if op = .arrow ∨ op = .doubleColon then member n ⟨tokens, j⟩ (m + 1) powers.2
      else operandOf n ⟨tokens, j⟩ u (m + 1) powers.2) = .ok (right, j) ∧ Same tokens y right := by
    split
    · exact member_rebuilt hy h' hright (Nat.le_refl j) (closes_stop j) (by omega) _
    · exact operandOf_rebuilt hy h' hright (Nat.le_refl j) (closes_stop j) (by omega) _ _
  refine ⟨.binary ⟨left.place.start, j, u.line⟩ op left right, ?_, ?_⟩
  · apply expression_join hleft hu hm (op?_behind kind infixed) hpowers
    exact join_between hop hnode
  · simp only [Same, Tree.mapLeaves, Tree.unplaced]
    rw [hsame, hsame']

theorem rebuilt_assign {p : Place} {op : Operator} {x y : Tree LeafText} (hop : op.isAssignment = true)
    (hx : x.Writable) (hy : y.Writable) (h : Rebuilt tokens x) (h' : Rebuilt tokens y) :
    Rebuilt tokens (.assign p op x y) := by
  intro i j n hs hn
  rw [Tree.lexemes_assign] at hs hn
  simp only [List.length_append, List.length_cons] at hn
  obtain ⟨n, rfl⟩ : ∃ m, n = m + 3 := ⟨n - 3, by omega⟩
  obtain ⟨left, m, u, hleft, hsame, hu, kind, hm, hright⟩ := operand_before (n := n + 2) hx h hs (tokenKind_ne op) (by omega)
  have powers : op.infixPower? = some (4, 3) := by
    cases op <;> first | rfl | exact Bool.noConfusion hop
  obtain ⟨right, hnode, hsame'⟩ := operandOf_rebuilt hy h' hright (Nat.le_refl j) (closes_stop j)
    (show 8 * y.operand.length ≤ n + 5 by omega) u 3
  refine ⟨.assign ⟨left.place.start, j, u.line⟩ op left right, ?_, ?_⟩
  · apply expression_join hleft hu hm (op?_behind kind (by simp [powers])) powers
    exact join_assign hop hnode
  · simp only [Same, Tree.mapLeaves, Tree.unplaced]
    rw [hsame, hsame']

theorem rebuilt_ternary {p : Place} {c x y : Tree LeafText} (hc : c.Writable) (hx : x.Writable) (hy : y.Writable)
    (h : Rebuilt tokens c) (h' : Rebuilt tokens x) (h'' : Rebuilt tokens y) : Rebuilt tokens (.ternary p c x y) := by
  intro i j n hs hn
  rw [Tree.lexemes_ternary] at hs hn
  simp only [List.length_append, List.length_cons] at hn
  obtain ⟨n, rfl⟩ : ∃ m, n = m + 3 := ⟨n - 3, by omega⟩
  obtain ⟨left, m, u, hleft, hsame, hu, kind, hm, hbehind⟩ :=
    operand_before (n := n + 2) hc h hs (tokenKind_ne .ternary) (by omega)
  obtain ⟨k, hyes, hrest⟩ := hbehind.of_append
  obtain ⟨v, hv, hlexeme, hno⟩ := hrest.of_cons
  have colon : v.kind = .colon := congrArg Prod.fst hlexeme
  have length := hno.length
  have mark : (⟨tokens, j⟩ : Window).at? k = some v := Window.at?_of_getElem? hv (by omega)
  have closes : Closes ⟨tokens, j⟩ k := by
    intro t ht
    obtain rfl : v = t := Option.some.inj (mark.symm.trans ht)
    exact colon
  obtain ⟨yes, hyesnode, hsame'⟩ := operandOf_rebuilt hx h' hyes (show k ≤ j by omega) closes
    (show 8 * x.operand.length ≤ n + 5 by omega) u 0
  obtain ⟨no, hnonode, hsame''⟩ := operandOf_rebuilt hy h'' hno (Nat.le_refl j) (closes_stop j)
    (show 8 * y.operand.length ≤ n + 5 by omega) v 5
  refine ⟨.ternary ⟨left.place.start, j, u.line⟩ left yes no, ?_, ?_⟩
  · have operator : (if u.is .openParen then some .call else u.op?) = some .ternary := op?_behind kind rfl
    apply expression_join hleft hu hm operator rfl
    simp [join, hyesnode, mark, Token.is, colon, TokenKind.classes, hnonode]
  · simp only [Same, Tree.mapLeaves, Tree.unplaced]
    rw [hsame, hsame', hsame'']

/-! ### Windows inside brackets -/

/-- An operand that is all of a window. -/
theorem enclosed_operand (ht : t.Writable) (h : Rebuilt tokens t) (hs : Spelled tokens i t.operand j)
    (hn : 8 * t.operand.length ≤ n + 5) : ∃ node, enclosed n ⟨tokens, j⟩ i = .ok (some node) ∧ Same tokens t node := by
  have filled := List.length_pos_iff.mpr (operand_ne_nil ht)
  obtain ⟨n, rfl⟩ : ∃ m, n = m + 1 := ⟨n - 1, by omega⟩
  have length := hs.length
  obtain ⟨node, hnode, hsame⟩ := expression_rebuilt ht h hs (Nat.le_refl j) (closes_stop j) (show _ ≤ n + 6 by omega) 0
  refine ⟨node, ?_, hsame⟩
  rw [enclosed, if_neg (by dsimp only; omega), hnode]
  simp

theorem op?_bracket {u : Token} (hkind : u.kind = .openBracket) :
    (if u.is .openParen then some .call else u.op?) = some .subscript := by
  simp [Token.is, Token.op?, hkind, TokenKind.classes, TokenKind.op?]

theorem rebuilt_index {p : Place} {x y : Tree LeafText} (hx : x.Writable) (hy : y.Writable)
    (h : Rebuilt tokens x) (h' : Rebuilt tokens y) : Rebuilt tokens (.index p x y) := by
  intro i j n hs hn
  rw [Tree.lexemes_index] at hs hn
  simp only [List.length_append, List.length_cons] at hn
  obtain ⟨n, rfl⟩ : ∃ m, n = m + 3 := ⟨n - 3, by omega⟩
  obtain ⟨left, m, u, hleft, hsame, hu, kind, hm, hbehind⟩ :=
    operand_before (n := n + 2) hx h hs (by simp [Lexeme.openBracket]) (by omega)
  obtain ⟨k, hinside, hclose⟩ := hbehind.of_append
  obtain ⟨v, hv, hlexeme, hend⟩ := hclose.of_cons
  obtain rfl : j = k + 1 := hend.length
  have closing (e : TreeError) := Window.closing_nested .square hy.nested.enclose hinside hv
    (congrArg Prod.fst hlexeme) (Nat.lt_succ_self k) e
  obtain ⟨key, hkey, hsame'⟩ := enclosed_operand hy h' hinside (show _ ≤ n + 5 by omega)
  refine ⟨.index ⟨left.place.start, k + 1, u.line⟩ left key, ?_, ?_⟩
  · apply expression_join hleft hu hm (op?_bracket kind) rfl
    simp [join, closing, hkey]
  · simp only [Same, Tree.mapLeaves, Tree.unplaced]
    rw [hsame, hsame']

theorem rebuilt_append {p : Place} {x : Tree LeafText} (hx : x.Writable) (h : Rebuilt tokens x) :
    Rebuilt tokens (.append p x) := by
  intro i j n hs hn
  rw [Tree.lexemes_append] at hs hn
  simp only [List.length_append, List.length_cons, List.length_nil] at hn
  obtain ⟨n, rfl⟩ : ∃ m, n = m + 4 := ⟨n - 4, by omega⟩
  obtain ⟨left, m, u, hleft, hsame, hu, kind, hm, hclose⟩ :=
    operand_before (n := n + 3) hx h hs (by simp [Lexeme.openBracket]) (by omega)
  obtain ⟨v, hv, hlexeme, hend⟩ := hclose.of_cons
  obtain rfl : j = m + 2 := hend.length
  have closing (e : TreeError) := Window.closing_nested .square .nil (.nil (m + 1)) hv
    (congrArg Prod.fst hlexeme) (Nat.lt_succ_self (m + 1)) e
  have empty : enclosed (n + 1) ⟨tokens, m + 1⟩ (m + 1) = .ok none := by simp [enclosed]
  refine ⟨.append ⟨left.place.start, m + 2, u.line⟩ left, ?_, ?_⟩
  · apply expression_join hleft hu hm (op?_bracket kind) rfl
    simp [join, closing, empty]
  · simp only [Same, Tree.mapLeaves, Tree.unplaced]
    rw [hsame]

/-! ### Calls -/

theorem solid_simple {a : LeafText} (ha : a.Simple) : Scan.Solid a.lexemes := by
  cases ha with
  | @var kind hkind text =>
      have word : kind.isBracket = false ∧ kind ≠ .comma := by
        cases kind <;> simp [TokenKind.classes] at hkind <;> simp [TokenKind.isBracket]
      exact .plain (by simpa [TokenKind.isBracket] using word) (by simp)
  | _ => exact .plain (by simp [TokenKind.isBracket]) (by simp)

theorem solid_operand (ht : t.Writable) : Scan.Solid t.operand := by
  unfold Tree.operand Tree.enclose
  split
  · rename_i hleaf
    cases ht with
    | leaf ha => exact solid_simple ha
    | _ => simp [Tree.isLeaf] at hleaf
  · exact .group ht.nested

/-- The trees that were built are those that were written. -/
def AllSame (tokens : Array Token) (ts : List (Tree LeafText)) (nodes : List Node) : Prop :=
  Tree.allUnplaced (Tree.mapAllLeaves (LeafText.at tokens) nodes) = Tree.allUnplaced ts

theorem length_intercalate_cons (xs : List Lexeme) (rest : List (List Lexeme)) :
    xs.length + ([Lexeme.comma].intercalate rest).length ≤ ([Lexeme.comma].intercalate (xs :: rest)).length := by
  cases rest with
  | nil => simp
  | cons ys rest =>
      rw [List.intercalate_cons_cons]
      simp only [List.length_append, List.length_cons]
      omega

theorem arguments_rebuilt {xs : List (Tree LeafText)} (hxs : ∀ x ∈ xs, x.Writable ∧ Rebuilt tokens x)
    {ranges : List (Nat × Nat)} (hranges : List.Forall₂ (fun ys range => Spelled tokens range.1 ys range.2)
      (xs.map Tree.operand) ranges) (hn : 8 * ([Lexeme.comma].intercalate (xs.map Tree.operand)).length + 1 ≤ n)
    (line : Nat) : ∃ nodes, arguments n tokens line ranges = .ok nodes ∧ AllSame tokens xs nodes := by
  induction xs generalizing n ranges with
  | nil =>
      cases hranges
      obtain ⟨n, rfl⟩ : ∃ m, n = m + 1 := ⟨n - 1, by omega⟩
      exact ⟨[], by simp [arguments], rfl⟩
  | cons x xs ih =>
      obtain ⟨range, ranges, rfl⟩ : ∃ r rs, ranges = r :: rs := by
        cases hranges
        exact ⟨_, _, rfl⟩
      obtain ⟨hfirst, hrest⟩ := List.forall₂_cons.mp hranges
      obtain ⟨hx, h⟩ := hxs x (List.mem_cons_self ..)
      have filled := List.length_pos_iff.mpr (operand_ne_nil hx)
      have length := length_intercalate_cons x.operand (xs.map Tree.operand)
      rw [List.map_cons] at hn
      obtain ⟨n, rfl⟩ : ∃ m, n = m + 1 := ⟨n - 1, by omega⟩
      obtain ⟨node, hnode, hsame⟩ := enclosed_operand hx h hfirst (show _ ≤ n + 5 by omega)
      obtain ⟨nodes, hnodes, hsame'⟩ := ih (fun y hy => hxs y (List.mem_cons_of_mem x hy)) hrest (show _ ≤ n by omega)
      refine ⟨node :: nodes, ?_, ?_⟩
      · rw [arguments, hnode]
        simp [hnodes]
      · simp only [AllSame, Tree.mapAllLeaves, Tree.allUnplaced]
        rw [hsame, hsame']

theorem rebuilt_call {p : Place} {g : Tree LeafText} {xs : List (Tree LeafText)} (hg : g.Writable) (h : Rebuilt tokens g)
    (hxs : ∀ x ∈ xs, x.Writable ∧ Rebuilt tokens x) (hnested : Nested ([Lexeme.comma].intercalate (xs.map Tree.operand))) :
    Rebuilt tokens (.call p g xs) := by
  intro i j n hs hn
  rw [Tree.lexemes_call] at hs hn
  simp only [List.length_append, List.length_cons] at hn
  obtain ⟨n, rfl⟩ : ∃ m, n = m + 3 := ⟨n - 3, by omega⟩
  obtain ⟨left, m, u, hleft, hsame, hu, kind, hm, hbehind⟩ :=
    operand_before (n := n + 2) hg h hs (by simp [Lexeme.openParen]) (by omega)
  obtain ⟨k, hinside, hclose⟩ := hbehind.of_append
  obtain ⟨v, hv, hlexeme, hend⟩ := hclose.of_cons
  obtain rfl : j = k + 1 := hend.length
  have closing (e : TreeError) := Window.closing_nested .round hnested hinside hv
    (congrArg Prod.fst hlexeme) (Nat.lt_succ_self k) e
  have solid : ∀ ys ∈ xs.map Tree.operand, Scan.Solid ys := by
    intro ys hys
    obtain ⟨x, hx, rfl⟩ := List.mem_map.mp hys
    exact solid_operand (hxs x hx).1
  obtain ⟨args, hargs, hsame'⟩ := arguments_rebuilt hxs (Scan.splitCommas_spelled solid hinside)
    (show _ ≤ n by omega) u.line
  refine ⟨.call ⟨left.place.start, k + 1, u.line⟩ left args, ?_, ?_⟩
  · have operator : (if u.is .openParen then some .call else u.op?) = some .call := by
      have paren : u.kind = .openParen := kind
      simp [Token.is, paren, TokenKind.classes]
    apply expression_join hleft hu hm operator rfl
    simp [join, closing, hargs]
  · simp only [Same, Tree.mapLeaves, Tree.unplaced]
    rw [hsame, hsame']

/-! ### Trees -/

theorem rebuilt_leaf {p : Place} {a : LeafText} (ha : a.Simple) : Rebuilt tokens (.leaf p a) := by
  intro i j n hs hn
  have filled : 0 < a.lexemes.length := List.length_pos_iff.mpr (solid_simple ha).ne_nil
  rw [Tree.lexemes] at hs hn
  obtain ⟨n, rfl⟩ : ∃ m, n = m + 2 := ⟨n - 2, by omega⟩
  obtain ⟨line, hnode⟩ := operand_simple ha hs (Nat.le_refl j) (ends_stop j) n
  refine ⟨.leaf ⟨i, j, line⟩ a.kind, ?_, ?_⟩
  · rw [expression, hnode]
    simp [operators_closes (closes_stop j)]
  · simp only [Same, Tree.mapLeaves, Tree.unplaced]
    rw [at_of_spelled (p := ⟨i, j, line⟩) hs]

mutual

/-- Every tree is built from what it is written as. -/
theorem rebuilt : {t : Tree LeafText} → t.Writable → Rebuilt tokens t
  | _, .leaf ha => rebuilt_leaf ha
  | _, .prefixed hop hx => rebuilt_prefixed hop hx (rebuilt hx)
  | _, .postfixed hop hx => rebuilt_postfixed hop hx (rebuilt hx)
  | _, .binary hop hx hy => rebuilt_binary hop hx hy (rebuilt hx) (rebuilt hy)
  | _, .assign hop hx hy => rebuilt_assign hop hx hy (rebuilt hx) (rebuilt hy)
  | _, .ternary hc hx hy => rebuilt_ternary hc hx hy (rebuilt hc) (rebuilt hx) (rebuilt hy)
  | _, .call hg hxs => rebuilt_call hg (rebuilt hg) (allRebuilt hxs) (by simpa [Tree.allLexemes_eq_map] using hxs.nested)
  | _, .index hx hy => rebuilt_index hx hy (rebuilt hx) (rebuilt hy)
  | _, .append hx => rebuilt_append hx (rebuilt hx)

theorem allRebuilt : {xs : List (Tree LeafText)} → Tree.AllWritable xs → ∀ x ∈ xs, x.Writable ∧ Rebuilt tokens x
  | _, .nil => by simp
  | _, .cons hx hxs => by
    intro y hy
    rcases List.mem_cons.mp hy with hfirst | hrest
    · rw [hfirst]
      exact ⟨hx, rebuilt hx⟩
    · exact allRebuilt hxs y hrest

end

end Builder

/-- Building undoes writing: the tokens that a tree is written as, on whatever lines, are built into the tree again, with
other places only.  Assignments keep their target and their value apart, and operators in front of an operand and
behind it are different nodes. -/
theorem Node.build_lexemes {t : Tree LeafText} (ht : t.Writable) {tokens : Array Token}
    (htokens : tokens.toList.map Token.lexeme = t.lexemes) :
    ∃ node, Node.build tokens 0 tokens.size = .ok (some node) ∧
      (node.mapLeaves (LeafText.at tokens)).unplaced = t.unplaced := by
  have spelled := Spelled.whole tokens
  rw [htokens] at spelled
  have length := spelled.length
  obtain ⟨node, hnode, hsame⟩ := Builder.enclosed_rebuilt ht (Builder.rebuilt ht) spelled (show _ ≤ 8 * tokens.size + 8 by omega)
  refine ⟨node, ?_, hsame⟩
  unfold Node.build
  simpa using hnode

/-- A sign in front of a call, on two lines. -/
theorem Node.build_lexemes_neg_call :
    ∃ node, Node.build #[⟨.operator .sub, "-", 1⟩, ⟨.openParen, "(", 1⟩, ⟨.name, "f", 1⟩, ⟨.openParen, "(", 1⟩,
        ⟨.integer, "7", 2⟩, ⟨.closeParen, ")", 2⟩, ⟨.closeParen, ")", 2⟩] 0 7 = .ok (some node) ∧
      (node.mapLeaves (LeafText.at #[⟨.operator .sub, "-", 1⟩, ⟨.openParen, "(", 1⟩, ⟨.name, "f", 1⟩,
        ⟨.openParen, "(", 1⟩, ⟨.integer, "7", 2⟩, ⟨.closeParen, ")", 2⟩, ⟨.closeParen, ")", 2⟩])).unplaced =
        .prefixed default .neg (.call default (.leaf default ⟨.name, [(.name, "f")]⟩)
          [.leaf default ⟨.number, [(.integer, "7")]⟩]) := by
  have writable : Tree.Writable (.prefixed default .neg (.call default (.leaf default ⟨.name, [(.name, "f")]⟩)
      [.leaf default ⟨.number, [(.integer, "7")]⟩])) :=
    .prefixed rfl (.call (.leaf (.name "f")) (.cons (.leaf (.integer "7")) .nil))
  exact Node.build_lexemes writable (by decide)

end StackScript
