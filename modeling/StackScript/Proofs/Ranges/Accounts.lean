/-
What the places of a tree account for.

A node consists of its operands and of tokens of its own, its signs; `elements` lists both in the order of the
source.  Over a range of tokens that a tree covers every token is accounted for once: it is held by one leaf, or it
is a sign of one node, or it is one of two parentheses around a node.

Two things carry this from the operands to the node.  A `Row` lays the elements behind each other without a gap, so
that `Accounted` adds up along it; and the signs, which along the row belong to nobody yet, become those of the node.
-/
import StackScript.Proofs.Ranges.Brackets
import StackScript.Tree

namespace StackScript

/-! ### Elements -/

/-- A token of a node's own. -/
inductive Sign where
  /-- An operator in front of its operand. -/
  | before (op : Operator)
  /-- An operator behind its first operand.  The opening bracket of a call or a subscript is one. -/
  | behind (op : Operator)
  /-- A comma, a colon or a closing bracket. -/
  | mark (c : TokenClass)

/-- Whether a token may be the sign. -/
def Sign.fits : Sign → Token → Bool
  | before op, t => t.op?.map Operator.asPrefix == some op
  | behind op, t => (if t.is .openParen then some .call else t.op?) == some op
  | mark c, t => t.is c

/-- What a node consists of. -/
inductive Element (α : Type) where
  | sign (s : Sign)
  | operand (t : Tree α)

/-- The operands among some elements. -/
def operands {α : Type} : List (Element α) → List (Tree α)
  | [] => []
  | .sign _ :: es => operands es
  | .operand t :: es => t :: operands es

theorem operands_append {α : Type} (es fs : List (Element α)) : operands (es ++ fs) = operands es ++ operands fs := by
  induction es with
  | nil => rfl
  | cons e es ih => cases e <;> simp [operands, ih]

namespace Tree

variable {α : Type}

/-- The operands of a node in the order of the source. -/
def children : Tree α → List (Tree α)
  | leaf _ _ => []
  | prefixed _ _ x => [x]
  | postfixed _ _ x => [x]
  | binary _ _ x y => [x, y]
  | assign _ _ target value => [target, value]
  | ternary _ c x y => [c, x, y]
  | call _ g xs => g :: xs
  | index _ x y => [x, y]
  | append _ x => [x]

/-- The arguments of a call with the commas between them. -/
def separated (xs : List (Tree α)) : List (Element α) :=
  (xs.map Element.operand).intersperse (.sign (.mark .comma))

/-- What a node consists of, in the order of the source. -/
def elements : Tree α → List (Element α)
  | leaf _ _ => []
  | prefixed _ op x => [.sign (.before op), .operand x]
  | postfixed _ op x => [.operand x, .sign (.behind op)]
  | binary _ op x y => [.operand x, .sign (.behind op), .operand y]
  | assign _ op target value => [.operand target, .sign (.behind op), .operand value]
  | ternary _ c x y => [.operand c, .sign (.behind .ternary), .operand x, .sign (.mark .colon), .operand y]
  | call _ g xs => .operand g :: .sign (.behind .call) :: (separated xs ++ [.sign (.mark .closeParen)])
  | index _ x y => [.operand x, .sign (.behind .subscript), .operand y, .sign (.mark .closeBracket)]
  | append _ x => [.operand x, .sign (.behind .subscript), .sign (.mark .closeBracket)]

theorem separated_cons_cons (x y : Tree α) (xs : List (Tree α)) :
    separated (x :: y :: xs) = .operand x :: .sign (.mark .comma) :: separated (y :: xs) := rfl

theorem operands_separated (xs : List (Tree α)) : operands (separated xs) = xs := by
  induction xs with
  | nil => rfl
  | cons x xs ih =>
      cases xs with
      | nil => rfl
      | cons y ys => rw [separated_cons_cons, operands, operands, ih]

theorem operands_elements (t : Tree α) : operands t.elements = t.children := by
  cases t <;> simp [elements, children, operands, operands_append, operands_separated]

theorem elements_ne_nil {t : Tree α} (h : t.op?.isSome = true) : t.elements ≠ [] := by
  cases t with
  | leaf => cases h
  | _ => simp [elements]

mutual

/-- The nodes of a tree, each before its operands. -/
def nodes : Tree α → List (Tree α)
  | leaf p a => [leaf p a]
  | prefixed p op x => prefixed p op x :: x.nodes
  | postfixed p op x => postfixed p op x :: x.nodes
  | binary p op x y => binary p op x y :: (x.nodes ++ y.nodes)
  | assign p op x y => assign p op x y :: (x.nodes ++ y.nodes)
  | ternary p c x y => ternary p c x y :: (c.nodes ++ (x.nodes ++ y.nodes))
  | call p g xs => call p g xs :: (g.nodes ++ allNodes xs)
  | index p x y => index p x y :: (x.nodes ++ y.nodes)
  | append p x => append p x :: x.nodes

/-- The nodes of the arguments of a call. -/
def allNodes : List (Tree α) → List (Tree α)
  | [] => []
  | t :: ts => t.nodes ++ allNodes ts

end

theorem allNodes_eq (ts : List (Tree α)) : allNodes ts = ts.flatMap nodes := by
  induction ts with
  | nil => rfl
  | cons t ts ih => rw [allNodes, ih, List.flatMap_cons]

theorem nodes_eq (t : Tree α) : t.nodes = t :: t.children.flatMap nodes := by
  cases t <;> simp [nodes, children, allNodes_eq]

/-- Whether the node is a leaf that covers the token. -/
def holds (k : Nat) : Tree α → Bool
  | leaf p _ => decide (p.start ≤ k ∧ k < p.stop)
  | _ => false

theorem holds_of_op? {t : Tree α} (h : t.op?.isSome = true) (k : Nat) : t.holds k = false := by
  cases t <;> first | rfl | cases h

end Tree

/-! ### The ends of leaves -/

/-- A function that starts at `start`: its word, the parentheses around its signature, and the brace at `body` that
opens its body. -/
structure ClosureHead (tokens : Array Token) (start word opening close body : Nat) : Prop where
  /-- Before the word a type may stand. -/
  behind : start ≤ word
  first : ∀ k, start ≤ k → k < word → tokens[k]?.any (·.isKeyword .function) = false
  function : tokens[word]?.any (·.isKeyword .function) = true
  /-- Behind the word a name may stand. -/
  name : opening = word + 1 ∨ opening = word + 2 ∧ tokens[word + 1]?.any (·.is .name) = true
  signature : Scan.Matches tokens .round opening close
  captures : body = close + 1 ∨ tokens[close + 1]?.any (·.isKeyword .using_) = true ∧
    (body = close + 2 ∨ ∃ last, Scan.Matches tokens .round (close + 2) last ∧ body = last + 1)

/-- The last token of an array, a list or a function matches the bracket that its elements or its body begin with. -/
def LeafKind.Ends (tokens : Array Token) (p : Place) : LeafKind → Prop
  | .array => Scan.Matches tokens .square p.start (p.stop - 1) ∨
      tokens[p.start]?.any (·.isKeyword .array) = true ∧ Scan.Matches tokens .round (p.start + 1) (p.stop - 1)
  | .list => tokens[p.start]?.any (·.isKeyword .list) = true ∧ Scan.Matches tokens .round (p.start + 1) (p.stop - 1)
  | .closure => ∃ word opening close body, ClosureHead tokens p.start word opening close body ∧
      Scan.Matches tokens .curly body (p.stop - 1)
  | _ => True

/-! ### The places of the elements -/

/-- The elements stand behind each other in `[low, high)`: the operands at their places, the signs at the given
ones. -/
inductive Placed (tokens : Array Token) : Nat → List (Element LeafKind) → List Nat → Nat → Prop
  | nil {low high : Nat} (h : low ≤ high) : Placed tokens low [] [] high
  | sign {low i high : Nat} {s : Sign} {t : Token} {es : List (Element LeafKind)} {is : List Nat} (hlow : low ≤ i)
      (ht : tokens[i]? = some t) (hs : s.fits t = true) (h : Placed tokens (i + 1) es is high) :
      Placed tokens low (.sign s :: es) (i :: is) high
  | operand {low high : Nat} {x : Node} {es : List (Element LeafKind)} {is : List Nat} (hlow : low ≤ x.place.start)
      (hfilled : x.place.start < x.place.stop) (h : Placed tokens x.place.stop es is high) :
      Placed tokens low (.operand x :: es) is high

namespace Placed

variable {tokens : Array Token} {low high : Nat} {es : List (Element LeafKind)} {is : List Nat}

theorem le (h : Placed tokens low es is high) : low ≤ high := by
  induction h with
  | nil h => exact h
  | sign hlow _ _ _ ih => omega
  | operand hlow hfilled _ ih => omega

theorem lt (h : Placed tokens low es is high) (hes : es ≠ []) : low < high := by
  cases h with
  | nil => exact absurd rfl hes
  | sign hlow _ _ h =>
      have := h.le
      omega
  | operand hlow hfilled h =>
      have := h.le
      omega

theorem within (h : Placed tokens low es is high) :
    ∀ x ∈ operands es, low ≤ x.place.start ∧ x.place.stop ≤ high := by
  induction h with
  | nil => nofun
  | sign hlow _ _ _ ih =>
      intro x hx
      have := ih x hx
      omega
  | @operand low high x es is hlow hfilled h ih =>
      have := h.le
      intro y hy
      rcases List.mem_cons.mp hy with rfl | hy
      · omega
      · have := ih y hy
        omega

theorem ordered (h : Placed tokens low es is high) :
    (operands es).Pairwise fun x y => x.place.stop ≤ y.place.start := by
  induction h with
  | nil => exact .nil
  | sign _ _ _ _ ih => exact ih
  | operand _ _ h ih => exact .cons (fun y hy => (h.within y hy).1) ih

end Placed

/-- A node's signs are at these places. -/
def Node.Signed (tokens : Array Token) (x : Node) (is : List Nat) : Prop :=
  Placed tokens x.place.start x.elements is x.place.stop

/-! ### Tokens that are accounted for -/

/-- In how many ways a token is accounted for: by leaves, as a sign, and as a parenthesis of a group. -/
def shares (nodes : List Node) (signs : List (Node × List Nat)) (groups : List (Nat × Nat)) (k : Nat) : Nat :=
  nodes.countP (·.holds k) + (signs.flatMap Prod.snd).count k + (groups.flatMap fun g => [g.1, g.2]).count k

theorem shares_append (ns ms : List Node) (signs signs' : List (Node × List Nat)) (groups groups' : List (Nat × Nat))
    (k : Nat) :
    shares (ns ++ ms) (signs ++ signs') (groups ++ groups') k = shares ns signs groups k + shares ms signs' groups' k := by
  simp only [shares, List.countP_append, List.flatMap_append, List.count_append]
  omega

/-- Signs of the nodes and groups around them, by which every token of `[i, j)` is accounted for once, but for the
tokens at `own`. -/
structure Owned (tokens : Array Token) (i j : Nat) (nodes : List Node) (own : List Nat)
    (signs : List (Node × List Nat)) (groups : List (Nat × Nat)) : Prop where
  listed : signs.map Prod.fst = nodes.filter (·.op?.isSome)
  signed : ∀ e ∈ signs, e.1.Signed tokens e.2
  grouped : ∀ g ∈ groups, Scan.Matches tokens .round g.1 g.2 ∧
    ∃ x ∈ nodes, g.1 < x.place.start ∧ x.place.stop ≤ g.2
  once : ∀ k, shares nodes signs groups k + own.count k = if i ≤ k ∧ k < j then 1 else 0

/-- The nodes and the tokens at `own` account for `[i, j)`. -/
structure Accounted (tokens : Array Token) (i j : Nat) (nodes : List Node) (own : List Nat) : Prop where
  le : i ≤ j
  leaves : ∀ p kind, .leaf p kind ∈ nodes → i ≤ p.start ∧ p.start < p.stop ∧ p.stop ≤ j ∧ kind.Ends tokens p
  owned : ∃ signs groups, Owned tokens i j nodes own signs groups

namespace Accounted

variable {tokens : Array Token} {i j k : Nat} {ns ms : List Node} {is js : List Nat}

theorem nil (tokens : Array Token) (i : Nat) : Accounted tokens i i [] [] where
  le := Nat.le_refl i
  leaves := by simp
  owned := ⟨[], [], rfl, by simp, by simp, fun k => by simp [shares]⟩

theorem sign (tokens : Array Token) (i : Nat) : Accounted tokens i (i + 1) [] [i] where
  le := Nat.le_succ i
  leaves := by simp
  owned := ⟨[], [], rfl, by simp, by simp, fun k => by
    simp [shares, List.count_singleton]
    split <;> split <;> omega⟩

theorem leaf {p : Place} {kind : LeafKind} (hfilled : p.start < p.stop) (hends : kind.Ends tokens p) :
    Accounted tokens p.start p.stop [.leaf p kind] [] where
  le := Nat.le_of_lt hfilled
  leaves := by
    intro p' kind' h
    simp only [List.mem_singleton, Tree.leaf.injEq] at h
    obtain ⟨rfl, rfl⟩ := h
    exact ⟨Nat.le_refl _, hfilled, Nat.le_refl _, hends⟩
  owned := ⟨[], [], by simp [Tree.op?], by simp, by simp, fun k => by simp [shares, Tree.holds, List.countP_cons]⟩

theorem append (h : Accounted tokens i k ns is) (h' : Accounted tokens k j ms js) :
    Accounted tokens i j (ns ++ ms) (is ++ js) where
  le := Nat.le_trans h.le h'.le
  leaves p kind hp := by
    have hik := h.le
    have hkj := h'.le
    rcases List.mem_append.mp hp with hp | hp
    · obtain ⟨hlow, hfilled, hhigh, hends⟩ := h.leaves p kind hp
      exact ⟨hlow, hfilled, by omega, hends⟩
    · obtain ⟨hlow, hfilled, hhigh, hends⟩ := h'.leaves p kind hp
      exact ⟨by omega, hfilled, hhigh, hends⟩
  owned := by
    obtain ⟨signs, groups, o⟩ := h.owned
    obtain ⟨signs', groups', o'⟩ := h'.owned
    refine ⟨signs ++ signs', groups ++ groups', ⟨?_, ?_, ?_, fun m => ?_⟩⟩
    · rw [List.map_append, List.filter_append, o.listed, o'.listed]
    · intro e he
      exact (List.mem_append.mp he).elim (o.signed e) (o'.signed e)
    · intro g hg
      rcases List.mem_append.mp hg with hg | hg
      · obtain ⟨hmatches, x, hx, hinside⟩ := o.grouped g hg
        exact ⟨hmatches, x, List.mem_append_left _ hx, hinside⟩
      · obtain ⟨hmatches, x, hx, hinside⟩ := o'.grouped g hg
        exact ⟨hmatches, x, List.mem_append_right _ hx, hinside⟩
    · have hik := h.le
      have hkj := h'.le
      have hm := o.once m
      have hm' := o'.once m
      rw [shares_append, List.count_append]
      split at hm <;> split at hm' <;> split <;> omega

/-- The signs among the operands of a node become those of the node. -/
theorem node {x : Node} (hop : x.op?.isSome = true) (hsigned : x.Signed tokens is)
    (h : Accounted tokens i j ns is) : Accounted tokens i j (x :: ns) [] where
  le := h.le
  leaves p kind hp := by
    rcases List.mem_cons.mp hp with rfl | hp
    · cases hop
    · exact h.leaves p kind hp
  owned := by
    obtain ⟨signs, groups, o⟩ := h.owned
    refine ⟨(x, is) :: signs, groups, ⟨?_, ?_, ?_, fun k => ?_⟩⟩
    · rw [List.map_cons, List.filter_cons, if_pos hop, o.listed]
    · exact List.forall_mem_cons.mpr ⟨hsigned, o.signed⟩
    · intro g hg
      obtain ⟨hmatches, y, hy, hinside⟩ := o.grouped g hg
      exact ⟨hmatches, y, List.mem_cons_of_mem _ hy, hinside⟩
    · have hk := o.once k
      simp only [shares, List.countP_cons, Tree.holds_of_op? hop, List.flatMap_cons, List.count_append,
        List.count_nil] at hk ⊢
      simp only [Bool.false_eq_true, if_false]
      omega

/-- Parentheses around a node of its tree are accounted for as a group. -/
theorem group {x : Node} (hx : x ∈ ns) (hstart : i < x.place.start) (hstop : x.place.stop ≤ j)
    (hmatches : Scan.Matches tokens .round i j) (h : Accounted tokens (i + 1) j ns []) :
    Accounted tokens i (j + 1) ns [] where
  le := by
    have := h.le
    omega
  leaves p kind hp := by
    obtain ⟨hlow, hfilled, hhigh, hends⟩ := h.leaves p kind hp
    exact ⟨by omega, hfilled, by omega, hends⟩
  owned := by
    obtain ⟨signs, groups, o⟩ := h.owned
    refine ⟨signs, (i, j) :: groups, ⟨o.listed, o.signed, ?_, fun k => ?_⟩⟩
    · exact List.forall_mem_cons.mpr ⟨⟨hmatches, x, hx, hstart, hstop⟩, o.grouped⟩
    · have hle := h.le
      have hk := o.once k
      simp only [shares, List.flatMap_cons, List.count_append, List.count_cons, List.count_nil, beq_iff_eq] at hk ⊢
      split at hk <;> split <;> split <;> split <;> omega

end Accounted

/-! ### Trees that cover a range -/

/-- A tree, with the parentheses around it, covers the tokens `[i, j)`. -/
structure Node.Covers (tokens : Array Token) (i j : Nat) (t : Node) : Prop where
  start : i ≤ t.place.start
  filled : t.place.start < t.place.stop
  stop : t.place.stop ≤ j
  accounted : Accounted tokens i j t.nodes []

/-- The elements cover the tokens `[i, j)` behind each other, with signs at the given places. -/
inductive Row (tokens : Array Token) : Nat → List (Element LeafKind) → List Nat → Nat → Prop
  | nil (i : Nat) : Row tokens i [] [] i
  | sign {i j : Nat} {s : Sign} {t : Token} {es : List (Element LeafKind)} {is : List Nat} (ht : tokens[i]? = some t)
      (hs : s.fits t = true) (h : Row tokens (i + 1) es is j) : Row tokens i (.sign s :: es) (i :: is) j
  | operand {i k j : Nat} {x : Node} {es : List (Element LeafKind)} {is : List Nat} (hx : x.Covers tokens i k)
      (h : Row tokens k es is j) : Row tokens i (.operand x :: es) is j

namespace Row

variable {tokens : Array Token} {i j k : Nat} {es fs : List (Element LeafKind)} {is js : List Nat}

theorem append (h : Row tokens i es is k) (h' : Row tokens k fs js j) : Row tokens i (es ++ fs) (is ++ js) j := by
  induction h with
  | nil => exact h'
  | sign ht hs _ ih => exact .sign ht hs (ih h')
  | operand hx _ ih => exact .operand hx (ih h')

theorem placed (h : Row tokens i es is j) : Placed tokens i es is j := by
  induction h with
  | nil i => exact .nil (Nat.le_refl i)
  | sign ht hs _ ih => exact .sign (Nat.le_refl _) ht hs ih
  | operand hx _ ih =>
      refine .operand hx.start hx.filled ?_
      cases ih with
      | nil h => exact .nil (Nat.le_trans hx.stop h)
      | sign hlow ht hs h => exact .sign (Nat.le_trans hx.stop hlow) ht hs h
      | operand hlow hfilled h => exact .operand (Nat.le_trans hx.stop hlow) hfilled h

theorem accounted (h : Row tokens i es is j) :
    Accounted tokens i j ((operands es).flatMap Tree.nodes) is := by
  induction h with
  | nil i => exact .nil tokens i
  | sign _ _ _ ih => exact (Accounted.sign tokens _).append ih
  | operand hx _ ih => exact hx.accounted.append ih

end Row

namespace Node

variable {tokens : Array Token} {i j : Nat} {x : Node} {is : List Nat}

theorem covers_leaf {p : Place} {kind : LeafKind} (hfilled : p.start < p.stop) (hends : kind.Ends tokens p) :
    Node.Covers tokens p.start p.stop (.leaf p kind) :=
  ⟨Nat.le_refl _, hfilled, Nat.le_refl _, .leaf hfilled hends⟩

/-- A node covers what its elements cover. -/
theorem covers_of_row (h : Row tokens i x.elements is j) (hop : x.op?.isSome = true) (hsigned : x.Signed tokens is)
    (hi : i ≤ x.place.start) (hj : x.place.stop = j) : x.Covers tokens i j where
  start := hi
  filled := hsigned.lt (Tree.elements_ne_nil hop)
  stop := Nat.le_of_eq hj
  accounted := by
    have inside := h.accounted
    rw [Tree.operands_elements] at inside
    rw [Tree.nodes_eq]
    exact inside.node hop hsigned

/-- A node that begins with an operand begins where its operand does. -/
theorem covers_of_operand {y : Node} {es : List (Element LeafKind)} (hx : x.elements = .operand y :: es)
    (h : Row tokens i (.operand y :: es) is j) (hop : x.op?.isSome = true) (hi : x.place.start = y.place.start)
    (hj : x.place.stop = j) : x.Covers tokens i j := by
  have placed := h.placed
  refine covers_of_row (hx ▸ h) hop ?_ ?_ hj
  · unfold Signed
    rw [hx, hi, hj]
    cases placed with
    | operand _ hfilled h => exact .operand (Nat.le_refl _) hfilled h
  · cases placed with
    | operand hlow _ _ => omega

/-- A node that begins with a sign begins there. -/
theorem covers_of_sign (h : Row tokens i x.elements is j) (hop : x.op?.isSome = true) (hi : x.place.start = i)
    (hj : x.place.stop = j) : x.Covers tokens i j := by
  refine covers_of_row h hop ?_ (by omega) hj
  unfold Signed
  rw [hi, hj]
  exact h.placed

theorem Covers.group (h : x.Covers tokens (i + 1) j) (hmatches : Scan.Matches tokens .round i j) :
    x.Covers tokens i (j + 1) where
  start := Nat.le_of_succ_le h.start
  filled := h.filled
  stop := Nat.le_succ_of_le h.stop
  accounted := h.accounted.group (by rw [Tree.nodes_eq]; exact List.mem_cons_self ..) h.start h.stop hmatches

end Node

/-! ### The accounts of a tree -/

/-- The places of a tree account for the tokens `[low, high)`. -/
structure Node.Accounts (tokens : Array Token) (low high : Nat) (t : Node) : Prop where
  /-- A leaf covers tokens of the window, and where it begins with a bracket or with words before one, it ends with
  the bracket that matches. -/
  leaves : ∀ p kind, .leaf p kind ∈ t.nodes → low ≤ p.start ∧ p.start < p.stop ∧ p.stop ≤ high ∧ kind.Ends tokens p
  /-- The tokens of a node are those of its operands and more. -/
  nested : ∀ x ∈ t.nodes, ∀ y ∈ x.children, x.place.start ≤ y.place.start ∧ y.place.stop ≤ x.place.stop
  /-- The operands of a node share no token, and stand in the order of the source. -/
  ordered : ∀ x ∈ t.nodes, x.children.Pairwise fun y z => y.place.stop ≤ z.place.start
  /-- Every token of the window belongs to one leaf, to one operator or to one group. -/
  owned : ∃ signs groups, Owned tokens low high t.nodes [] signs groups

theorem Accounted.signed {tokens : Array Token} {i j : Nat} {ns : List Node} {is : List Nat}
    (h : Accounted tokens i j ns is) {x : Node} (hx : x ∈ ns) (hop : x.op?.isSome = true) :
    ∃ is, x.Signed tokens is := by
  obtain ⟨signs, groups, o⟩ := h.owned
  have hmem : x ∈ signs.map Prod.fst := by
    rw [o.listed]
    exact List.mem_filter.mpr ⟨hx, hop⟩
  obtain ⟨e, he, rfl⟩ := List.mem_map.mp hmem
  exact ⟨e.2, o.signed e he⟩

theorem Node.Covers.accounts {tokens : Array Token} {i j : Nat} {t : Node} (h : t.Covers tokens i j) :
    t.Accounts tokens i j := by
  have operands {x : Node} (hx : x ∈ t.nodes) : x.children = [] ∨
      ∃ is, Placed tokens x.place.start x.elements is x.place.stop := by
    cases hop : x.op?.isSome with
    | true => exact .inr (h.accounted.signed hx hop)
    | false => exact .inl (by cases x <;> first | rfl | cases hop)
  refine ⟨h.accounted.leaves, fun x hx y hy => ?_, fun x hx => ?_, h.accounted.owned⟩
  · rcases operands hx with hnone | ⟨is, hplaced⟩
    · simp [hnone] at hy
    · exact hplaced.within y (by rwa [Tree.operands_elements])
  · rcases operands hx with hnone | ⟨is, hplaced⟩
    · simp [hnone]
    · have := hplaced.ordered
      rwa [Tree.operands_elements] at this

end StackScript
