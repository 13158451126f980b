/-
Operators group by their binding powers.

A chain of operands with an operator between every two has one tree for each way to group it.  The tree that is
built reads as the chain, and everywhere in it an operator leaves out of its left operand what would bind the rest
of it less tightly, and out of its right operand what it binds tighter itself: `Grouped` says so of the operators
along the inner edges of both operands.

`operators` joins a left operand with what follows, and the run over a chain is an induction on how much of it is
left.  Two things carry it: the operators along the left edge of what is joined bind at least as tightly as asked
for, and the next operator binds less tightly than those along the right edge (`Yields`), because each of them took
its right operand up to there.
-/
import StackScript.Proofs.Printing.Building

namespace StackScript

namespace Operator

/-- The power with which an operator takes the operand on its left; zero for one that takes none. -/
def leftPower (op : Operator) : Nat := (op.infixPower?.map Prod.fst).getD 0

/-- The power with which an operator takes the operand on its right; zero for one that takes none. -/
def rightPower (op : Operator) : Nat := (op.infixPower?.map Prod.snd).getD 0

/-- The operators that stand between two operands: those with an operand on each side, but for the conditional, the
call and the subscript. -/
def joinsTwo : Operator → Bool
  | ternary | call | subscript | incr | decr => false
  | op => op.infixPower?.isSome

theorem powers_of_joinsTwo {op : Operator} (h : op.joinsTwo = true) :
    op.infixPower? = some (op.leftPower, op.rightPower) := by
  cases op <;> first | rfl | exact Bool.noConfusion h

theorem joinsTwo_cases {op : Operator} (h : op.joinsTwo = true) : op.isBetween = true ∨ op.isAssignment = true := by
  cases op <;> first | exact Bool.noConfusion h | exact .inl rfl | exact .inr rfl

end Operator

/-! ### Trees in the order of the source -/

/-- What a tree shows in the order of the source: its operators, and the leaves with their tokens `[start, stop)`. -/
inductive Item where
  | operand (kind : LeafKind) (start stop : Nat)
  | operator (op : Operator)
deriving DecidableEq

namespace Tree

variable {α : Type}

mutual

/-- A tree in the order of the source; the target of an assignment stands before its value. -/
def items : Node → List Item
  | leaf p kind => [.operand kind p.start p.stop]
  | prefixed _ op x => .operator op :: x.items
  | postfixed _ op x => x.items ++ [.operator op]
  | binary _ op x y => x.items ++ .operator op :: y.items
  | assign _ op x y => x.items ++ .operator op :: y.items
  | ternary _ c x y => c.items ++ .operator .ternary :: (x.items ++ y.items)
  | call _ g xs => g.items ++ .operator .call :: allItems xs
  | index _ x y => x.items ++ .operator .subscript :: y.items
  | append _ x => x.items ++ [.operator .subscript]

def allItems : List Node → List Item
  | [] => []
  | t :: ts => t.items ++ allItems ts

end

/-- The operators met on the way to the first operand of the source. -/
def leftSpine : Tree α → List Operator
  | binary _ op x _ => op :: x.leftSpine
  | assign _ op x _ => op :: x.leftSpine
  | _ => []

/-- The operators met on the way to the last operand of the source. -/
def rightSpine : Tree α → List Operator
  | binary _ op _ y => op :: y.rightSpine
  | assign _ op _ y => op :: y.rightSpine
  | _ => []

/-- The operands of every operator are grouped by binding powers. -/
inductive Grouped : Tree α → Prop
  | leaf (p : Place) (a : α) : Grouped (.leaf p a)
  | binary (p : Place) {op : Operator} {x y : Tree α} (hx : Grouped x) (hy : Grouped y)
      (left : ∀ o ∈ x.rightSpine, op.leftPower < o.rightPower)
      (right : ∀ o ∈ y.leftSpine, op.rightPower ≤ o.leftPower) : Grouped (.binary p op x y)
  | assign (p : Place) {op : Operator} {x y : Tree α} (hx : Grouped x) (hy : Grouped y)
      (left : ∀ o ∈ x.rightSpine, op.leftPower < o.rightPower)
      (right : ∀ o ∈ y.leftSpine, op.rightPower ≤ o.leftPower) : Grouped (.assign p op x y)

end Tree

/-! ### Chains -/

/-- At `m` stands the first of some operators, with a number behind each of them, and they end at `j`. -/
inductive Links (tokens : Array Token) : Nat → List Operator → Nat → Prop
  | nil (j : Nat) : Links tokens j [] j
  | cons {m j : Nat} {ops : List Operator} {mark number : Token} {op : Operator} (hmark : tokens[m]? = some mark)
      (hop : mark.op? = some op) (hjoins : op.joinsTwo = true) (hnumber : tokens[m + 1]? = some number)
      (hkind : number.isAny [.integer, .real] = true) (h : Links tokens (m + 2) ops j) : Links tokens m (op :: ops) j

/-- The tokens `[i, j)` are numbers with operators between them. -/
def IsChain (tokens : Array Token) (i : Nat) (ops : List Operator) (j : Nat) : Prop :=
  (∃ number, tokens[i]? = some number ∧ number.isAny [.integer, .real] = true) ∧ Links tokens (i + 1) ops j

/-- What the links at `m` show. -/
def linkItems (m : Nat) : List Operator → List Item
  | [] => []
  | op :: ops => .operator op :: .operand .number (m + 1) (m + 2) :: linkItems (m + 2) ops

/-- What a chain shows. -/
def chainItems (i : Nat) (ops : List Operator) : List Item := .operand .number i (i + 1) :: linkItems (i + 1) ops

theorem linkItems_append (m : Nat) (xs ys : List Operator) :
    linkItems m (xs ++ ys) = linkItems m xs ++ linkItems (m + 2 * xs.length) ys := by
  induction xs generalizing m with
  | nil => rfl
  | cons x xs ih =>
      rw [List.cons_append, linkItems, linkItems, ih, List.length_cons]
      have shift : m + 2 + 2 * xs.length = m + 2 * (xs.length + 1) := by omega
      rw [shift]
      rfl

theorem Links.length {tokens : Array Token} {m j : Nat} {ops : List Operator} (h : Links tokens m ops j) :
    j = m + 2 * ops.length := by
  induction h with
  | nil => rfl
  | cons _ _ _ _ _ _ ih =>
      rw [List.length_cons]
      omega

namespace Builder

variable {tokens : Array Token} {j : Nat}

/-! ### One link -/

/-- The next operator binds less tightly than the operators along the right edge. -/
def Yields (t : Node) (rest : List Operator) : Prop :=
  ∀ next ∈ rest.head?, ∀ o ∈ t.rightSpine, next.leftPower < o.rightPower

/-- What reading on from `m` has made of the operators there: those up to the first one that binds less tightly than
`power` are in the tree, behind `items`. -/
structure Reads (tokens : Array Token) (j power : Nat) (items : List Item) (m : Nat) (ops : List Operator) (t : Node)
    (done rest : List Operator) : Prop where
  split : ops = done ++ rest
  links : Links tokens (m + 2 * done.length) rest j
  grouped : t.Grouped
  items : t.items = items ++ linkItems m done
  tight : ∀ o ∈ t.leftSpine, power ≤ o.leftPower
  yields : Yields t rest
  loose : ∀ next ∈ rest.head?, next.leftPower < power

/-- A number is an operand. -/
theorem operand_number {i : Nat} {t : Token} (ht : tokens[i]? = some t) (hkind : t.isAny [.integer, .real] = true)
    (hi : i < j) (n : Nat) : operand (n + 1) ⟨tokens, j⟩ i = .ok (.leaf ⟨i, i + 1, t.line⟩ .number, i + 1) := by
  rw [operand, Window.at?_of_getElem? ht hi]
  simp [hkind, leaf]

theorem not_word_of_number {t : Token} (h : t.isAny [.integer, .real] = true) : t.isAny [.name, .keyword] = false := by
  obtain ⟨kind, text, line⟩ := t
  cases kind <;> simp [Token.isAny, Token.is, TokenKind.classes] at h ⊢

/-- The operand of an operator that joins two, where a number stands. -/
theorem right_of_number (op : Operator) (mark : Token) {i : Nat} {t : Token} (ht : tokens[i]? = some t)
    (hkind : t.isAny [.integer, .real] = true) (hi : i < j) (n power : Nat) :
    (if op = .arrow ∨ op = .doubleColon then member (n + 1) ⟨tokens, j⟩ i power
      else operandOf (n + 1) ⟨tokens, j⟩ mark i power) = expression n ⟨tokens, j⟩ i power := by
  split
  · rw [member, Window.at?_of_getElem? ht hi]
    simp [not_word_of_number hkind]
  · rw [operandOf, Window.at?_of_getElem? ht hi]
    rfl

/-- A token that stands for an operator stands for it behind an operand too. -/
theorem op?_of_mark {mark : Token} {op : Operator} (h : mark.op? = some op) :
    (if mark.is .openParen then some .call else mark.op?) = some op := by
  have paren : mark.is .openParen = false := by
    obtain ⟨kind, text, line⟩ := mark
    cases kind <;> first | rfl | cases h
  rw [paren]
  exact h

/-- The operators `ops` at `m` are read behind any tree that they may stand behind. -/
def OperatorsRead (tokens : Array Token) (j : Nat) (ops : List Operator) : Prop :=
  ∀ (n m power : Nat) (left : Node), 4 * ops.length + 1 ≤ n → Links tokens m ops j → left.Grouped →
    (∀ o ∈ left.leftSpine, power ≤ o.leftPower) → Yields left ops →
    ∃ t done rest, operators n ⟨tokens, j⟩ left m power = .ok (t, m + 2 * done.length) ∧
      Reads tokens j power left.items m ops t done rest

/-- An expression starts with one number, behind which its operators are read. -/
theorem expression_reads {ops : List Operator} (h : OperatorsRead tokens j ops) {i n : Nat} {t : Token}
    (ht : tokens[i]? = some t) (hkind : t.isAny [.integer, .real] = true) (hlinks : Links tokens (i + 1) ops j)
    (hn : 4 * ops.length + 2 ≤ n) (power : Nat) :
    ∃ t done rest, expression n ⟨tokens, j⟩ i power = .ok (t, i + 1 + 2 * done.length) ∧
      Reads tokens j power [.operand .number i (i + 1)] (i + 1) ops t done rest := by
  obtain ⟨n, rfl⟩ : ∃ k, n = k + 2 := ⟨n - 2, by omega⟩
  have length := hlinks.length
  obtain ⟨tree, done, rest, hread, hreads⟩ := h (n + 1) (i + 1) power (.leaf ⟨i, i + 1, t.line⟩ .number) (by omega) hlinks
    (.leaf _ _) nofun (fun _ _ => nofun)
  refine ⟨tree, done, rest, ?_, hreads⟩
  rw [expression, operand_number ht hkind (by omega), ok_bind]
  exact hread

/-- An operator that binds tightly enough takes what is read behind it as its right operand, and what is joined may
again stand before the rest. -/
theorem join_reads {ops : List Operator} {mark : Token} {op : Operator} {left right : Node} {n m power : Nat}
    {done rest : List Operator} (hjoins : op.joinsTwo = true) (hleft : left.Grouped)
    (htight : ∀ o ∈ left.leftSpine, power ≤ o.leftPower) (hyields : Yields left (op :: ops))
    (hpower : power ≤ op.leftPower)
    (hright : (if op = .arrow ∨ op = .doubleColon then member n ⟨tokens, j⟩ (m + 1) op.rightPower
      else operandOf n ⟨tokens, j⟩ mark (m + 1) op.rightPower) = .ok (right, m + 2 + 2 * done.length))
    (hreads : Reads tokens j op.rightPower [.operand .number (m + 1) (m + 2)] (m + 2) ops right done rest) :
    ∃ joined, join (n + 1) ⟨tokens, j⟩ op mark left m op.rightPower = .ok (joined, m + 2 + 2 * done.length) ∧
      joined.Grouped ∧ (∀ o ∈ joined.leftSpine, power ≤ o.leftPower) ∧ Yields joined rest ∧
      joined.items = left.items ++ linkItems m (op :: done) := by
  have hbefore : ∀ o ∈ left.rightSpine, op.leftPower < o.rightPower := hyields op rfl
  have tight : ∀ o ∈ op :: left.leftSpine, power ≤ o.leftPower := List.forall_mem_cons.mpr ⟨hpower, htight⟩
  have yields : ∀ next ∈ rest.head?, ∀ o ∈ op :: right.rightSpine, next.leftPower < o.rightPower := fun next hnext =>
    List.forall_mem_cons.mpr ⟨hreads.loose next hnext, hreads.yields next hnext⟩
  have items : left.items ++ .operator op :: right.items = left.items ++ linkItems m (op :: done) := by
    rw [hreads.items]
    rfl
  rcases Operator.joinsTwo_cases hjoins with hbetween | hassign
  · exact ⟨_, join_between hbetween hright, .binary _ hleft hreads.grouped hbefore hreads.tight, tight, yields, items⟩
  · have hmember : ¬(op = .arrow ∨ op = .doubleColon) := by
      rintro (rfl | rfl) <;> cases hassign
    rw [if_neg hmember] at hright
    exact ⟨_, join_assign hassign hright, .assign _ hleft hreads.grouped hbefore hreads.tight, tight, yields, items⟩

/-! ### Chains -/

/-- By induction on the number of operators: the next one ends what is read, or it takes its right operand, which
leaves fewer. -/
theorem operators_read (tokens : Array Token) (j : Nat) (ops : List Operator) : OperatorsRead tokens j ops := by
  induction hk : ops.length using Nat.strongRecOn generalizing ops with
  | ind k ih =>
      intro n m power left hn hlinks hleft htight hyields
      obtain ⟨n, rfl⟩ : ∃ n', n = n' + 1 := ⟨n - 1, by omega⟩
      have stop (hloose : ∀ next ∈ ops.head?, next.leftPower < power) :
          Reads tokens j power left.items m ops left [] ops :=
        ⟨rfl, hlinks, hleft, (List.append_nil _).symm, htight, hyields, hloose⟩
      have hends := hlinks.length
      cases hlinks with
      | nil =>
          refine ⟨left, [], [], ?_, stop nofun⟩
          rw [operators, Window.at?_stop]
          rfl
      | @cons _ _ ops mark number op hmark hop hjoins hnumber hkind hrest =>
          rw [List.length_cons] at hk hn hends
          have hpowers := Operator.powers_of_joinsTwo hjoins
          have hrole : (if mark.is .openParen then some .call else mark.op?) = some op := op?_of_mark hop
          rw [operators, Window.at?_of_getElem? hmark (by omega)]
          simp only [hrole, hpowers]
          by_cases hpower : op.leftPower < power
          · refine ⟨left, [], op :: ops, ?_, stop fun next hnext => ?_⟩
            · rw [if_pos hpower]
              rfl
            · cases hnext
              exact hpower
          · rw [if_neg hpower]
            obtain ⟨n, rfl⟩ : ∃ n', n = n' + 2 := ⟨n - 2, by omega⟩
            obtain ⟨right, done, rest, hright, hreads⟩ := expression_reads (ih _ (by omega) ops rfl) hnumber hkind hrest
              (show 4 * ops.length + 2 ≤ n by omega) op.rightPower
            rw [← right_of_number op mark hnumber hkind (by omega)] at hright
            obtain ⟨joined, hjoin, hgrouped, htight', hyields', hitems⟩ :=
              join_reads hjoins hleft htight hyields (Nat.le_of_not_lt hpower) hright hreads
            have hfewer : ops.length = done.length + rest.length := by
              rw [hreads.split, List.length_append]
            obtain ⟨t, done', rest', ht, hreads'⟩ := ih _ (by omega) rest rfl (n + 2) (m + 2 + 2 * done.length) power joined
              (by omega) hreads.links hgrouped htight' hyields'
            have hpos : m + 2 + 2 * done.length = m + 2 * (op :: done).length := by
              rw [List.length_cons]
              omega
            have hend : m + 2 + 2 * done.length + 2 * done'.length = m + 2 * (op :: done ++ done').length := by
              rw [List.length_append, List.length_cons]
              omega
            refine ⟨t, op :: done ++ done', rest', ?_, ?_⟩
            · rw [hjoin, ok_bind, ← hend]
              exact ht
            · refine ⟨?_, hend ▸ hreads'.links, hreads'.grouped, ?_, hreads'.tight, hreads'.yields, hreads'.loose⟩
              · rw [hreads.split, hreads'.split, List.cons_append, List.cons_append, List.append_assoc]
              · rw [hreads'.items, hitems, linkItems_append, ← hpos, List.append_assoc]

end Builder

/-- The tree of a chain of numbers reads as the chain, and its operators are grouped by their powers. -/
theorem Node.build_chain {tokens : Array Token} {start stop : Nat} {ops : List Operator} (hstop : stop ≤ tokens.size)
    (h : IsChain tokens start ops stop) :
    ∃ t, Node.build tokens start stop = .ok (some t) ∧ t.items = chainItems start ops ∧ t.Grouped := by
  obtain ⟨⟨number, hnumber, hkind⟩, hlinks⟩ := h
  have length := hlinks.length
  obtain ⟨n, hn⟩ : ∃ n, 8 * (stop - start) + 8 = n + 1 := ⟨_, rfl⟩
  obtain ⟨t, done, rest, ht, hreads⟩ := Builder.expression_reads (Builder.operators_read tokens stop ops) hnumber hkind
    hlinks (show 4 * ops.length + 2 ≤ n by omega) 0
  -- No operator binds less tightly than zero, so none is left.
  obtain rfl : rest = [] := by
    cases rest with
    | nil => rfl
    | cons next rest => exact absurd (hreads.loose next rfl) (Nat.not_lt_zero _)
  have hend : start + 1 + 2 * done.length = stop := by
    rw [length, hreads.split, List.append_nil]
  refine ⟨t, ?_, ?_, hreads.grouped⟩
  · have window : Node.build tokens start stop = Builder.enclosed (n + 1) ⟨tokens, stop⟩ start := by
      simp only [Node.build, Nat.min_eq_left hstop, Nat.min_eq_left (show start ≤ stop by omega), hn]
    rw [window, Builder.enclosed, if_neg (by dsimp only; omega), ht, hend]
    simp
  · rw [hreads.items, hreads.split, List.append_nil]
    rfl

/-- An assignment takes all that follows; a subtraction takes the product, and what stands before it. -/
theorem Node.build_chain_assign_sub_mul :
    ∃ t, Node.build #[⟨.integer, "1", 1⟩, ⟨.equals, "=", 1⟩, ⟨.real, "2.5", 1⟩, ⟨.operator .sub, "-", 1⟩,
        ⟨.integer, "3", 1⟩, ⟨.operator .mul, "*", 2⟩, ⟨.integer, "4", 2⟩, ⟨.operator .sub, "-", 2⟩, ⟨.integer, "5", 2⟩]
        0 9 = .ok (some t) ∧
      t.items = chainItems 0 [.assign, .sub, .mul, .sub] ∧ t.Grouped :=
  Node.build_chain (by decide) ⟨⟨_, rfl, rfl⟩, .cons rfl rfl rfl rfl rfl (.cons rfl rfl rfl rfl rfl
    (.cons rfl rfl rfl rfl rfl (.cons rfl rfl rfl rfl rfl (.nil 9))))⟩

end StackScript
