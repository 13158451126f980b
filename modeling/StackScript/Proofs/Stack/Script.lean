/-
What the parts of a script leave on the stack.

One recursion over the script, in the shape of the generators themselves, collects what the modules before
this one say about single constructs.  A script that was read from tokens has an operand wherever an operator
expects one, and where a condition, key or value is missing it has something to report instead.  The rest is
for the author to keep to: what is assigned to and what follows a double colon has to be something the
operator can take back, and neither a branch nor a reference may be empty.
-/
import StackScript.Proofs.Stack.Function

namespace StackScript

open Gen

variable {F : List SwitchTable}

/-- Both sets of demands are met: a part of a script was read from tokens, and it is careful. -/
structure Sane (P : Checks → Bool) : Prop where
  careful : P .careful = true
  read : P .read = true

theorem Sane.split {P Q : Checks → Bool} (h : Sane fun C => P C && Q C) : Sane P ∧ Sane Q := by
  obtain ⟨hc, hr⟩ := h
  rw [Bool.and_eq_true] at hc hr
  exact ⟨⟨hc.1, hr.1⟩, ⟨hc.2, hr.2⟩⟩

namespace Gen

/-! ### Constructs that always fail -/

theorem fails_inBlock {tags : List BlockTag} {deferred : Option (List Nat)} {body : Nat → Gen Unit}
    (h : ∀ id, Fails (body id)) : Fails (inBlock tags deferred body) where
  goes := goes_inBlock fun id => (h id).goes
  fails := fun s => (h s.blocks.blocks.size).fails (after (enter tags s.code.size .none deferred) s)

/-- A switch without a body leaves its subject on the stack, but it is an error. -/
theorem fails_switchWithoutBody {subject : Gen Unit} (hs : Goes subject) (strays : List Token) {r : Report}
    (hr : r.isError = true) : Fails (switchWithoutBody subject strays r) := by
  refine fails_inBlock fun _ => .behind hs fun _ => .behind (turns_reportStrays (F := []) (k := 0) .switch strays).goes
    fun _ => .report r.line ?_
  exact beq_iff_eq.mp hr

/-! ### Sections of a switch -/

theorem adds_nil {n : Nat} : Adds F n fun table => (pure table : Gen SwitchTable) where
  goes := fun table => (Valued.pure table).goes
  added := fun _ _ _ hp htable _ _ => ⟨_, fun _ _ => rfl, hp, htable⟩

theorem Adds.append {n : Nat} {m m' : SwitchTable → Gen SwitchTable} (h : Adds F n m) (h' : Adds F n m') :
    Adds F n fun table => m table >>= m' where
  goes := fun table => (h.goes table).bind h'.goes
  added := by
    intro s pending depth table hs hn hp htable he ha
    rw [after_bind] at he ha
    rw [after_bind, result_bind]
    have front := h.goes table s
    have rest := h'.goes (result (m table) s) (after (m table) s)
    obtain ⟨d, hd, hp', hstarts⟩ := h.added table hs hn hp htable (GenState.errors_mono rest.1 he) (ha.front rest.2)
    have hsize := front.1.size hs
    obtain ⟨d', hd', hp'', hstarts'⟩ := h'.added _ (by omega) (by omega) hp' hstarts he (ha.back front.2)
    refine ⟨d', fun i hi => ?_, hp'', hstarts'⟩
    rw [hd' i (Nat.le_trans hi front.1.grows), hd i hi]

/-- What ends a container takes the value it returns, if there is one. -/
theorem turns_end {op : Opcode} (hop : op = .done ∨ op = .halt) (isPresent : Bool) (p2 : Nat) :
    Turns F (flag isPresent) 0 (put op (flag isPresent) p2 .none) := by
  rcases hop with rfl | rfl
  · cases isPresent <;> exact turns_put rfl _ _ _ (Nat.le_refl _) rfl
  · cases isPresent <;> exact turns_put rfl _ _ _ (Nat.le_refl _) rfl

theorem turns_returned {op : Opcode} (hop : op = .done ∨ op = .halt) {isPresent : Bool} {value : Gen Unit}
    (h : Turns F 0 (flag isPresent) value) : Turns F 0 0 (do value; put op (flag isPresent) 0 .none) :=
  h.bind fun _ => turns_end hop isPresent 0

theorem turns_addCatch {n : Nat} (id : Nat) (entry : CatchEntry) : Turns F n n (addCatch id entry) :=
  turns_tables (fun _ => rfl) (fun _ => rfl) fun _ => Nat.le_of_eq (List.length_modify ..).symm

end Gen

/-! ### Expressions that are there -/

/-- An expression that is there leaves its value. -/
theorem Expr.turns_of_isPresent {e : Expr} {access : Access} {restriction : Option Restriction}
    (h : Turns F 0 (flag e.isPresent) (e.gen access restriction)) (hm : e.isMissing = false) :
    Turns F 0 1 (e.gen access restriction) := by
  cases e with
  | missing => cases hm
  | rejected error =>
      exact turns_error _ rfl
  | tree root => exact h

/-- The key or value of an array is there, or what cuts it short is an error. -/
theorem Expr.turns_item {e : Expr} {mark : ItemMark} {access : Access} {restriction : Option Restriction}
    (h : Turns F 0 (flag e.isPresent) (e.gen access restriction)) (hcareful : mark.isCareful e = true)
    (hread : mark.explains e = true) : Turns F 0 1 (item mark (e.gen access restriction)) := by
  refine Gen.turns_item mark ?_
  cases hm : e.isMissing with
  | false => exact .inl (Expr.turns_of_isPresent h hm)
  | true =>
      simp only [ItemMark.isCareful, hm, Bool.and_true, Bool.not_eq_true'] at hcareful
      simp only [ItemMark.explains, hm, hcareful, Bool.not_true, Bool.false_or] at hread
      exact .inr ⟨h.goes, hcareful, hread⟩

/-- A condition is there, or what stands in its place is an error. -/
theorem Expr.turns_header {e : Expr} (header : Header) {strays : List Token} {access : Access}
    {restriction : Option Restriction} (h : Turns F 0 (flag e.isPresent) (e.gen access restriction))
    (hread : (!e.isMissing || !strays.isEmpty) = true) :
    Turns F 0 1 (do e.gen access restriction; reportStrays header strays) := by
  refine Gen.turns_header header ?_
  cases hm : e.isMissing with
  | false => exact .inl (Expr.turns_of_isPresent h hm)
  | true =>
      rw [hm, Bool.not_true, Bool.false_or, Bool.not_eq_true'] at hread
      exact .inr ⟨h.goes, hread⟩

/-- The pieces of a string make one value: there is a first one, or it is an error. -/
theorem Gen.turns_template {first : Piece} {rest : List Piece} (hfirst : Turns F 0 (flag first.isPresent) first.gen)
    (hrest : Turns F 0 (rest.countP Piece.isPresent) (Piece.genAll rest)) :
    Turns F 0 1 (do
      first.gen
      Piece.genAll rest
      joinPieces ((first :: rest).countP Piece.isPresent)) := by
  cases hp : first.isPresent with
  | true =>
      rw [hp] at hfirst
      rw [List.countP_cons_of_pos hp, Nat.add_comm]
      exact hfirst.bind fun _ => (hrest.above 1).bind fun _ => turns_joinPieces (Nat.lt_add_right _ Nat.one_pos)
  | false =>
      have join : Goes (joinPieces ((first :: rest).countP Piece.isPresent)) := (valued_joinPieces _).goes
      cases first with
      | rejected errors error =>
          refine (Fails.bind ?_ fun _ => hrest.goes.bind fun _ => join).turns
          exact .behind (turns_reportAll (F := []) (n := 0) _).goes fun _ => .report _ rfl
      | _ => cases hp

mutual

theorem Expr.turns_gen (access : Access) (restriction : Option Restriction) :
    (e : Expr) → Sane (fun C => e.meets C) → Turns F 0 (flag e.isPresent) (e.gen access restriction)
  | .missing => by
    intro _
    exact .pure ()
  | .rejected error => by
    intro _
    exact turns_report _ _
  | .tree root => by
    intro h
    exact (turns_restrict _ _).bind fun _ => Leaf.turns_genTree access root h

theorem Leaf.turns_genTree (access : Access) :
    (t : Tree Leaf) → Sane (fun C => Leaf.treeMeets C t) → Turns F 0 1 (Leaf.genTree access t)
  | .leaf p content => by
    intro h
    exact Leaf.turns_gen access content h.split.2
  | .prefixed p op x => by
    intro h
    exact turns_prefixed _ h.split.1.read (Leaf.turns_genTree access x h.split.2)
  | .postfixed p op x => by
    intro h
    exact turns_postfixed _ h.split.1.read (Leaf.turns_genTree access x h.split.2)
  | .binary p op x y => by
    intro h
    obtain ⟨hx, hy⟩ := h.split
    refine turns_binary _ hx.split.1.read (Leaf.turns_genTree access x hx.split.2) (Leaf.turns_genTree access y hy) ?_
    rintro rfl
    exact Leaf.ends_naming access y hy hx.split.1.careful
  | .assign p op target value => by
    intro h
    obtain ⟨ht, hv⟩ := h.split
    refine turns_assign _ ht.split.1.read (Leaf.turns_genTree access value hv)
      (Leaf.turns_genTree access.target target ht.split.2) ?_
    rintro rfl
    exact Leaf.ends_target access.target target ht.split.2 ht.split.1.careful
  | .ternary p c x y => by
    intro h
    obtain ⟨hc, hy⟩ := h.split
    exact turns_ternary _ (Leaf.turns_genTree access c hc.split.1.split.2) (Leaf.turns_genTree access x hc.split.2)
      (Leaf.turns_genTree access y hy)
  | .call p f xs => by
    intro h
    obtain ⟨hf, hxs⟩ := h.split
    exact turns_call _ _ (Leaf.turns_genTrees access.argument xs hxs) (Leaf.turns_genTree access f hf.split.2)
  | .index p x k => by
    intro h
    obtain ⟨hx, hk⟩ := h.split
    exact (ends_index _ _ (Leaf.turns_genTree access x hx.split.2) (Leaf.turns_genTree access.key k hk)).turns
  | .append p x => by
    intro h
    exact (ends_append _ _ (Leaf.turns_genTree access x h.split.2)).turns

/-- What follows a double colon ends with the instruction that loads it. -/
theorem Leaf.ends_naming (access : Access) : (t : Tree Leaf) → Sane (fun C => Leaf.treeMeets C t) →
    {p : Place} → {x : Tree Leaf} → (Tree.binary p .doubleColon x t).isCareful = true →
    Ends F naming (Leaf.genTree access t)
  | .leaf q (.name path token) => by
    intro _ _ _ _
    exact (ends_name path token).mono (by decide)
  | .leaf q (.variable line name extra) => by
    intro _ _ _ _
    exact (ends_loadVariable access line name extra).mono (by decide)
  | .leaf q (.computedVariable line braceLine name stray extra) => by
    intro h _ _ _
    exact (ends_computedVariable access line braceLine _ (Expr.turns_gen _ _ name h.split.2) stray extra).mono
      (by decide)
  | .leaf q (.blankVariable line braceLine) => by
    intro _ _ _ _
    exact (fails_blankVariable line braceLine).ends
  | .leaf _ (.unread _) | .leaf _ (.number _) | .leaf _ (.simpleString _) | .leaf _ (.template _ _)
  | .leaf _ (.array _ _) | .leaf _ (.list _) | .leaf _ (.closure _ _ _ _ _ _) | .leaf _ (.construct _ _)
  | .prefixed _ _ _ | .postfixed _ _ _ | .binary _ _ _ _ | .assign _ _ _ _ | .ternary _ _ _ _ | .call _ _ _
  | .index _ _ _ | .append _ _ => by
    intro _ _ _ h
    cases h

/-- What is assigned to ends with the instruction that loads it. -/
theorem Leaf.ends_target (access : Access) : (t : Tree Leaf) → Sane (fun C => Leaf.treeMeets C t) →
    t.isTarget = true → Ends F storable (Leaf.genTree access t)
  | .leaf q (.variable line name extra) => by
    intro _ _
    exact (ends_loadVariable access line name extra).mono (by decide)
  | .leaf q (.computedVariable line braceLine name stray extra) => by
    intro h _
    exact (ends_computedVariable access line braceLine _ (Expr.turns_gen _ _ name h.split.2) stray extra).mono
      (by decide)
  | .leaf q (.blankVariable line braceLine) => by
    intro _ _
    exact (fails_blankVariable line braceLine).ends
  | .index p x k => by
    intro h _
    obtain ⟨hx, hk⟩ := h.split
    exact (ends_index _ _ (Leaf.turns_genTree access x hx.split.2) (Leaf.turns_genTree access.key k hk)).mono
      (by decide)
  | .append p x => by
    intro h _
    exact (ends_append _ _ (Leaf.turns_genTree access x h.split.2)).mono (by decide)
  | .binary p op x y => by
    intro h ht
    obtain ⟨hx, hy⟩ := h.split
    have hop : op = .arrow ∨ op = .doubleColon := by
      cases op <;> first | exact .inl rfl | exact .inr rfl | cases ht
    refine (ends_member _ hop (Leaf.turns_genTree access x hx.split.2) (Leaf.turns_genTree access y hy) ?_).mono
      (by decide)
    rintro rfl
    exact Leaf.ends_naming access y hy hx.split.1.careful
  | .leaf _ (.unread _) | .leaf _ (.number _) | .leaf _ (.simpleString _) | .leaf _ (.template _ _)
  | .leaf _ (.name _ _) | .leaf _ (.array _ _) | .leaf _ (.list _) | .leaf _ (.closure _ _ _ _ _ _)
  | .leaf _ (.construct _ _) | .prefixed _ _ _ | .postfixed _ _ _ | .assign _ _ _ _ | .ternary _ _ _ _
  | .call _ _ _ => by
    intro _ h
    cases h

theorem Leaf.turns_genTrees (access : Access) : (ts : List (Tree Leaf)) → Sane (fun C => Leaf.treesMeet C ts) →
    Turns F 0 ts.length (Leaf.genTrees access ts)
  | [] => by
    intro _
    exact .pure ()
  | t :: ts => by
    intro h
    rw [List.length_cons, Nat.add_comm]
    exact (Leaf.turns_genTree access t h.split.1).bind fun _ => (Leaf.turns_genTrees access ts h.split.2).above 1

theorem Leaf.turns_gen (access : Access) : (l : Leaf) → Sane (fun C => l.meets C) → Turns F 0 1 (l.gen access)
  | .unread line => by
    intro _
    exact turns_error _ rfl
  | .number t => by
    intro _
    exact turns_number t
  | .simpleString text => by
    intro _
    exact turns_string _
  | .template first rest => by
    intro h
    exact turns_template (Piece.turns_gen first h.split.1) (Piece.turns_genAll rest h.split.2)
  | .variable line name extra => by
    intro _
    exact (ends_loadVariable _ _ _ _).turns
  | .computedVariable line braceLine name stray extra => by
    intro h
    exact (ends_computedVariable _ _ _ _ (Expr.turns_gen _ _ name h) _ _).turns
  | .blankVariable line braceLine => by
    intro _
    exact (fails_blankVariable _ _).turns
  | .name path t => by
    intro _
    exact (ends_name _ _).turns
  | .array entries incomplete => by
    intro h
    exact turns_array _ (Entry.turns_genAll entries h) _
  | .list targets => by
    intro h
    exact turns_list _ (Expr.turns_genTargets targets h)
  | .closure line returns params fault captures body => by
    intro h
    exact turns_closure _ _ (Parameter.turns_genAll params h.split.1 _) _ _ (Stmt.flows_gen body)
      (Stmt.carries_gen body h.split.2)
  | .construct word argument => by
    intro h
    exact turns_construct _ _ (Expr.turns_gen _ _ argument h)

theorem Piece.turns_gen : (p : Piece) → Sane (fun C => p.meets C) → Turns F 0 (flag p.isPresent) p.gen
  | .text text => by
    intro _
    exact turns_string text
  | .value errors root => by
    intro h
    exact (turns_reportAll _).bind fun _ => Leaf.turns_genTree {} root h
  | .rejected errors error => by
    intro _
    exact (turns_reportAll _).bind fun _ => turns_report _ _

theorem Piece.turns_genAll : (ps : List Piece) → Sane (fun C => Piece.allMeet C ps) →
    Turns F 0 (ps.countP Piece.isPresent) (Piece.genAll ps)
  | [] => by
    intro _
    exact .pure ()
  | p :: ps => by
    intro h
    rw [List.countP_cons, Nat.add_comm]
    exact (Piece.turns_gen p h.split.1).bind fun _ => (Piece.turns_genAll ps h.split.2).above _

theorem Entry.turns_gen : (e : Entry) → Sane (fun C => e.meets C) → Turns F 0 2 e.gen
  | .plain line value mark => by
    intro h
    obtain ⟨hentry, hvalue⟩ := h.split
    exact turns_plainEntry _ (Expr.turns_item (Expr.turns_gen _ _ value hvalue) hentry.careful hentry.read)
  | .keyed line key keyMark value mark => by
    intro h
    obtain ⟨h, hvalue⟩ := h.split
    obtain ⟨hentry, hkey⟩ := h.split
    obtain ⟨hkeyCareful, hvalueCareful⟩ := Bool.and_eq_true_iff.mp hentry.careful
    obtain ⟨hkeyRead, hvalueRead⟩ := Bool.and_eq_true_iff.mp hentry.read
    exact turns_keyedEntry _ (Expr.turns_item (Expr.turns_gen _ _ key hkey) hkeyCareful hkeyRead)
      (Expr.turns_item (Expr.turns_gen _ _ value hvalue) hvalueCareful hvalueRead)
  | .unkeyed line value mark => by
    intro h
    obtain ⟨hentry, hvalue⟩ := h.split
    exact turns_unkeyedEntry _ (Expr.turns_item (Expr.turns_gen _ _ value hvalue) hentry.careful hentry.read)

theorem Entry.turns_genAll : (es : List Entry) → Sane (fun C => Entry.allMeet C es) →
    Turns F 0 (es.length * 2) (Entry.genAll es)
  | [] => by
    intro _
    exact .pure ()
  | e :: es => by
    intro h
    rw [List.length_cons, Nat.add_mul, Nat.one_mul, Nat.add_comm]
    exact (Entry.turns_gen e h.split.1).bind fun _ => (Entry.turns_genAll es h.split.2).above 2

theorem Expr.turns_genTargets : (es : List Expr) → Sane (fun C => Expr.allMeet C es) →
    Turns F 0 (es.countP Expr.isPresent) (Expr.genTargets es)
  | [] => by
    intro _
    exact .pure ()
  | e :: es => by
    intro h
    rw [List.countP_cons, Nat.add_comm]
    exact (Expr.turns_gen _ _ e h.split.1).bind fun _ => (Expr.turns_genTargets es h.split.2).above _

theorem Parameter.turns_gen : (p : Parameter) → Sane (fun C => p.meets C) → (n : Nat) → Turns F n n p.gen
  | .required name type byRef => by
    intro _ n
    exact .pure _
  | .optional name type byRef line value => by
    intro h n
    exact (turns_thunk line value.isPresent (Expr.turns_gen _ _ value h)).bind fun _ => .pure _

theorem Parameter.turns_genAll : (ps : List Parameter) → Sane (fun C => Parameter.allMeet C ps) →
    (n : Nat) → Turns F n n (Parameter.genAll ps)
  | [] => by
    intro _ n
    exact .pure _
  | p :: ps => by
    intro h n
    exact (Parameter.turns_gen p h.split.1 n).bind fun _ => (Parameter.turns_genAll ps h.split.2 n).bind fun _ => .pure _

theorem Chain.carries_gen (id : Nat) : (c : Chain) → Sane (fun C => c.meets C) → Carries F (id + 1) 0 0 (c.gen id)
  | .branch test strays body rest => by
    intro h
    obtain ⟨h, hrest⟩ := h.split
    obtain ⟨h, hbody⟩ := h.split
    obtain ⟨hchain, htest⟩ := h.split
    have hm : test.isMissing = false := Bool.not_eq_true' _ ▸ hchain.careful
    exact carries_branch (Expr.turns_of_isPresent (Expr.turns_gen _ _ test htest) hm) strays
      (Stmt.carries_gen body hbody) _ (Chain.carries_gen id rest hrest)
  | .otherwise body => by
    intro h
    exact Stmt.carries_gen body h _
  | .malformed r => by
    intro _
    exact (turns_report _ _).statement
  | .done => by
    intro _
    exact .pure ()

theorem Section.adds_gen : (sec : Section) → Sane (fun C => sec.meets C) → (n : Nat) → Gen.Adds F n fun table => sec.gen table
  | .case_ line guard strays body => by
    intro h n
    exact adds_case line _ (Expr.turns_gen _ _ guard h.split.1) strays (Stmt.carries_genAll body h.split.2)
  | .default_ line strays body => by
    intro h n
    exact adds_default line strays (Stmt.carries_genAll body h)

theorem Section.adds_genAll : (ss : List Section) → Sane (fun C => Section.allMeet C ss) →
    (n : Nat) → Gen.Adds F n fun table => Section.genAll ss table
  | [] => by
    intro _ n
    exact adds_nil
  | sec :: ss => by
    intro h n
    exact (Section.adds_gen sec h.split.1 n).append (Section.adds_genAll ss h.split.2 n)

theorem ForeachHead.carries_gen (id line : Nat) (key : Option String) : (h : ForeachHead) →
    Sane (fun C => h.meets C) → Carries F (id + 1) 1 0 (h.gen id line key)
  | .malformed problem => by
    intro h
    exact (Fails.report line (beq_iff_eq.mp h.read)).carries
  | .unbound bindingLine binding => by
    intro h
    exact (fails_unbound bindingLine (F := F) (Expr.turns_gen _ _ binding h)).carries
  | .key name binding rest => by
    intro h
    exact (turns_discarding (Expr.turns_gen _ _ binding h.split.1)).statement.bind fun _ =>
      ForeachHead.carries_gen id line (some name) rest h.split.2
  | .value byRef name binding body => by
    intro h
    exact (turns_discarding (Expr.turns_gen _ _ binding h.split.1)).statement.bind fun _ =>
      carries_foreachLoop _ (Stmt.carries_gen body h.split.2)

theorem CatchClause.turns_gen (table : Nat) : (c : CatchClause) → Sane (fun C => c.meets C) →
    Turns F 0 0 (c.gen table)
  | .malformed r => by
    intro _
    exact turns_report _ _
  | .clause className binding body => by
    intro h
    exact (turns_catchBody (Stmt.flows_gen body) (Stmt.carries_gen body h)).bind fun _ => turns_addCatch _ _

theorem CatchClause.turns_genAll (table : Nat) : (cs : List CatchClause) →
    Sane (fun C => CatchClause.allMeet C cs) → Turns F 0 0 (CatchClause.genAll table cs)
  | [] => by
    intro _
    exact .pure ()
  | c :: cs => by
    intro h
    exact (CatchClause.turns_gen table c h.split.1).bind fun _ => CatchClause.turns_genAll table cs h.split.2

theorem Declarator.turns_gen (type : TypeSpec) : (d : Declarator) → Sane (fun C => d.meets C) →
    Turns F 0 0 (d.gen type)
  | .plain line name => by
    intro _
    exact turns_declare _ _ _
  | .assigned line name assignment => by
    intro h
    exact turns_assigned _ _ _ _ (Expr.turns_gen _ _ assignment h)
  | .static line name => by
    intro _
    exact turns_static _ _ _ _
  | .staticValue line name valueLine value => by
    intro h
    exact turns_staticValue _ _ _ _ _ (Expr.turns_gen _ _ value h)

theorem Declarator.turns_genAll (type : TypeSpec) : (ds : List Declarator) →
    Sane (fun C => Declarator.allMeet C ds) → Turns F 0 0 (Declarator.genAll type ds)
  | [] => by
    intro _
    exact .pure ()
  | d :: ds => by
    intro h
    exact (Declarator.turns_gen type d h.split.1).bind fun _ => Declarator.turns_genAll type ds h.split.2

theorem Member.turns_gen (c : ClassDef) : (m : Member) → Sane (fun C => m.meets C) → (n : Nat) → Turns F n n (m.gen c)
  | .report r => by
    intro _ n
    exact (turns_report _ _).bind fun _ => .pure c
  | .constant head line value => by
    intro h n
    exact (turns_memberValue head _ line _ (Expr.turns_gen _ _ value h)).bind fun _ => .pure _
  | .attribute head type => by
    intro _ n
    exact .pure _
  | .attributeValue head type line value => by
    intro h n
    exact (turns_memberValue head _ line _ (Expr.turns_gen _ _ value h)).bind fun _ => .pure _
  | .signature head function params fault => by
    intro h n
    exact (turns_arguments (Parameter.turns_genAll params h n) fault).bind fun _ => .pure _
  | .method head function params fault body => by
    intro h n
    exact (turns_arguments (Parameter.turns_genAll params h.split.1 _) fault).bind fun _ =>
      (turns_functionDef function _ (Stmt.flows_gen body) (Stmt.carries_gen body h.split.2)).bind fun _ =>
        .pure _

theorem Member.turns_genAll : (ms : List Member) → Sane (fun C => Member.allMeet C ms) → (n : Nat) → (c : ClassDef) →
    Turns F n n (Member.genAll ms c)
  | [] => by
    intro _ n c
    exact .pure c
  | m :: ms => by
    intro h n c
    exact (Member.turns_gen c m h.split.1 n).bind fun c => Member.turns_genAll ms h.split.2 n c

theorem Stmt.carries_gen : (s : Stmt) → Sane (fun C => s.meets C) → (n : Nat) → Carries F n 0 0 s.gen
  | .empty => by
    intro _ n
    exact .pure ()
  | .report r => by
    intro _ n
    exact (turns_report _ _).statement
  | .sequence items => by
    intro h n
    exact Stmt.carries_genAll items h n
  | .onLine line body => by
    intro h n
    exact (turns_setLine line).statement.bind fun _ => carries_markBoundary.bind fun _ =>
      (Stmt.carries_gen body h n).bind fun _ => carries_markBoundary
  | .block items unclosed => by
    intro h n
    exact carries_braces (Stmt.carries_genAll items h) unclosed
  | .raw text => by
    intro _ n
    exact Turns.statement ((turns_loadConstant _).bind fun _ => turns_put rfl _ _ _ (Nat.le_refl 1) rfl)
  | .expression value => by
    intro h n
    exact Turns.statement ((Expr.turns_gen _ _ value h).bind fun _ => turns_dropIf _)
  | .conditional chain => by
    intro h n
    exact carries_conditional fun id => Chain.carries_gen id chain h
  | .switch subject strays sections fault => by
    intro h n
    obtain ⟨h, hsections⟩ := h.split
    exact carries_switch (Expr.turns_header _ (Expr.turns_gen _ _ subject h.split.2) h.split.1.read)
      (Section.adds_genAll sections hsections) fault
  | .switchWithoutBody subject strays r => by
    intro h n
    exact (fails_switchWithoutBody (Expr.turns_gen _ _ subject h.split.2).goes strays h.split.1.read).carries
  | .whileLoop test strays body => by
    intro h n
    obtain ⟨h, hbody⟩ := h.split
    exact carries_whileLoop (Expr.turns_header _ (Expr.turns_gen _ _ test h.split.2) h.split.1.read)
      (Stmt.carries_gen body hbody)
  | .doLoop body test strays => by
    intro h n
    obtain ⟨h, htest⟩ := h.split
    exact carries_doLoop (Stmt.carries_gen body h.split.2)
      (Expr.turns_header _ (Expr.turns_gen _ _ test htest) h.split.1.read)
  | .doWithoutTest body r => by
    intro h n
    exact carries_inBlock .deferring fun _ => (Stmt.carries_gen body h _).bind fun _ => (turns_report _ _).statement
  | .forLoop line init test afterTest body post afterPost => by
    intro h n
    obtain ⟨h, hpost⟩ := h.split
    obtain ⟨h, hbody⟩ := h.split
    exact carries_forLoop line (Stmt.carries_gen init h.split.1) _ (Expr.turns_gen _ _ test h.split.2) afterTest
      (Stmt.carries_gen body hbody) _ (Expr.turns_gen _ _ post hpost) afterPost
  | .foreach line source strays head => by
    intro h n
    obtain ⟨h, hhead⟩ := h.split
    exact carries_foreach (Expr.turns_header _ (Expr.turns_gen _ _ source h.split.2) h.split.1.read)
      fun id => ForeachHead.carries_gen id line none head hhead
  | .tryCatch body clauses fault => by
    intro h n
    exact carries_tryCatch (Stmt.carries_gen body h.split.1)
      (fun table => CatchClause.turns_genAll table clauses h.split.2) fault
  | .throw line value => by
    intro h n
    exact carries_throw line _ (Expr.turns_gen _ _ value h)
  | .loopJump jump line level unterminated => by
    intro _ n
    exact carries_loopJump jump line level unterminated
  | .return_ value => by
    intro h n
    exact Turns.statement (turns_returned (.inl rfl) (Expr.turns_gen _ _ value h))
  | .exit value => by
    intro h n
    exact Turns.statement (turns_returned (.inr rfl) (Expr.turns_gen _ _ value h))
  | .constant name line value => by
    intro h n
    exact (turns_constant name line _ (Expr.turns_gen _ _ value h)).statement
  | .declaration type items fault => by
    intro h n
    exact Turns.statement ((Declarator.turns_genAll type items h).bind fun _ => turns_reportFault fault)
  | .namespace_ line items => by
    intro h n
    exact (turns_noteNamespaces line).statement.bind fun _ => Stmt.carries_genAll items h n
  | .using_ line => by
    intro _ n
    exact (turns_noteNamespaces line).statement
  | .function head params fault body => by
    intro h n
    exact (turns_function head (Parameter.turns_genAll params h.split.1 _) fault (Stmt.flows_gen body)
      (Stmt.carries_gen body h.split.2)).statement
  | .class_ head members fault => by
    intro h n
    exact (turns_class_ head (Member.turns_genAll members h) fault).statement

theorem Stmt.carries_genAll : (ss : List Stmt) → Sane (fun C => Stmt.allMeet C ss) →
    (n : Nat) → Carries F n 0 0 (Stmt.genAll ss)
  | [] => by
    intro _ n
    exact .pure ()
  | s :: ss => by
    intro h n
    exact (Stmt.carries_gen s h.split.1 n).bind fun _ => Stmt.carries_genAll ss h.split.2 n

end

end StackScript
