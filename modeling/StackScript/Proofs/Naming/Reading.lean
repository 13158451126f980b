/-
The names and the problems that are read.

A reader of declarations takes the name of a function from a token of its stream, so it has to be known that readers
stay among the tokens they were handed (`Parse.Keeps`).  Then `Parse.Over` is followed one bind at a time: where the
names among the tokens are names, what a reader returns has proper mentions.  The tokens of the expressions inside a
string are their own, scanned from the text of the string.
-/
import StackScript.Parser.Leaf
import StackScript.Proofs.Naming.Tokens

namespace StackScript

/-- The names among the tokens of a stream are names. -/
def TokenStream.Named (s : TokenStream) : Prop := ∀ t ∈ s.tokens, t.Named

theorem TokenStream.named_ofList {tokens : List Token} (h : ∀ t ∈ tokens, t.Named) : (ofList tokens).Named :=
  fun t ht => h t (List.mem_toArray.mp ht)

namespace Parse

variable {α β : Type} {P : α → Prop} {Q : β → Prop}

/-! ### Readers stay among their tokens -/

/-- The reader leaves the tokens of the stream as they are. -/
class Keeps (p : Parse α) : Prop where
  tokens : ∀ s, (p.run s).2.tokens = s.tokens

section Keeps

variable {p q : Parse α} {f : α → Parse β}

instance (a : α) : Keeps (pure a : Parse α) := ⟨fun _ => rfl⟩

theorem Keeps.bind (hp : Keeps p) (hf : ∀ a, Keeps (f a)) : Keeps (p >>= f) :=
  ⟨fun s => ((hf _).tokens _).trans (hp.tokens s)⟩

instance [hp : Keeps p] [hf : ∀ a, Keeps (f a)] : Keeps (p >>= f) := hp.bind hf

instance [hp : Keeps p] (f : α → β) : Keeps (f <$> p) := ⟨fun s => hp.tokens s⟩

instance {c : Prop} [Decidable c] [hp : Keeps p] [hq : Keeps q] : Keeps (if c then p else q) := by
  split
  · exact hp
  · exact hq

instance : Keeps (get : Parse TokenStream) := ⟨fun _ => rfl⟩

instance (start stop : Nat) (p : Parse α) : Keeps (within start stop p) := ⟨fun _ => rfl⟩

instance (pos : Nat) : Keeps (setPos pos) := ⟨fun _ => rfl⟩

instance (p : Token → Bool) : Keeps (modify (·.skipWhile p)) := ⟨fun _ => rfl⟩

instance (cs : List TokenClass) : Keeps (modify (·.skipUntil cs)) := ⟨fun _ => rfl⟩

instance : Keeps advance := ⟨fun s => by
  show s.advance.tokens = s.tokens
  unfold TokenStream.advance
  split <;> rfl⟩

instance : Keeps bump := ⟨fun s => by
  show s.bump.2.tokens = s.tokens
  unfold TokenStream.bump
  split <;> rfl⟩

instance (cs : List TokenClass) : Keeps (eat cs) := ⟨fun s => by
  show (s.eat cs).2.tokens = s.tokens
  unfold TokenStream.eat
  split <;> rfl⟩

instance (word : Keyword) : Keeps (eatKeyword word) := ⟨fun s => by
  show (s.eatKeyword word).2.tokens = s.tokens
  unfold TokenStream.eatKeyword
  split <;> rfl⟩

instance : Keeps peek := inferInstanceAs (Keeps (get >>= fun _ => pure _))

instance (n : Nat) : Keeps (peekNth n) := inferInstanceAs (Keeps (get >>= fun _ => pure _))

instance : Keeps line := inferInstanceAs (Keeps (get >>= fun _ => pure _))

instance : Keeps pos := inferInstanceAs (Keeps (get >>= fun _ => pure _))

instance : Keeps atEnd := inferInstanceAs (Keeps (get >>= fun _ => pure _))

instance (cs : List TokenClass) : Keeps (check cs) := inferInstanceAs (Keeps (get >>= fun _ => pure _))

instance (word : Keyword) : Keeps (checkKeyword word) := inferInstanceAs (Keeps (get >>= fun _ => pure _))

instance : Keeps rest := inferInstanceAs (Keeps (get >>= fun _ => pure _))

instance (cs : List TokenClass) : Keeps (skipUntil cs) := ⟨fun _ => rfl⟩

instance : Keeps skipToEnd := ⟨fun _ => rfl⟩

instance : Keeps skipSemicolons := ⟨fun _ => rfl⟩

instance : Keeps recover := ⟨fun _ => rfl⟩

instance : Keeps synchronize := ⟨fun _ => rfl⟩

instance : Keeps skipDeclaration := by
  unfold skipDeclaration
  infer_instance

instance (opening closing : TokenClass) : Keeps (group? opening closing) := by
  unfold group?
  infer_instance

instance : Keeps parenGroup? := inferInstanceAs (Keeps (group? _ _))

instance : Keeps braceGroup? := inferInstanceAs (Keeps (group? _ _))

instance : Keeps filledParenGroup? := by
  unfold filledParenGroup?
  infer_instance

instance (start stop : Nat) (p : Token → Bool) : Keeps (findIndex start stop p) := by
  unfold findIndex
  infer_instance

instance : Keeps variableName? := ⟨fun s => by
  unfold variableName?
  show ((match s.peek, s.peekNth 1 with
    | some dollar, some name => pure _
    | _, _ => pure none : Parse (Option String)).run s).2.tokens = s.tokens
  split <;> rfl⟩

instance : Keeps arraySuffix := by
  unfold arraySuffix
  infer_instance

instance : Keeps builtinType? := by
  unfold builtinType?
  refine Keeps.bind inferInstance fun t => ?_
  split <;> infer_instance

instance (t : Token) : Keeps (argumentType t) := by
  unfold argumentType
  split
  · refine Keeps.bind inferInstance fun type => ?_
    split <;> infer_instance
  · infer_instance

instance (n : Nat) : Keeps (captureItems n) := by
  induction n with
  | zero => exact inferInstanceAs (Keeps (pure _))
  | succ n ih =>
      unfold captureItems
      refine Keeps.bind inferInstance fun t => ?_
      split
      · infer_instance
      · split
        · infer_instance
        · refine Keeps.bind inferInstance fun byRef => Keeps.bind inferInstance fun name => ?_
          split <;> infer_instance

instance : Keeps captureList := by
  unfold captureList
  infer_instance

instance : Keeps returnType := by
  unfold returnType
  infer_instance

instance (start stop : Nat) : Keeps (entryArrow start stop) := by
  unfold entryArrow
  infer_instance

instance : Keeps collectionPieces := by
  unfold collectionPieces collectionBody
  infer_instance

end Keeps

/-! ### What is read among names -/

/-- Where the names among the tokens are names, what the reader returns has the property, and it stays among them. -/
def Over (p : Parse α) (P : α → Prop) : Prop :=
  ∀ s : TokenStream, s.Named → P (p.run s).1 ∧ (p.run s).2.tokens = s.tokens

namespace Over

variable {p q : Parse α} {f : α → Parse β}

theorem pure {a : α} (h : P a) : Over (pure a) P := fun _ _ => ⟨h, rfl⟩

theorem bind (hp : Over p P) (hf : ∀ a, P a → Over (f a) Q) : Over (p >>= f) Q := by
  intro s hs
  obtain ⟨first, kept⟩ := hp s hs
  have moved : (p.run s).2.Named := by
    unfold TokenStream.Named
    rwa [kept]
  obtain ⟨second, kept'⟩ := hf _ first _ moved
  exact ⟨second, kept'.trans kept⟩

/-- What is read first does not matter. -/
theorem behind [hp : Keeps p] (hf : ∀ a, Over (f a) Q) : Over (p >>= f) Q :=
  bind (P := fun _ => True) (fun s _ => ⟨trivial, hp.tokens s⟩) fun a _ => hf a

/-- The stream itself is looked at. -/
theorem get {f : TokenStream → Parse β} (hf : ∀ s, s.Named → Over (f s) Q) : Over (get >>= f) Q :=
  fun s hs => hf s hs s hs

theorem ite {c : Prop} [Decidable c] (hp : Over p P) (hq : Over q P) : Over (if c then p else q) P := by
  split
  · exact hp
  · exact hq

theorem within (hp : Over p P) (start stop : Nat) : Over (within start stop p) P :=
  fun s hs => ⟨(hp (s.window start stop) hs).1, rfl⟩

end Over

/-- The name a declaration takes from the token in front. -/
theorem over_peek_name : peek.Over fun next => ∀ name, next.filter (·.is .name) = some name → IsName name.text := by
  intro s hs
  refine ⟨fun name hname => ?_, rfl⟩
  obtain ⟨hpeek, hclass⟩ := Option.filter_eq_some_iff.mp hname
  have hpeek : s.peek = some name := hpeek
  obtain ⟨-, htoken⟩ : s.pos < s.stop ∧ s.tokens[s.pos]? = some name := by
    simpa [TokenStream.peek, TokenStream.peekNth] using hpeek
  exact hs name (Array.mem_of_getElem? htoken) hclass

end Parse

/-- Readers of mentions that are proper among names. -/
structure Readers.Over (r : Readers) : Prop where
  stmt : r.stmt.Over fun st => Proper st.mentions
  expr : ∀ atComma, (r.expr atComma).Over fun e => Proper e.mentions
  scope : r.scope.Over fun items => Proper (Stmt.allMentions items)

namespace Parse

variable {r : Readers}

/-- A statement with proper mentions is read. -/
abbrev OverStmt (p : Parse Stmt) : Prop := p.Over fun st => Proper st.mentions

theorem overStmt_report (line : Nat) {problem : Problem} (h : problem.IsForeign) :
    OverStmt (pure (.report ⟨line, problem⟩)) := .pure (.single h)

theorem over_condition (hr : r.Over) (start stop : Nat) :
    (condition r start stop).Over fun read => Proper read.1.mentions := by
  refine Over.within ?_ start stop
  exact (hr.expr false).bind fun _ hvalue => .behind fun _ => .pure hvalue

theorem over_filling (hr : r.Over) : (filling r).Over fun read => Proper read.1.mentions :=
  (hr.expr false).bind fun _ hvalue => .behind fun _ => .ite (.pure hvalue) (.behind fun _ => .pure hvalue)

/-! ### Blocks, arguments and functions -/

theorem over_blockItems (hr : r.Over) (n : Nat) : (blockItems r n).Over fun read => Proper (Stmt.allMentions read.1) := by
  induction n with
  | zero => exact .pure .nil
  | succ n ih =>
      unfold blockItems
      refine .behind fun next => ?_
      split
      · exact .pure .nil
      · refine .ite (.behind fun _ => .pure .nil) ?_
        exact hr.stmt.bind fun item hitem => ih.bind fun rest hrest => .pure (hitem.append hrest)

theorem overStmt_braces (hr : r.Over) : OverStmt (braces r) :=
  .behind fun _ => .behind fun _ => .behind fun _ => (over_blockItems hr _).bind fun _ hread => .pure hread

theorem overStmt_block (hr : r.Over) : OverStmt (block r) := by
  have rest (p : Parse Stmt) (hp : OverStmt p) : OverStmt (p >>= fun body => skipSemicolons >>= fun _ => pure body) :=
    hp.bind fun body hbody => .behind fun _ => .pure hbody
  exact .behind fun opened => rest _ (.ite (overStmt_braces hr) hr.stmt)

/-- A type that is not known is a problem. -/
theorem over_argumentType (t : Token) :
    (argumentType t).Over fun read => ∀ report, read = .error report → report.problem.IsForeign := by
  unfold argumentType
  have known (type : Option TypeSpec) : (pure (.ok type) : Parse (Except Report (Option TypeSpec))).Over
      fun read => ∀ report, read = .error report → report.problem.IsForeign := .pure (by rintro _ ⟨⟩)
  refine .ite (.behind fun type => ?_) (.ite (.behind fun _ => .behind fun _ => known _) (known none))
  split
  · exact known _
  · refine .pure ?_
    rintro report ⟨⟩
    exact trivial

theorem over_argumentDefault (hr : r.Over) (line : Nat) :
    (argumentDefault r line).Over fun read => match read with
      | .ok value => Proper value.2.mentions
      | .error report => report.problem.IsForeign := by
  refine .behind fun s => .ite (.pure trivial) (.behind fun valueLine => ?_)
  exact ((hr.expr false).within _ _).bind fun value hvalue => .behind fun _ => .pure hvalue

theorem over_argument (hr : r.Over) (t : Token) :
    (argument r t).Over fun read => match read with
      | .ok param => Proper param.mentions
      | .error report => report.problem.IsForeign := by
  unfold argument
  refine .bind (over_argumentType t) fun type htype => ?_
  split
  · exact .pure (htype _ rfl)
  · refine .behind fun byRef => .behind fun ended => .ite (.pure trivial) (.behind fun name => ?_)
    split
    · exact .pure trivial
    · refine .behind fun _ => .behind fun _ => .behind fun equals => .ite ?_ (.pure .nil)
      refine (over_argumentDefault hr t.line).bind fun default hdefault => ?_
      split
      · exact .pure hdefault
      · exact .pure hdefault

/-- The parameters of a list that was read, and the problem that ends it. -/
abbrev ProperList (read : List Parameter × Option Report) : Prop :=
  Proper (Parameter.allMentions read.1) ∧ Proper (Mention.fault read.2)

theorem over_arguments (hr : r.Over) (n : Nat) : (arguments r n).Over ProperList := by
  have empty : ProperList ([], none) := ⟨.nil, .nil⟩
  induction n with
  | zero => exact .pure empty
  | succ n ih =>
      unfold arguments
      refine .behind fun next => ?_
      split
      · exact .pure empty
      · refine (over_argument hr _).bind fun read hread => ?_
        split
        · exact .pure ⟨.nil, .single hread⟩
        · rename_i param
          have first : Proper (Parameter.allMentions [param]) := hread.append .nil
          refine .behind fun behind => ?_
          split
          · exact .pure ⟨first, .nil⟩
          · refine .ite (.behind fun _ => ih.bind fun rest hrest => .pure ⟨hread.append hrest.1, hrest.2⟩) ?_
            exact .pure ⟨first, .single trivial⟩

theorem over_signature? (hr : r.Over) :
    (signature? r).Over fun read => ∀ params, read = some params → ProperList params := by
  unfold signature?
  refine .behind fun group => ?_
  split
  · exact .pure (by rintro _ ⟨⟩)
  · refine Over.bind (Over.within (.behind fun _ => over_arguments hr _) _ _) fun read hread => .behind fun _ => .pure ?_
    rintro params ⟨⟩
    exact hread

/-- A leaf with proper mentions is read. -/
abbrev OverLeaf (p : Parse Leaf) : Prop := p.Over fun l => Proper l.mentions

theorem overLeaf_closure (hr : r.Over) : OverLeaf (closure r) := by
  unfold closure
  refine .behind fun here => .behind fun returns => .behind fun _ => .behind fun _ => ?_
  refine (over_signature? hr).bind fun read hread => ?_
  split
  · exact .pure .nil
  · rename_i params fault
    obtain ⟨hparams, hfault⟩ := hread _ rfl
    have captured (captures : Option CaptureList) : OverLeaf (do
        return .closure here returns params fault captures (← block r)) :=
      (overStmt_block hr).bind fun body hbody => .pure (hparams.append (hfault.append hbody))
    exact .behind fun opened => .ite (.behind captured) (captured none)

theorem overStmt_function (hr : r.Over) : OverStmt (functionDeclaration r) := by
  unfold functionDeclaration
  refine .behind fun here => .behind fun returns => .behind fun _ => .behind fun byRef => ?_
  refine over_peek_name.bind fun next hnext => ?_
  split
  · exact .behind fun _ => .behind fun _ => overStmt_report _ trivial
  · rename_i name hname
    refine .behind fun _ => .behind fun opened => .ite ?_ (.behind fun _ => overStmt_report _ trivial)
    refine .behind fun parenLine => (over_signature? hr).bind fun read hread => ?_
    split
    · exact .behind fun _ => overStmt_report _ trivial
    · obtain ⟨hparams, hfault⟩ := hread _ rfl
      exact (overStmt_block hr).bind fun body hbody =>
        .pure (.cons ⟨hnext name hname, rfl⟩ (hparams.append (hfault.append hbody)))

/-! ### Leaves -/

theorem proper_piece (hr : r.Over) (line : Nat) (part : StringLiteral.Part) : Proper (piece r line part).mentions := by
  unfold piece
  split
  · exact .nil
  · rename_i cs
    dsimp only
    have named := TokenStream.named_ofList (Tokens.named_ofSource (String.ofList cs) line)
    have read := (hr.expr false _ named).1
    split
    · rename_i root hroot
      rw [hroot] at read
      exact read
    · exact .nil
    · exact .nil

theorem proper_template (hr : r.Over) (t : Token) : Proper (template r t).mentions := by
  have pieces (parts : List StringLiteral.Part) : Proper (Piece.allMentions (parts.map (piece r t.line))) := by
    induction parts with
    | nil => exact .nil
    | cons part parts ih => exact (proper_piece hr t.line part).append ih
  unfold template
  split
  · exact .nil
  · exact (proper_piece hr t.line _).append (pieces _)

theorem overLeaf_variable (hr : r.Over) : OverLeaf (variableLeaf r) := by
  unfold variableLeaf
  refine .behind fun here => .behind fun before => .behind fun _ => .behind fun pos => .behind fun next => ?_
  dsimp only
  split
  · exact .pure .nil
  · refine .ite (.pure .nil) (.ite (.behind fun s => .ite (.pure .nil) ?_) (.pure .nil))
    exact ((over_filling hr).within _ _).bind fun read hread => .pure hread

theorem overLeaf_name : OverLeaf nameLeaf := by
  refine .behind fun s => ?_
  dsimp only
  split
  · exact .pure .nil
  · exact .pure .nil

theorem over_item (hr : r.Over) (start stop : Nat) : (item r start stop).Over fun read => Proper read.1.mentions := by
  refine .behind fun s => .ite ?_ ?_
  · exact ((hr.expr false).within _ _).bind fun _ hvalue => .pure hvalue
  · exact ((over_filling hr).within _ _).bind fun _ hread => .pure hread

theorem over_entry (hr : r.Over) (start stop : Nat) :
    (entry r start stop).Over fun read => ∀ e, read = .ok e → Proper e.mentions := by
  unfold entry
  refine .behind fun s => .behind fun arrow => ?_
  dsimp only
  split
  · refine (over_item hr start stop).bind fun read hread => .pure ?_
    rintro e ⟨⟩
    exact hread
  · refine .ite (.pure (by rintro _ ⟨⟩)) ((over_item hr _ stop).bind fun value hvalue => ?_)
    refine .ite (.pure ?_) ((over_item hr start _).bind fun key hkey => .pure ?_)
    · rintro e ⟨⟩
      exact hvalue
    · rintro e ⟨⟩
      exact hkey.append hvalue

theorem over_entries (hr : r.Over) (pieces : List (Nat × Nat)) :
    (entries r pieces).Over fun read => Proper (Entry.allMentions read.1) := by
  induction pieces with
  | nil => exact .pure .nil
  | cons piece pieces ih =>
      unfold entries
      refine (over_entry hr piece.1 piece.2).bind fun read hread => ?_
      split
      · exact .pure .nil
      · exact ih.bind fun rest hrest => .pure ((hread _ rfl).append hrest)

theorem over_targets (hr : r.Over) (pieces : List (Nat × Nat)) :
    Over (pieces.mapM fun (start, stop) => within start stop (r.expr false)) fun targets =>
      Proper (Expr.allMentions targets) := by
  induction pieces with
  | nil => exact .pure .nil
  | cons piece pieces ih =>
      rw [List.mapM_cons]
      exact ((hr.expr false).within _ _).bind fun target htarget => ih.bind fun rest hrest =>
        .pure (htarget.append hrest)

theorem overLeaf_tokenLeaf {f : Token → Leaf} (h : ∀ t, Proper (f t).mentions) : OverLeaf (tokenLeaf f) := by
  refine .behind fun next => ?_
  split
  · exact .pure (h _)
  · exact .behind fun _ => .pure .nil

theorem overLeaf_leaf (hr : r.Over) (kind : LeafKind) : OverLeaf (leaf r kind) := by
  cases kind with
  | number => exact overLeaf_tokenLeaf fun _ => .nil
  | simpleString => exact overLeaf_tokenLeaf fun _ => .nil
  | template => exact overLeaf_tokenLeaf (proper_template hr)
  | «variable» => exact overLeaf_variable hr
  | name => exact overLeaf_name
  | array => exact .behind fun pieces => (over_entries hr pieces).bind fun _ hread => .pure hread
  | list => exact .behind fun pieces => (over_targets hr pieces).bind fun _ htargets => .pure htargets
  | closure => exact overLeaf_closure hr
  | construct word =>
      refine .behind fun next => ?_
      split
      · exact .behind fun _ => .pure .nil
      · exact (hr.expr false).bind fun _ hargument => .pure hargument

mutual

/-- A tree whose leaves are read. -/
theorem proper_tree {f : Place → LeafKind → Leaf} (hf : ∀ place kind, Proper (f place kind).mentions) :
    (t : Node) → Proper (Leaf.treeMentions (t.mapLeaves f))
  | .leaf p kind => hf p kind
  | .prefixed _ _ x => proper_tree hf x
  | .postfixed _ _ x => proper_tree hf x
  | .binary _ _ x y => (proper_tree hf x).append (proper_tree hf y)
  | .assign _ _ x y => (proper_tree hf x).append (proper_tree hf y)
  | .ternary _ c x y => (proper_tree hf c).append ((proper_tree hf x).append (proper_tree hf y))
  | .call _ g xs => (proper_tree hf g).append (proper_trees hf xs)
  | .index _ x k => (proper_tree hf x).append (proper_tree hf k)
  | .append _ x => proper_tree hf x

theorem proper_trees {f : Place → LeafKind → Leaf} (hf : ∀ place kind, Proper (f place kind).mentions) :
    (ts : List Node) → Proper (Leaf.treesMentions (Tree.mapAllLeaves f ts))
  | [] => .nil
  | t :: ts => (proper_tree hf t).append (proper_trees hf ts)

end

theorem over_expr (hr : r.Over) (atComma : Bool) : (expr r atComma).Over fun e => Proper e.mentions := by
  unfold expr
  refine .get fun s hs => .ite (.pure .nil) (.behind fun _ => ?_)
  split
  · exact .pure .nil
  · exact .pure .nil
  · rename_i root _
    exact .pure (proper_tree (fun place kind => (overLeaf_leaf hr kind (s.window place.start place.stop) hs).1) root)

end Parse

end StackScript
