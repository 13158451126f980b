/-
A bad expression in front of a script.

Tokens that can only be an expression but have no tree are reported and stepped over, up to and with their
semicolon.  Nothing else comes of them: what follows is read as if it stood alone, and it becomes the same code
and the same messages.
-/
import StackScript.Proofs.Evaluation
import StackScript.Proofs.Likeness.Settings
import StackScript.Proofs.Reading.Script

namespace StackScript

open Gen

/-! ### Up to the semicolon -/

namespace Scan

/-- What is passed over on the way to a token that fits leaves the depth as it is. -/
theorem findAtDepth_first {tokens : Array Token} {change : Token → Int} {p : Token → Int → Bool} {n i j : Nat}
    {depth : Int} (hij : i ≤ j) (hn : j < i + n)
    (hskip : ∀ l, i ≤ l → l < j → ∃ t, tokens[l]? = some t ∧ change t = 0 ∧ p t depth = false)
    (hfit : ∃ t, tokens[j]? = some t ∧ p t depth = true) : findAtDepth tokens change p n i depth = some j := by
  induction n generalizing i with
  | zero => omega
  | succ n ih =>
      rw [findAtDepth]
      by_cases heq : i = j
      · subst heq
        obtain ⟨t, ht, hp⟩ := hfit
        rw [ht]
        exact if_pos hp
      · obtain ⟨t, ht, hchange, hp⟩ := hskip i (Nat.le_refl _) (by omega)
        rw [ht]
        dsimp only
        rw [hp, if_neg Bool.false_ne_true, hchange, Int.add_zero]
        exact ih (by omega) (by omega) fun l hl => hskip l (by omega)

end Scan

/-- Tokens that can only be an expression statement, and that no tree can be built of. -/
structure BadExpression (tokens : List Token) (error : TreeError) : Prop where
  filled : tokens ≠ []
  plain : ∀ t ∈ tokens, t.isAny [.semicolon, .openBrace, .closeBrace] = false
  first : ∀ t, tokens.head? = some t → t.isAny [.keyword, .raw] = false
  tree : Node.build tokens.toArray 0 tokens.length = .error error

theorem Token.keyword?_of_is {t : Token} (h : t.is .keyword = false) : t.keyword? = none := by
  obtain ⟨kind, text, line⟩ := t
  cases kind with
  | keyword word => simp [is, TokenKind.classes] at h
  | _ => rfl

namespace BadExpression

variable {bad rest : List Token} {semicolon : Token} {error : TreeError}

/-- The stream that starts with the bad expression. -/
abbrev stream (bad : List Token) (semicolon : Token) (rest : List Token) : TokenStream :=
  .ofList (bad ++ semicolon :: rest)

theorem get?_stream (i : Nat) (hi : i < bad.length) :
    (bad ++ semicolon :: rest).toArray[i]? = bad.toArray[i]? := by
  simp [List.getElem?_append_left hi]

theorem exprEnd_stream (h : BadExpression bad error) (hsemicolon : semicolon.is .semicolon = true) :
    (stream bad semicolon rest).exprEnd 0 false = bad.length := by
  have found : Scan.semicolon? (bad ++ semicolon :: rest).toArray 0 (bad ++ semicolon :: rest).length =
      some bad.length := by
    refine Scan.findAtDepth_first (Nat.zero_le _) (by simp) (fun l _ hl => ?_) ⟨semicolon, by simp, by simp [hsemicolon]⟩
    refine ⟨bad[l], ?_, ?_⟩
    · rw [get?_stream l hl]
      simp [hl]
    · have := h.plain bad[l] (List.getElem_mem hl)
      simp only [Token.isAny, List.any_cons, List.any_nil, Bool.or_false, Bool.or_eq_false_iff] at this
      simp [Scan.depthChange, Token.isAny, this]
  show ((Scan.semicolon? _ 0 _).getD _) = _
  rw [show (stream bad semicolon rest).tokens = (bad ++ semicolon :: rest).toArray from rfl,
    show (stream bad semicolon rest).stop = (bad ++ semicolon :: rest).length from rfl, found]
  rfl

/-- The expression is rejected, and the cursor is left on the semicolon. -/
theorem run_expr (h : BadExpression bad error) (hsemicolon : semicolon.is .semicolon = true) (r : Readers) :
    (Parse.expr r false).run (stream bad semicolon rest) =
      (.rejected error, (stream bad semicolon rest).setPos bad.length) := by
  have hfilled := List.length_pos_iff.mpr h.filled
  have moved : Scan.Moved 0 bad.length bad.toArray (stream bad semicolon rest).tokens := fun i hi => get?_stream i hi
  have built := Node.build_moved moved hfilled (by simp) (by simp [TokenStream.ofList])
  rw [h.tree, Nat.zero_add, Nat.add_zero] at built
  generalize htree : Node.build (stream bad semicolon rest).tokens 0 bad.length = tree at built
  cases built
  have last : (stream bad semicolon rest).exprEnd (stream bad semicolon rest).pos false = bad.length :=
    h.exprEnd_stream hsemicolon
  unfold Parse.expr
  show (if (stream bad semicolon rest).exprEnd (stream bad semicolon rest).pos false ≤ 0 then _ else _ : Parse Expr).run
    (stream bad semicolon rest) = _
  rw [last, if_neg (by omega)]
  show (Parse.setPos bad.length >>= _ : Parse Expr).run _ = _
  rw [show (stream bad semicolon rest).pos = 0 from rfl, htree]
  rfl

theorem peek_stream {t : Token} (h : bad.head? = some t) : (stream bad semicolon rest).peek = some t := by
  cases bad with
  | nil => cases h
  | cons u bad =>
      cases h
      simp [TokenStream.peek, TokenStream.peekNth, TokenStream.ofList]

/-- Without a reserved word in front, only a function can be declared. -/
theorem run_declarationKind? {s : TokenStream} {t : Token} (h : s.peek = some t) (hword : t.keyword? = none) :
    Parse.declarationKind?.run s = Parse.functionKind?.run s := by
  have peeked : Parse.peek.run s = pure (some t, s) := congrArg (·, s) h
  simp [Parse.declarationKind?, Parse.peekNth, peeked, hword]

/-- What starts with neither a reserved word nor a brace is an expression statement. -/
theorem run_statementOf (h : BadExpression bad error) (hsemicolon : semicolon.is .semicolon = true) (depth : Nat) {t : Token}
    (ht : bad.head? = some t) :
    (Parse.statementOf (Parse.readers (depth + 1)) t).run (stream bad semicolon rest) =
      (.expression (.rejected error), (stream bad semicolon rest).setPos bad.length) := by
  have first := h.first t ht
  have plain := h.plain t (List.mem_of_mem_head? ht)
  simp only [Token.isAny, List.any_cons, List.any_nil, Bool.or_false, Bool.or_eq_false_iff] at first plain
  have word := Token.keyword?_of_is first.1
  have kind : Parse.declarationKind?.run (stream bad semicolon rest) = (none, stream bad semicolon rest) := by
    have peek : (stream bad semicolon rest).peekNth 0 = some t := peek_stream ht
    have offset : Parse.functionOffset?.run (stream bad semicolon rest) = (none, stream bad semicolon rest) := by
      show ((if ((stream bad semicolon rest).peekNth _).any _ = true then _ else _ : Option Nat), _) = _
      simp [TokenStream.peek, peek, Token.isType, Token.isKeyword, word]
    rw [run_declarationKind? peek word]
    show (Parse.functionOffset? >>= _ : Parse (Option DeclarationKind)).run _ = _
    rw [StateT.run_bind, offset]
    rfl
  unfold Parse.statementOf
  rw [if_neg (by simp [first]), if_neg (by simp [plain]), StateT.run_bind, kind, word]
  show (Stmt.expression <$> Parse.expr (Parse.readers depth) false : Parse Stmt).run _ = _
  rw [StateT.run_map, h.run_expr hsemicolon]
  rfl

/-- Only the semicolon is stepped over behind the bad expression. -/
theorem run_skipSemicolons (hsemicolon : semicolon.is .semicolon = true)
    (hrest : ∀ t, rest.head? = some t → t.is .semicolon = false) :
    Parse.skipSemicolons.run ((stream bad semicolon rest).setPos bad.length) =
      ((), (stream bad semicolon rest).setPos (bad.length + 1)) := by
  have start : (stream bad semicolon rest).setPos bad.length =
      ⟨(bad ++ semicolon :: rest).toArray, bad.length, (bad ++ semicolon :: rest).length⟩ := by
    simp [TokenStream.setPos, TokenStream.ofList]
  have here : (⟨(bad ++ semicolon :: rest).toArray, bad.length, (bad ++ semicolon :: rest).length⟩ : TokenStream).peekNth 0 =
      some semicolon := by
    simp [TokenStream.peekNth]
  have next : (⟨(bad ++ semicolon :: rest).toArray, bad.length, (bad ++ semicolon :: rest).length⟩ : TokenStream).peekNth 1 =
      rest.head? := by
    simp only [TokenStream.peekNth, List.length_append, List.length_cons, List.getElem?_toArray]
    cases rest with
    | nil => simp
    | cons t rest => simp
  have remaining : ∃ n, (⟨(bad ++ semicolon :: rest).toArray, bad.length, (bad ++ semicolon :: rest).length⟩ :
      TokenStream).remaining = n + 1 := ⟨rest.length, by simp [TokenStream.remaining]⟩
  obtain ⟨n, hn⟩ := remaining
  have behind : (⟨(bad ++ semicolon :: rest).toArray, bad.length, (bad ++ semicolon :: rest).length⟩ : TokenStream).runLength
      (·.is .semicolon) n 1 = 0 := by
    cases n with
    | zero => rfl
    | succ n =>
        rw [TokenStream.runLength, next]
        cases hhead : rest.head? with
        | none => rfl
        | some t => simp [hrest t hhead]
  rw [start]
  show ((), TokenStream.skipWhile _ _) = _
  rw [TokenStream.skipWhile, hn, TokenStream.runLength, here]
  simp only [hsemicolon, if_true, behind]
  simp [TokenStream.setPos, TokenStream.ofList]

/-- The whole statement: the error, and the cursor behind the semicolon. -/
theorem run_stmt (h : BadExpression bad error) (hsemicolon : semicolon.is .semicolon = true)
    (hrest : ∀ t, rest.head? = some t → t.is .semicolon = false) (depth : Nat) :
    ∃ line, (Parse.readers (depth + 2)).stmt.run (stream bad semicolon rest) =
      (.onLine line (.expression (.rejected error)), (stream bad semicolon rest).setPos (bad.length + 1)) := by
  obtain ⟨t, ht⟩ : ∃ t, bad.head? = some t := by
    cases bad with
    | nil => exact absurd rfl h.filled
    | cons t bad => exact ⟨t, rfl⟩
  refine ⟨t.line, ?_⟩
  have moved : ((stream bad semicolon rest).setPos (bad.length + 1)).pos = bad.length + 1 := by
    simp [TokenStream.setPos, TokenStream.ofList]
  show (Parse.statement (Parse.readers (depth + 1))).run (stream bad semicolon rest) = _
  rw [run_statement (peek_stream ht), StateT.run_bind, h.run_statementOf hsemicolon depth ht]
  show (Parse.skipSemicolons >>= _ : Parse Stmt).run _ = _
  rw [StateT.run_bind, run_skipSemicolons hsemicolon hrest]
  show (if (decide (((stream bad semicolon rest).setPos (bad.length + 1)).pos = 0) && _) = true then _ else _ : Parse Stmt).run
    ((stream bad semicolon rest).setPos (bad.length + 1)) = _
  rw [moved]
  rfl

/-- What is read behind the bad expression is what is read without it. -/
theorem items_isolated (h : BadExpression bad error) (hsemicolon : semicolon.is .semicolon = true)
    (hrest : ∀ t, rest.head? = some t → t.is .semicolon = false) (hfilled : rest ≠ []) {bytes bytes' : Nat}
    (hbytes : Token.extents (bad ++ semicolon :: rest) ≤ bytes + 1) (hbytes' : Token.extents rest ≤ bytes' + 1) :
    ∃ line, Script.items bytes (bad ++ semicolon :: rest) =
      .onLine line (.expression (.rejected error)) :: Script.items bytes' rest := by
  have covered : Token.extents rest ≤ bytes + 1 := Nat.le_trans (Token.extents_sublist (by simp)) hbytes
  obtain ⟨line, hrun⟩ := h.run_stmt hsemicolon hrest (2 * bytes + 2)
  have behind := Script.items_behind (bad ++ [semicolon]) hfilled hbytes' covered
    (show rest.length ≤ bad.length + rest.length by omega)
  have length : (bad ++ semicolon :: rest).length = bad.length + rest.length + 1 := by simp; omega
  have stepped : (stream bad semicolon rest).setPos (bad.length + 1) =
      ⟨(bad ++ [semicolon] ++ rest).toArray, (bad ++ [semicolon]).length, (bad ++ [semicolon] ++ rest).length⟩ := by
    simp [TokenStream.setPos, TokenStream.ofList]
  have started : (stream bad semicolon rest).atEnd = false := by simp [TokenStream.atEnd, TokenStream.ofList]
  refine ⟨line, ?_⟩
  rw [Script.items, length, ← behind, ← stepped]
  show ((if (stream bad semicolon rest).atEnd = true then pure [] else do
    let item ← (Parse.readers (2 * bytes + 2 + 2)).stmt
    return item :: (← Parse.statements (Parse.readers (2 * bytes + 4)) (bad.length + rest.length)) : Parse _).run
      (stream bad semicolon rest)).1 = _
  rw [started, if_neg Bool.false_ne_true, StateT.run_bind, hrun]
  rfl

end BadExpression

/-! ### One message more -/

namespace Reporter

variable {r : Reporter}

/-- What a message that is accepted does. -/
def accept (r : Reporter) (p : Report) : Reporter :=
  (r.send p.problem.severity p.line p.problem.message).tally p.problem.severity

theorem errors_accept (r : Reporter) (p : Report) : (r.accept p).errors = r.errors + p.isError.toNat := by
  unfold accept Report.isError
  cases p.problem.severity <;> rfl

theorem limit_accept (r : Reporter) (p : Report) : (r.accept p).limit = r.limit := limit_tally _ _

/-- Problems that keep the limit are all accepted. -/
theorem reportAll_of_le {ps : List Report} (h : r.errors + ps.countP Report.isError ≤ r.limit) :
    r.reportAll ps = (none, ps.foldl accept r) := by
  induction ps generalizing r with
  | nil => rfl
  | cons p ps ih =>
      rw [List.countP_cons] at h
      have errors := r.errors_accept p
      have accepted : r.report p.problem.severity p.line p.problem.message = (none, r.accept p) := by
        refine if_neg fun ⟨hseverity, hover⟩ => ?_
        have hover : (r.accept p).limit < (r.accept p).errors := hover
        have isError : p.isError = true := by simp [Report.isError, hseverity]
        rw [limit_accept, errors] at hover
        simp only [isError, if_true, Bool.toNat_true] at h hover
        omega
      rw [reportAll, accepted]
      refine ih ?_
      rw [errors, limit_accept]
      cases hp : p.isError <;> simp [hp] at h ⊢ <;> omega

/-- Only problems that keep the limit are all accepted. -/
theorem Faithful.le_limit (h : r.Faithful) {ps : List Report} {q : Reporter} (hr : r.reportAll ps = (none, q)) :
    r.errors + ps.countP Report.isError ≤ r.limit := by
  rcases h.reportAll ps with ⟨q', hr', faithful, hlimit⟩ | ⟨abort, q', hr', -⟩
  · rw [hr] at hr'
    cases hr'
    rw [← errors_reportAll hr, ← hlimit]
    exact faithful.within
  · rw [hr] at hr'
    cases hr'

/-- The same reporter behind one error more. -/
def behind (r : Reporter) (d : Diagnostic) : Reporter := { r with errors := r.errors + 1, seen := d :: r.seen }

theorem accept_behind (d : Diagnostic) (r : Reporter) (p : Report) : (r.behind d).accept p = (r.accept p).behind d := by
  unfold accept
  cases p.problem.severity <;> rfl

theorem foldl_accept_behind (d : Diagnostic) (r : Reporter) (ps : List Report) :
    ps.foldl accept (r.behind d) = (ps.foldl accept r).behind d := by
  induction ps generalizing r with
  | nil => rfl
  | cons p ps ih => rw [List.foldl_cons, List.foldl_cons, accept_behind, ih]

end Reporter

/-! ### The code of what follows -/

namespace Kinship

/-- A rejected expression adds its report and nothing else, apart from the line, which the next statement sets. -/
theorem match_rejected (config : Config) (error : TreeError) (line next : Nat) :
    (identical [⟨error.line, .tree error.fault⟩] []).Match 0
      (after (setLine next) (after (Stmt.onLine line (.expression (.rejected error))).gen (GenState.initial config)))
      (after (setLine next) (GenState.initial config)) := by
  have start : (identical [] []).Match 0 (GenState.initial config) (GenState.initial config) := match_initial rfl rfl rfl rfl
  have reported : after (setLine next) (after (Stmt.onLine line (.expression (.rejected error))).gen (GenState.initial config)) =
      { after (setLine next) (GenState.initial config) with
        reports := [⟨error.line, .tree error.fault⟩], boundaries := [0, 0] } := by
    rfl
  rw [reported]
  exact { start with reports := ⟨[], rfl, rfl⟩, line := rfl }

end Kinship

namespace Config

open Kinship

theorem generate_script {config : Config} (hmode : config.mode = .script) (bytes : Nat) (tokens : List Token) :
    config.generate bytes ⟨tokens, []⟩ = after (Script.statements (Script.items bytes tokens)).gen (GenState.initial config) := by
  unfold generate
  rw [hmode]
  rfl

/-- The report of a bad expression comes first.  Everything else is what the rest comes to alone. -/
theorem generate_isolated {config : Config} (hmode : config.mode = .script) {bad rest : List Token} {semicolon : Token}
    {error : TreeError} (hbad : BadExpression bad error) (hsemicolon : semicolon.is .semicolon = true)
    (hfilled : rest ≠ []) (hrest : ∀ t, rest.head? = some t → t.is .semicolon = false) {bytes bytes' : Nat}
    (hbytes : Token.extents (bad ++ semicolon :: rest) ≤ bytes + 1) (hbytes' : Token.extents rest ≤ bytes' + 1) :
    let joint := config.generate bytes ⟨bad ++ semicolon :: rest, []⟩
    let alone := config.generate bytes' ⟨rest, []⟩
    joint.reports = ⟨error.line, .tree error.fault⟩ :: alone.reports ∧ joint.code = alone.code ∧
      joint.program = alone.program := by
  intro joint alone
  obtain ⟨line, hitems⟩ := hbad.items_isolated hsemicolon hrest hfilled hbytes hbytes'
  obtain ⟨next, body, more, hmore⟩ := Script.items_onLine bytes' hfilled
  let behind : Gen Unit := do
    markBoundary
    body.gen
    markBoundary
    Stmt.genAll more
    settle 0 (some .throw)
    put .done 0 0 .none
  have like : (identical [⟨error.line, .tree error.fault⟩] []).Like true 0 behind :=
    like_markBoundary.bind fun _ => (Stmt.like_gen body 0).bind fun _ => like_markBoundary.bind fun _ =>
      (Stmt.like_genAll more 0).bind fun _ => (like_settle (Nat.le_refl 0) _).bind fun _ => like_put (by decide) _ _ _
  have started : (Stmt.onLine next body).gen = (do
      setLine next
      markBoundary
      body.gen
      markBoundary) := rfl
  have alone_eq : alone = after behind (after (setLine next) (GenState.initial config)) := by
    show config.generate bytes' ⟨rest, []⟩ = _
    rw [generate_script hmode, hmore, Script.gen, Stmt.genAll_cons, started]
    rfl
  have joint_eq : joint = after behind (after (setLine next)
      (after (Stmt.onLine line (.expression (.rejected error))).gen (GenState.initial config))) := by
    show config.generate bytes ⟨bad ++ semicolon :: rest, []⟩ = _
    rw [generate_script hmode, hitems, hmore, Script.gen, Stmt.genAll_cons, Stmt.genAll_cons, started]
    rfl
  have alike := (like _ _ _ _ .refl .refl (fun _ id hid => absurd hid (Nat.not_lt_zero id))
    (match_rejected config error line next)).1.match'
  obtain ⟨rs, hs, ht⟩ := alike.reports
  rw [joint_eq, alone_eq]
  exact ⟨hs.trans (congrArg (_ :: ·) ht.symm), alike.code.eq, alike.program.eq alike.pools⟩

/-- The first outcome is the second one behind one error more, as long as the limit leaves room for it. -/
structure Isolates (config : Config) (error : TreeError) (joint alone : Outcome) : Prop where
  within : ∀ c, alone.result = .ok c → c.errors < config.errorLimit →
    joint = ⟨⟨.error, (Problem.tree error.fault).message, config.file, error.line⟩ :: alone.diagnostics,
      .ok { c with errors := c.errors + 1 }⟩
  exceeded : (∀ c, alone.result = .ok c → config.errorLimit ≤ c.errors) →
    joint.result = .error (.aborted (.errorLimit config.errorLimit))

/-- Delivering one error more. -/
theorem isolates_deliver (config : Config) {error : TreeError} {joint alone : GenState}
    (reports : joint.reports = ⟨error.line, .tree error.fault⟩ :: alone.reports) (code : joint.code = alone.code)
    (program : joint.program = alone.program) :
    config.Isolates error (config.deliver joint) (config.deliver alone) := by
  have code : joint.buffer.code = alone.buffer.code := code
  have count : joint.reports.countP Report.isError = alone.reports.countP Report.isError + 1 := by
    rw [reports, List.countP_cons]
    rfl
  have first : config.reporter.accept ⟨error.line, .tree error.fault⟩ =
      config.reporter.behind ⟨.error, (Problem.tree error.fault).message, config.file, error.line⟩ := rfl
  have limit : config.reporter.limit = config.errorLimit := rfl
  have faithful := config.faithful_reporter
  refine ⟨fun c hc hroom => ?_, fun hfull => ?_⟩
  · unfold deliver at hc ⊢
    cases hr : config.reporter.reportAll alone.reports with
    | mk abort r =>
        rw [hr] at hc
        cases abort with
        | some abort => cases hc
        | none =>
            cases hc
            have counted := Reporter.errors_reportAll hr
            have room : config.reporter.errors + joint.reports.countP Report.isError ≤ config.reporter.limit := by
              dsimp only at hroom
              omega
            rw [Reporter.reportAll_of_le (faithful.le_limit hr)] at hr
            cases hr
            rw [Reporter.reportAll_of_le room, reports, List.foldl_cons, first, Reporter.foldl_accept_behind]
            dsimp only
            rw [code, program]
            rfl
  · unfold deliver at hfull ⊢
    rcases faithful.reportAll joint.reports with ⟨q, hq, -⟩ | ⟨abort, q, hq, gives⟩
    · have within := faithful.le_limit hq
      have room : config.reporter.errors + alone.reports.countP Report.isError ≤ config.reporter.limit := by omega
      have hr := Reporter.reportAll_of_le room
      have counted := Reporter.errors_reportAll hr
      rw [hr] at hfull
      have := hfull _ rfl
      dsimp only at this
      omega
    · rw [hq, gives.abort]
      rfl

/-- A bad expression statement in front of a script is reported and changes nothing else.  The tokens hold no
semicolon and no brace, start with neither a reserved word nor raw text, and no tree can be built of them; a
semicolon ends them, and the script behind it does not start with another one.  As long as the limit leaves room
for one error more, the outcome is that of the script alone with the error in front of its messages and counted;
otherwise it is the error limit that ends the compilation.  How long the sources are does not matter, if only they
have room for the tokens. -/
theorem bad_expression_isolated (config : Config) (hmode : config.mode = .script) {bad rest : List Token}
    {semicolon : Token} {error : TreeError} (hbad : BadExpression bad error) (hsemicolon : semicolon.is .semicolon = true)
    (hfilled : rest ≠ []) (hrest : ∀ t, rest.head? = some t → t.is .semicolon = false) {bytes bytes' : Nat}
    (hbytes : Token.extents (bad ++ semicolon :: rest) ≤ bytes + 1) (hbytes' : Token.extents rest ≤ bytes' + 1) :
    config.Isolates error (config.deliver (config.generate bytes ⟨bad ++ semicolon :: rest, []⟩))
      (config.deliver (config.generate bytes' ⟨rest, []⟩)) := by
  obtain ⟨reports, code, program⟩ := generate_isolated hmode hbad hsemicolon hfilled hrest hbytes hbytes'
  exact config.isolates_deliver reports code program

/-- Two numbers in a row in front of an assignment. -/
theorem bad_expression_isolated_numbers :
    let bad : List Token := [⟨.integer, "1", 1⟩, ⟨.integer, "2", 1⟩]
    let semicolon : Token := ⟨.semicolon, ";", 1⟩
    let rest : List Token := [⟨.dollar, "$", 1⟩, ⟨.name, "a", 1⟩, ⟨.equals, "=", 1⟩, ⟨.integer, "3", 1⟩]
    let config : Config := {}
    let alone := config.deliver (config.generate 6 ⟨rest, []⟩)
    ∃ c, alone.result = .ok c ∧ c.program.main.size = 4 ∧
      config.deliver (config.generate 11 ⟨bad ++ semicolon :: rest, []⟩) =
        ⟨⟨.error, "Syntax error: Unexpected token '2'", none, 1⟩ :: alone.diagnostics, .ok { c with errors := 1 }⟩ := by
  intro bad semicolon rest config alone
  have tree : Node.build #[⟨.integer, "1", 1⟩, ⟨.integer, "2", 1⟩] 0 2 = .error ⟨1, .unexpectedToken "2"⟩ := by
    with_unfolding_all rfl
  have hbad : BadExpression bad ⟨1, .unexpectedToken "2"⟩ := ⟨by simp [bad], by decide, by decide, tree⟩
  have small : alone.result.toOption.any (fun c => c.errors == 0 && c.program.main.size == 4) = true := by
    decide +kernel
  have isolated := bad_expression_isolated config rfl hbad (show semicolon.is .semicolon = true by decide)
    (show rest ≠ [] by simp [rest]) (by decide) (show Token.extents (bad ++ semicolon :: rest) ≤ 11 + 1 by decide)
    (show Token.extents rest ≤ 6 + 1 by decide)
  cases hc : alone.result with
  | error failure =>
      rw [hc] at small
      cases small
  | ok c =>
      rw [hc] at small
      simp only [Except.toOption, Option.any_some, Bool.and_eq_true, beq_iff_eq] at small
      obtain ⟨errors, size⟩ := small
      have outcome := isolated.within c hc (by rw [errors]; decide)
      rw [errors] at outcome
      exact ⟨c, rfl, size, outcome⟩

/-- Two sources of which one holds a bad expression statement in front of the tokens of the other. -/
theorem compile_isolated {config : Config} (hmode : config.mode = .script) {source source' : String}
    {bad rest : List Token} {semicolon : Token} {error : TreeError} (hbad : BadExpression bad error)
    (hsemicolon : semicolon.is .semicolon = true) (hfilled : rest ≠ [])
    (hrest : ∀ t, rest.head? = some t → t.is .semicolon = false)
    (hread : config.tokens? source = some ⟨bad ++ semicolon :: rest, []⟩) (hread' : config.tokens? source' = some ⟨rest, []⟩) :
    config.Isolates error (config.compile source) (config.compile source') := by
  obtain ⟨reports, code, program⟩ := generate_isolated hmode hbad hsemicolon hfilled hrest
    (extents_tokens? hread) (extents_tokens? hread')
  rw [compile_eq hread, compile_eq hread']
  exact config.isolates_deliver reports code program

end Config

end StackScript
