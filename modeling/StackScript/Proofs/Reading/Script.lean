/-
Whole scripts, read.

Every script that is read from tokens meets what reading ensures.  What is read behind some tokens is what is
read without them, and how many rounds are granted does not matter once there is one for every token.
-/
import StackScript.Proofs.Reading.Readers

namespace StackScript

open Parse

namespace Passage

variable {W : Passage} {first pos : Nat} {r r' : Readers}

theorem reads_statements (h : W.Agree first r r') (n : Nat) (hpos : first ≤ pos) :
    W.Reads pos (fun ss _ => Stmt.allMeet .read ss = true) (statements r n) (statements r' n) := by
  induction n generalizing pos with
  | zero => exact .pure ⟨rfl, rfl⟩
  | succ n ih =>
      unfold statements
      refine reads_atEnd.bind fun b e met => ?_
      obtain ⟨he, _⟩ := met
      subst he
      split
      · exact .pure ⟨rfl, rfl⟩
      · refine (h.stmt (.refl W) hpos).bind fun item e₁ met => ?_
        obtain ⟨hitem, h₁⟩ := met
        refine (ih (Nat.le_trans hpos h₁)).bind fun items e₂ hitems => .pure ⟨rfl, ?_⟩
        exact Bool.and_eq_true_iff.mpr ⟨hitem, hitems⟩

theorem reads_source (h : W.Agree 0 r r') (mode : Mode) :
    W.Reads 0 (fun s _ => s.meets .read = true) (source r mode) (source r' mode) := by
  unfold source
  cases mode with
  | script =>
      refine .get ?_
      rw [remaining_far]
      exact (reads_statements h _ (Nat.le_refl _)).bind fun _ _ hitems => .pure ⟨rfl, hitems⟩
  | declarations =>
      refine (h.scope (.refl W) (Nat.le_refl _)).bind fun _ _ met => ?_
      obtain ⟨hitems, _⟩ := met
      exact .pure ⟨rfl, hitems⟩
  | expression =>
      refine (h.expr (.refl W) false (Nat.le_refl _)).bind fun x e met => reads_skipSemicolons.bind fun _ e₁ h₁ => ?_
      obtain ⟨hx, _⟩ := met
      exact reads_peek.bind fun t _ _ => .pure ⟨rfl, hx⟩

/-! ### Rounds -/

/-- A statement takes at least one token, so no more rounds are needed than there are tokens. -/
theorem statements_rounds (hW : W.Unmoved) (depth : Nat) {n k : Nat} (hn : W.stop - pos ≤ n)
    (hk : W.stop - pos ≤ k) :
    (statements (readers (depth + 1)) n).run (W.near pos) = (statements (readers (depth + 1)) k).run (W.near pos) := by
  induction n generalizing k pos with
  | zero =>
      cases k with
      | zero => rfl
      | succ k =>
          have hend : (W.near pos).atEnd = true := decide_eq_true (by show W.stop ≤ pos; omega)
          show _ = (if (W.near pos).atEnd = true then pure [] else _ : Parse _).run (W.near pos)
          rw [if_pos hend]
          rfl
  | succ n ih =>
      have round (k : Nat) : (statements (readers (depth + 1)) (k + 1)).run (W.near pos) =
          (if (W.near pos).atEnd = true then pure [] else do
            let item ← (readers (depth + 1)).stmt
            return item :: (← statements (readers (depth + 1)) k) : Parse _).run (W.near pos) := rfl
      by_cases hend : (W.near pos).atEnd = true
      · rw [round, if_pos hend]
        cases k with
        | zero => rfl
        | succ k => rw [round, if_pos hend]
      · have hlt : pos < W.stop := Nat.lt_of_not_le fun hle => hend (decide_eq_true hle)
        obtain ⟨k, rfl⟩ : ∃ m, k = m + 1 := ⟨k - 1, by omega⟩
        have self := agree_self depth hW
        obtain ⟨item, _, e, ⟨-, -, -, hprogress⟩, hnear, -⟩ :=
          reads_statement (self.mono (Nat.zero_le (pos + 1))) (self.expr (.refl W) false (Nat.zero_le pos))
        have := hprogress hlt
        have rest := ih (show W.stop - e ≤ n by omega) (show W.stop - e ≤ k by omega)
        have step (m : Nat) : (do
            let item ← (readers (depth + 1)).stmt
            return item :: (← statements (readers (depth + 1)) m) : Parse _).run (W.near pos) =
            (do return item :: (← statements (readers (depth + 1)) m) : Parse _).run (W.near e) := by
          rw [StateT.run_bind]
          show (_ : Id _) >>= _ = _
          rw [show (readers (depth + 1)).stmt.run (W.near pos) = _ from hnear]
          rfl
        rw [round, if_neg hend, step, round, if_neg hend, step, StateT.run_bind, StateT.run_bind, rest]

end Passage

/-- Whatever the tokens are and however deep the readers look, the script meets what reading ensures. -/
theorem Script.read_meets (mode : Mode) (bytes : Nat) (tokens : List Token) :
    (Script.read mode bytes tokens).meets .read = true := by
  obtain ⟨script, _, e, ⟨-, meets⟩, hnear, -⟩ :=
    Passage.reads_source (Passage.agree_self (W := .alone tokens) (depthBound bytes) ⟨rfl, rfl⟩) mode
  rw [Passage.near_alone] at hnear
  unfold Script.read
  rwa [hnear]

/-- The statements of a list of tokens. -/
def Script.items (bytes : Nat) (tokens : List Token) : List Stmt :=
  ((Parse.statements (readers (depthBound bytes)) tokens.length).run (TokenStream.ofList tokens)).1

/-- A statement that starts with token `t`. -/
theorem run_statement {s : TokenStream} {t : Token} (h : s.peek = some t) (r : Readers) :
    (statement r).run s = (do
      let body ← statementOf r t
      Parse.skipSemicolons
      if (← Parse.pos) = s.pos && !(← Parse.atEnd) then
        Parse.advance
        return .onLine t.line (.sequence [body, .report ⟨t.line, .misplacedToken t.text⟩])
      else return .onLine t.line body : Parse Stmt).run s := by
  have peeked : Parse.peek.run s = (some t, s) := congrArg (·, s) h
  unfold statement
  rw [StateT.run_bind, peeked]
  rfl

/-- Every statement starts on the line of its first token. -/
theorem Script.items_onLine (bytes : Nat) {tokens : List Token} (hfilled : tokens ≠ []) :
    ∃ line body rest, Script.items bytes tokens = .onLine line body :: rest := by
  obtain ⟨t, ts, rfl⟩ := List.exists_cons_of_ne_nil hfilled
  have peek : (TokenStream.ofList (t :: ts)).peek = some t := by
    simp [TokenStream.peek, TokenStream.peekNth, TokenStream.ofList]
  have started : (TokenStream.ofList (t :: ts)).atEnd = false := by simp [TokenStream.atEnd, TokenStream.ofList]
  have item (r : Readers) : ∃ body, ((statement r).run (TokenStream.ofList (t :: ts))).1 = .onLine t.line body := by
    rw [run_statement peek, StateT.run_bind]
    generalize (statementOf r t).run (TokenStream.ofList (t :: ts)) = made
    obtain ⟨body, s⟩ := made
    have either (b : Bool) (s : TokenStream) : ∃ content, ((if b = true then do
          Parse.advance
          return .onLine t.line (.sequence [body, .report ⟨t.line, .misplacedToken t.text⟩])
        else return .onLine t.line body : Parse Stmt).run s).1 = .onLine t.line content := by
      cases b with
      | true => exact ⟨_, rfl⟩
      | false => exact ⟨body, rfl⟩
    exact either _ _
  obtain ⟨body, hbody⟩ := item (readers (2 * bytes + 3))
  have round : Script.items bytes (t :: ts) = ((do
      let item ← statement (readers (2 * bytes + 3))
      return item :: (← Parse.statements (readers (2 * bytes + 4)) ts.length) : Parse _).run
        (TokenStream.ofList (t :: ts))).1 := by
    show ((if (TokenStream.ofList (t :: ts)).atEnd = true then pure [] else _ : Parse _).run _).1 = _
    rw [started, if_neg Bool.false_ne_true]
    rfl
  rw [round, StateT.run_bind]
  generalize (statement (readers (2 * bytes + 3))).run (TokenStream.ofList (t :: ts)) = made at hbody
  obtain ⟨item, s⟩ := made
  exact ⟨t.line, body, _, congrArg (· :: _) hbody⟩

/-- The statements of a list of tokens that is read behind others, with bounds that are large for it. -/
theorem Script.items_behind {bytes bytes' rounds : Nat} (before : List Token) {tokens : List Token} (hfilled : tokens ≠ [])
    (hbytes : Token.extents tokens ≤ bytes + 1) (hbytes' : Token.extents tokens ≤ bytes' + 1) (hrounds : tokens.length ≤ rounds) :
    ((Parse.statements (readers (depthBound bytes')) rounds).run
        ⟨(before ++ tokens).toArray, before.length, (before ++ tokens).length⟩).1 = Script.items bytes tokens := by
  have hpos : 0 < tokens.length := List.length_pos_iff.mpr hfilled
  let W : Passage := .behind before tokens hpos
  have extent : W.extent 0 = Token.extents tokens := by simp [W, Passage.behind, Passage.extent, Passage.ahead]
  have agree : W.Agree 0 (readers (depthBound bytes)) (readers (depthBound bytes')) := by
    refine Passage.agree_deep _ _ ?_ ?_ <;> unfold depthBound <;> omega
  obtain ⟨items, items', e, ⟨same, -⟩, hnear, hfar⟩ := Passage.reads_statements agree rounds (Nat.le_refl 0)
  have far : W.far 0 = ⟨(before ++ tokens).toArray, before.length, (before ++ tokens).length⟩ := by
    simp [W, Passage.far, Passage.behind, Nat.add_comm]
  have rounds : (Parse.statements (readers (depthBound bytes)) rounds).run (W.near 0) =
      (Parse.statements (readers (depthBound bytes)) tokens.length).run (TokenStream.ofList tokens) :=
    Passage.statements_rounds (W := .alone tokens) ⟨rfl, rfl⟩ _ (show tokens.length - 0 ≤ rounds from hrounds)
      (Nat.le_refl tokens.length)
  rw [← far, hfar, same]
  unfold Script.items
  rw [← rounds, hnear]

end StackScript
