/-
Delivering problems to the author.

Problems are passed on in order until the error limit is exceeded, so what has been passed on and what has
been counted always agree, and a compilation fails in one way only: by the error behind the last one that
the limit accepts.  A larger limit changes nothing before that error.
-/
import StackScript.Proofs.Run.Compilation

namespace StackScript

/-- No problem is reported as an outdated use. -/
theorem Problem.severity_ne_deprecated (problem : Problem) : problem.severity ≠ .deprecated := by
  unfold severity
  split <;> simp

namespace Diagnostics

theorem count_report (ds : Diagnostics) (d : Diagnostic) (severity : Severity) :
    (ds.report d).count severity = ds.count severity + if d.severity = severity then 1 else 0 := by
  unfold count ofSeverity report
  rw [List.filter_append, List.length_append]
  by_cases h : d.severity = severity
  · simp [h]
  · simp [h]

end Diagnostics

namespace Reporter

/-- The messages passed on so far. -/
def sent (r : Reporter) : Diagnostics := ⟨r.seen⟩

theorem sent_send (r : Reporter) (severity : Severity) (line : Nat) (message : String) :
    (r.send severity line message).sent = r.sent.report ⟨severity, message, r.file, line⟩ := rfl

theorem seen_tally (r : Reporter) (severity : Severity) : (r.tally severity).seen = r.seen := by
  cases severity <;> rfl

theorem file_tally (r : Reporter) (severity : Severity) : (r.tally severity).file = r.file := by
  cases severity <;> rfl

theorem limit_tally (r : Reporter) (severity : Severity) : (r.tally severity).limit = r.limit := by
  cases severity <;> rfl

/-- What was counted is what was passed on, and the limit is kept. -/
structure Faithful (r : Reporter) : Prop where
  errors : r.sent.count .error = r.errors
  warnings : r.sent.count .warning = r.warnings
  notices : r.sent.count .notice = r.notices
  within : r.errors ≤ r.limit

/-- A reporter gives up: the error that exceeds the limit is the last message but one, and the last one,
on the same line, says so. -/
structure GivesUp (r r' : Reporter) (abort : Abort) : Prop where
  abort : abort = .errorLimit r.limit
  errors : r'.sent.count .error = r.limit + 2
  last : ∃ front d, r'.seen =
    front ++ [d, ⟨.error, limitMessage (r.limit + 1), r.file, d.line⟩]

variable {r r' : Reporter} {severity : Severity} {line : Nat} {message : String}

/-- Counting what is passed on. -/
theorem Faithful.counts (h : r.Faithful) (hs : severity ≠ .deprecated) (line : Nat) (message : String) :
    let r' := (r.send severity line message).tally severity
    r'.sent.count .error = r'.errors ∧ r'.sent.count .warning = r'.warnings ∧
      r'.sent.count .notice = r'.notices := by
  intro r'
  have sent : r'.sent = r.sent.report ⟨severity, message, r.file, line⟩ := by
    unfold Reporter.sent
    rw [seen_tally]
    rfl
  rw [sent, Diagnostics.count_report, Diagnostics.count_report, Diagnostics.count_report, h.errors,
    h.warnings, h.notices]
  cases severity with
  | error | warning | notice => exact ⟨rfl, rfl, rfl⟩
  | deprecated => exact absurd rfl hs

theorem Faithful.report (h : r.Faithful) (hs : severity ≠ .deprecated)
    (hr : r.report severity line message = (none, r')) :
    r'.Faithful ∧ r'.file = r.file ∧ r'.limit = r.limit := by
  obtain ⟨errors, warnings, notices⟩ := h.counts hs line message
  unfold Reporter.report at hr
  dsimp only at hr
  split at hr
  · cases hr
  · rename_i hle
    cases hr
    refine ⟨⟨errors, warnings, notices, ?_⟩, file_tally _ _, limit_tally _ _⟩
    rw [limit_tally]
    have within := h.within
    by_cases he : severity = .error
    · rw [not_and, limit_tally] at hle
      exact Nat.le_of_not_lt (hle he)
    · cases severity with
      | error => exact absurd rfl he
      | warning | notice | deprecated => exact within

theorem Faithful.givesUp (h : r.Faithful) (hs : severity ≠ .deprecated) {abort : Abort}
    (hr : r.report severity line message = (some abort, r')) : r.GivesUp r' abort := by
  obtain ⟨errors, -, -⟩ := h.counts hs line message
  unfold Reporter.report at hr
  dsimp only at hr
  split at hr
  · rename_i hover
    obtain ⟨rfl, hover⟩ := hover
    cases hr
    -- The limit was not exceeded before this error.
    have count : ((r.send .error line message).tally .error).errors = r.limit + 1 := by
      have within := h.within
      have beyond : r.limit < r.errors + 1 := hover
      show r.errors + 1 = r.limit + 1
      omega
    refine ⟨rfl, ?_, r.seen, ⟨.error, message, r.file, line⟩, ?_⟩
    · rw [sent_send, Diagnostics.count_report, errors, count]
      rfl
    · rw [count]
      simp [send, tally]
  · cases hr

theorem GivesUp.congr {q : Reporter} {abort : Abort} (h : r.GivesUp r' abort) (hf : r.file = q.file)
    (hl : r.limit = q.limit) : q.GivesUp r' abort where
  abort := hl ▸ h.abort
  errors := hl ▸ h.errors
  last := by
    rw [← hf, ← hl]
    exact h.last

/-- Delivering problems keeps what was passed on and what was counted in step, to the end or to the error
that exceeds the limit. -/
theorem Faithful.reportAll (h : r.Faithful) (ps : List Report) :
    (∃ r', r.reportAll ps = (none, r') ∧ r'.Faithful ∧ r'.limit = r.limit) ∨
      ∃ abort r', r.reportAll ps = (some abort, r') ∧ r.GivesUp r' abort := by
  induction ps generalizing r with
  | nil => exact .inl ⟨r, rfl, h, rfl⟩
  | cons p ps ih =>
      have hs := p.problem.severity_ne_deprecated
      rw [Reporter.reportAll]
      split
      · rename_i abort r₁ hr
        exact .inr ⟨abort, r₁, rfl, h.givesUp hs hr⟩
      · rename_i r₁ hr
        obtain ⟨faithful, hf, hl⟩ := h.report hs hr
        rcases ih faithful with ⟨r', hr', h', hl'⟩ | ⟨abort, r', hr', h'⟩
        · exact .inl ⟨r', hr', h', hl'.trans hl⟩
        · exact .inr ⟨abort, r', hr', h'.congr hf hl⟩

/-! ### Another limit -/

/-- The same reporter with another limit. -/
def withLimit (r : Reporter) (limit : Nat) : Reporter := { r with limit := limit }

/-- A message that is accepted is accepted under a larger limit too. -/
theorem report_withLimit {limit : Nat} (hl : r.limit ≤ limit)
    (hr : r.report severity line message = (none, r')) :
    (r.withLimit limit).report severity line message = (none, r'.withLimit limit) ∧ r'.limit = r.limit := by
  unfold Reporter.report at hr ⊢
  dsimp only at hr ⊢
  split at hr
  · cases hr
  · rename_i hle
    cases hr
    have same : ((r.withLimit limit).send severity line message).tally severity =
        ((r.send severity line message).tally severity).withLimit limit := by
      cases severity <;> rfl
    rw [same, if_neg]
    · exact ⟨rfl, limit_tally _ _⟩
    · rintro ⟨he, hover⟩
      refine hle ⟨he, ?_⟩
      rw [limit_tally]
      exact Nat.lt_of_le_of_lt hl hover

/-- Messages that have been passed on stay. -/
theorem seen_report (r : Reporter) (severity : Severity) (line : Nat) (message : String) :
    r.seen ++ [⟨severity, message, r.file, line⟩] <+: (r.report severity line message).2.seen := by
  unfold Reporter.report
  dsimp only
  split
  · refine List.IsPrefix.trans ?_ (List.prefix_append _ _)
    rw [seen_tally]
    exact List.prefix_rfl
  · rw [seen_tally]
    exact List.prefix_rfl

theorem seen_reportAll (r : Reporter) (ps : List Report) : r.seen <+: (r.reportAll ps).2.seen := by
  induction ps generalizing r with
  | nil => exact List.prefix_rfl
  | cons p ps ih =>
      have first := (List.prefix_append _ _).trans
        (r.seen_report p.problem.severity p.line p.problem.message)
      rw [Reporter.reportAll]
      split
      · rename_i hr
        rw [hr] at first
        exact first
      · rename_i r₁ hr
        rw [hr] at first
        exact first.trans (ih r₁)

/-- What is passed on up to a limit is passed on under a larger limit. -/
theorem reportAll_withLimit {limit : Nat} (ps : List Report) (hl : r.limit ≤ limit) :
    (∀ r', r.reportAll ps = (none, r') → (r.withLimit limit).reportAll ps = (none, r'.withLimit limit)) ∧
      ∀ abort r', r.reportAll ps = (some abort, r') →
        r'.seen.dropLast <+: ((r.withLimit limit).reportAll ps).2.seen := by
  induction ps generalizing r with
  | nil => exact ⟨fun r' h => by cases h; rfl, fun _ _ h => by cases h⟩
  | cons p ps ih =>
      rw [Reporter.reportAll]
      split
      · rename_i abort r₁ hr
        refine ⟨fun _ h => by simp at h, fun _ _ h => ?_⟩
        cases h
        -- Only the last message says that the limit is exceeded.
        have front : r₁.seen.dropLast = r.seen ++ [⟨p.problem.severity, p.problem.message, r.file, p.line⟩] := by
          unfold Reporter.report at hr
          dsimp only at hr
          split at hr
          · cases hr
            rw [send, List.dropLast_concat, seen_tally]
            rfl
          · cases hr
        rw [front]
        refine ((r.withLimit limit).seen_report p.problem.severity p.line p.problem.message).trans ?_
        rw [Reporter.reportAll]
        split
        · rename_i hr'
          simp only [hr', List.prefix_rfl]
        · rename_i r₂ hr'
          rw [hr']
          exact r₂.seen_reportAll ps
      · rename_i r₁ hr
        obtain ⟨hr', hl'⟩ := report_withLimit hl hr
        have step : (r.withLimit limit).reportAll (p :: ps) = (r₁.withLimit limit).reportAll ps := by
          rw [Reporter.reportAll, hr']
        rw [step]
        exact ih (hl' ▸ hl)

end Reporter

namespace Compilation

end Compilation

namespace Config

theorem faithful_reporter (config : Config) : config.reporter.Faithful :=
  ⟨rfl, rfl, rfl, Nat.zero_le _⟩

/-- A compilation whose problems all keep the limit. -/
theorem compile_complete {config : Config} {source : String} {read : Tokens} {r : Reporter}
    (hread : config.tokens? source = some read)
    (hr : config.reporter.reportAll (config.generate source.utf8ByteSize read).reports = (none, r)) :
    config.compile source = ⟨r.seen, .ok ⟨{ (config.generate source.utf8ByteSize read).program with
      main := (config.generate source.utf8ByteSize read).code }, r.errors, r.warnings, r.notices⟩⟩ := by
  unfold compile
  rw [hread]
  dsimp only
  rw [hr]

/-- A compilation with a problem too many. -/
theorem compile_aborted {config : Config} {source : String} {read : Tokens} {abort : Abort} {r : Reporter}
    (hread : config.tokens? source = some read)
    (hr : config.reporter.reportAll (config.generate source.utf8ByteSize read).reports = (some abort, r)) :
    config.compile source = ⟨r.seen, .error (.aborted abort)⟩ := by
  unfold compile
  rw [hread]
  dsimp only
  rw [hr]

/-- A document with a tag that cannot be read. -/
theorem compile_unreadable {config : Config} {source : String} (hread : config.tokens? source = none) :
    config.compile source = ⟨[], .error .unreadableTag⟩ := by
  unfold compile
  rw [hread]

end Config

end StackScript
