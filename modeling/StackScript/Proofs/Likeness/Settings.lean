/-
Settings that change one thing only.

The error limit decides how far the problems of a source are delivered, and nothing about the problems
themselves or the program.  The sharing threshold decides which constants share a slot, and nothing else:
problem for problem and instruction for instruction two compilations agree, and where a constant is loaded
it is the same constant.
-/
import StackScript.Proofs.Delivery
import StackScript.Proofs.Evaluation
import StackScript.Proofs.Likeness.Script

namespace StackScript

open Gen

namespace Kinship

/-- Compilations that share everything but the problems reported before. -/
def identical (before before' : List Report) : Kinship where
  before := before
  before' := before'
  pools := Eq
  slots := fun _ _ i j => i = j
  grow := fun _ _ h => h
  reserved := fun _ _ => rfl
  add := by
    rintro p q add - rfl
    exact ⟨rfl, rfl⟩

/-- Compilations whose constants stand in any slots. -/
def sameConstants : Kinship where
  before := []
  before' := []
  pools := fun p q => ∃ m n, (ConstantPool.empty m).Grows p ∧ (ConstantPool.empty n).Grows q
  slots := fun p q i j => ∃ c, p.get? i = some c ∧ q.get? j = some c
  grow := by
    rintro p p' q q' i j hp hq ⟨c, hi, hj⟩
    exact ⟨c, hp.get? hi, hq.get? hj⟩
  reserved := by
    rintro p q slot ⟨m, n, hp, hq⟩ hslot
    have there : ∃ c, ∀ k, (ConstantPool.empty k).get? slot = some c := by
      match slot, hslot with
      | 0, _ => exact ⟨.null, fun _ => rfl⟩
      | 1, _ => exact ⟨.bool true, fun _ => rfl⟩
      | 2, _ => exact ⟨.bool false, fun _ => rfl⟩
    obtain ⟨c, hc⟩ := there
    exact ⟨c, hp.get? (hc m), hq.get? (hc n)⟩
  add := by
    rintro p q add hadd ⟨m, n, hp, hq⟩
    refine ⟨⟨m, n, hp.trans (hadd.grows p), hq.trans (hadd.grows q)⟩, ?_⟩
    have hp' := hp.literal (ConstantPool.literal_empty m)
    have hq' := hq.literal (ConstantPool.literal_empty n)
    cases hadd with
    | int v => exact ⟨.int v, ConstantPool.get?_intern hp' trivial, ConstantPool.get?_intern hq' trivial⟩
    | real text =>
        have literal := Binary64.isLiteral_ofDecimal
        exact ⟨.real (readReal text), ConstantPool.get?_intern hp' (literal _ _),
          ConstantPool.get?_intern hq' (literal _ _)⟩
    | string text => exact ⟨.string text, ConstantPool.get?_addString hp' text, ConstantPool.get?_addString hq' text⟩
    | own text =>
        refine ⟨.string text, ?_, ?_⟩
        · show (p.push (.string text) false).2.get? p.size = _
          rw [ConstantPool.get?_push, if_pos rfl]
        · show (q.push (.string text) false).2.get? q.size = _
          rw [ConstantPool.get?_push, if_pos rfl]

/-- Before the first step, compilations with one file match. -/
theorem match_initial {K : Kinship} (hbefore : K.before = []) (hbefore' : K.before' = []) {config config' : Config}
    (hfile : config.file = config'.file)
    (hpools : K.pools (ConstantPool.empty config.cacheThreshold) (ConstantPool.empty config'.cacheThreshold)) :
    K.Match 0 (GenState.initial config) (GenState.initial config') where
  fileLabel := by
    show config.fileLabel = config'.fileLabel
    unfold Config.fileLabel
    rw [hfile]
  dirLabel := by
    show config.dirLabel = config'.dirLabel
    unfold Config.dirLabel
    rw [hfile]
  reports := ⟨[], by rw [hbefore]; rfl, by rw [hbefore']; rfl⟩
  line := rfl
  code := .empty
  blocks := rfl
  stack := Nat.zero_lt_one
  within := Nat.zero_le _
  waiting := fun id b _ hb i hi => by
    have hid : id < 1 := (Array.getElem?_eq_some_iff.mp hb).1
    obtain rfl : id = 0 := by omega
    cases hb
    rcases hi with ⟨j, hj, -⟩ | hi
    · cases hj
    · cases hi
  pools := hpools
  program := ⟨.empty, .nil, .nil, .nil, .nil, rfl, .nil, rfl, .nil⟩
  statics := .nil
  closures := rfl
  namespaceNoted := rfl

/-- What two compilations of one source come to. -/
theorem match_generate {K : Kinship} (config config' : Config) (hmode : config.mode = config'.mode)
    (h : K.Match 0 (GenState.initial config) (GenState.initial config')) (bytes : Nat) (read : Tokens) :
    K.Match 0 (config.generate bytes read) (config'.generate bytes read) := by
  have steps : K.Like true 0 (do
      reportAll (lexReports read.errors)
      (Script.read config.mode bytes read.tokens).gen) :=
    (like_reportAll _).bind fun _ => Script.like_gen _
  have made := (steps _ _ _ _ .refl .refl (fun _ id hid => absurd hid (Nat.not_lt_zero id)) h).1.match'
  unfold Config.generate
  rw [← hmode]
  exact made

end Kinship

namespace Config

open Kinship

/-- Nothing that is generated depends on the error limit. -/
theorem generate_withLimit (config : Config) (limit bytes : Nat) (read : Tokens) :
    ({ config with errorLimit := limit }.generate bytes read).reports = (config.generate bytes read).reports ∧
      ({ config with errorLimit := limit }.generate bytes read).code = (config.generate bytes read).code ∧
      ({ config with errorLimit := limit }.generate bytes read).program = (config.generate bytes read).program := by
  have alike : (identical [] []).Match 0 ({ config with errorLimit := limit }.generate bytes read)
      (config.generate bytes read) :=
    match_generate { config with errorLimit := limit } config rfl (match_initial rfl rfl rfl rfl) bytes read
  obtain ⟨rs, hs, ht⟩ := alike.reports
  exact ⟨hs.trans ht.symm, alike.code.eq, alike.program.eq alike.pools⟩

theorem tokens?_withLimit (config : Config) (limit : Nat) (source : String) :
    { config with errorLimit := limit }.tokens? source = config.tokens? source := rfl

/-- The error limit only cuts a compilation short.  One that succeeds has the same outcome under a larger
limit, and one that does not has passed on the first messages of the outcome under a larger limit, followed
by nothing but the message that says why it stops. -/
theorem larger_limit_extends (config : Config) (limit : Nat) (hlimit : config.errorLimit ≤ limit)
    (source : String) :
    (∀ c, (config.compile source).result = .ok c →
      { config with errorLimit := limit }.compile source = config.compile source) ∧
    ∀ failure, (config.compile source).result = .error failure →
      (config.compile source).diagnostics.dropLast <+:
        ({ config with errorLimit := limit }.compile source).diagnostics := by
  have larger := tokens?_withLimit config limit source
  cases hread : config.tokens? source with
  | none =>
      rw [compile_unreadable hread, compile_unreadable (larger.trans hread)]
      exact ⟨fun _ _ => rfl, fun _ _ => List.prefix_rfl⟩
  | some read =>
      obtain ⟨reports, code, program⟩ := config.generate_withLimit limit source.utf8ByteSize read
      obtain ⟨complete, aborted⟩ := Reporter.reportAll_withLimit (r := config.reporter)
        (config.generate source.utf8ByteSize read).reports hlimit
      have deliver : { config with errorLimit := limit }.reporter.reportAll
          ({ config with errorLimit := limit }.generate source.utf8ByteSize read).reports =
          (config.reporter.withLimit limit).reportAll (config.generate source.utf8ByteSize read).reports := by
        rw [reports]
        rfl
      cases hr : config.reporter.reportAll (config.generate source.utf8ByteSize read).reports with
      | mk abort r =>
          cases abort with
          | none =>
              have hr' := deliver.trans (complete r hr)
              rw [compile_complete hread hr, compile_complete (larger.trans hread) hr', code, program]
              exact ⟨fun _ _ => rfl, fun _ h => nomatch h⟩
          | some abort =>
              have front := aborted abort r hr
              rw [← deliver] at front
              rw [compile_aborted hread hr]
              refine ⟨fun _ h => (nomatch h), fun _ _ => ?_⟩
              cases hr' : { config with errorLimit := limit }.reporter.reportAll
                  ({ config with errorLimit := limit }.generate source.utf8ByteSize read).reports with
              | mk abort' r' =>
                  rw [hr'] at front
                  cases abort' with
                  | none =>
                      rw [compile_complete (larger.trans hread) hr']
                      exact front
                  | some abort' =>
                      rw [compile_aborted (larger.trans hread) hr']
                      exact front

/-- An error too many for no limit at all, but not for the usual one. -/
theorem larger_limit_extends_aborted :
    ({ errorLimit := 0 } : Config).errorLimit ≤ 15 ∧
      (({ errorLimit := 0 } : Config).compile "$a = ; echo 1;").diagnostics.length = 2 ∧
      (∃ c, (({ errorLimit := 15 } : Config).compile "$a = ; echo 1;").result = .ok c) ∧
      (({ errorLimit := 0 } : Config).compile "$a = ; echo 1;").diagnostics.dropLast <+:
        (({ errorLimit := 15 } : Config).compile "$a = ; echo 1;").diagnostics := by
  have failure : (({ errorLimit := 0 } : Config).compile "$a = ; echo 1;").result.toOption.isNone = true := by
    rw [compile_ofList rfl rfl]
    decide +kernel
  have success : (({ errorLimit := 15 } : Config).compile "$a = ; echo 1;").result.toOption.isSome = true := by
    rw [compile_ofList rfl rfl]
    decide +kernel
  refine ⟨by decide, ?_, ?_, ?_⟩
  · rw [compile_ofList rfl rfl]
    decide +kernel
  · cases hr : (({ errorLimit := 15 } : Config).compile "$a = ; echo 1;").result with
    | error failure =>
        rw [hr] at success
        cases success
    | ok c => exact ⟨c, rfl⟩
  · cases hr : (({ errorLimit := 0 } : Config).compile "$a = ; echo 1;").result with
    | error failure => exact (larger_limit_extends { errorLimit := 0 } 15 (by decide) _).2 failure hr
    | ok c =>
        rw [hr] at failure
        cases failure

/-! ### The sharing threshold -/

/-- Slots of two programs that hold one constant. -/
def HoldSame (c d : Program) (i j : Nat) : Prop :=
  ∃ k, c.constants.get? i = some k ∧ d.constants.get? j = some k

/-- Sharing constants is transparent.  Whatever the threshold, a compilation passes on the same messages and
fails or succeeds alike; and of two programs that come of it every container and every table agrees, with the
slots of each pool standing for the constants in them. -/
theorem threshold_transparent (config : Config) (threshold : Nat) (source : String) :
    let one := config.compile source
    let other := { config with cacheThreshold := threshold }.compile source
    one.diagnostics = other.diagnostics ∧
      ((∃ failure, one.result = .error failure ∧ other.result = .error failure) ∨
        ∃ c d, one.result = .ok c ∧ other.result = .ok d ∧ c.errors = d.errors ∧ c.warnings = d.warnings ∧
          c.notices = d.notices ∧ c.program.Alike (HoldSame c.program d.program) d.program) := by
  have tokens : { config with cacheThreshold := threshold }.tokens? source = config.tokens? source := rfl
  cases hread : config.tokens? source with
  | none =>
      rw [compile_unreadable hread, compile_unreadable (tokens.trans hread)]
      exact ⟨rfl, .inl ⟨_, rfl, rfl⟩⟩
  | some read =>
      have alike : sameConstants.Match 0 (config.generate source.utf8ByteSize read)
          ({ config with cacheThreshold := threshold }.generate source.utf8ByteSize read) :=
        match_generate (K := sameConstants) config { config with cacheThreshold := threshold } rfl
          (match_initial rfl rfl rfl ⟨_, _, .refl, .refl⟩) source.utf8ByteSize read
      have deliver : { config with cacheThreshold := threshold }.reporter.reportAll
          ({ config with cacheThreshold := threshold }.generate source.utf8ByteSize read).reports =
          config.reporter.reportAll (config.generate source.utf8ByteSize read).reports := by
        obtain ⟨rs, hs, ht⟩ := alike.reports
        rw [hs, ht]
        rfl
      cases hr : config.reporter.reportAll (config.generate source.utf8ByteSize read).reports with
      | mk abort r =>
          cases abort with
          | some abort =>
              rw [compile_aborted hread hr, compile_aborted (tokens.trans hread) (deliver.trans hr)]
              exact ⟨rfl, .inl ⟨_, rfl, rfl⟩⟩
          | none =>
              rw [compile_complete hread hr, compile_complete (tokens.trans hread) (deliver.trans hr)]
              refine ⟨rfl, .inr ⟨_, _, rfl, rfl, rfl, rfl, rfl, ?_⟩⟩
              exact { alike.program with main := alike.code }

end Config

end StackScript
