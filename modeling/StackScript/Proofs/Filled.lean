/-
Every container of a script without errors, and the statement that fills it.

A recorded container is that of an expression, which ends with a value, or that of a body.  Where nothing is
reported no body is lost on the way to the tables (`Run.shelves`), so each body of the script is found in the
finished program, with the main container holding the statements of the script itself.
-/
import StackScript.Proofs.Evaluation
import StackScript.Proofs.Housing

namespace StackScript

open Gen

/-- The container is that of an expression: it ends with its value. -/
def Filled.IsThunk (f : Filled) : Prop := ∃ x, f.code.back? = some x ∧ x.p2 = 1

/-- Bodies are put into the tables of the program, or they are still on the way there. -/
structure Shelves (made : List Made) (s t : GenState) : Prop where
  errors : s.errors ≤ t.errors
  kept : ∀ c ∈ s.program.bodies, c ∈ t.program.bodies
  listed : t.errors = s.errors → ∀ f ∈ t.filled, f ∈ s.filled ∨ f.IsThunk ∨ f.code ∈ t.program.bodies ∨ .body f.code ∈ made

namespace Shelves

variable {made made' : List Made} {s t u : GenState}

/-- A step that touches neither bodies nor records. -/
theorem same (he : s.errors ≤ t.errors) (hb : t.program.bodies = s.program.bodies) (hf : t.filled = s.filled) :
    Shelves made s t where
  errors := he
  kept := fun c hc => by rwa [hb]
  listed := by
    intro _ f hmem
    rw [hf] at hmem
    exact .inl hmem

theorem trans (h : Shelves made s t) (h' : Shelves made' t u) : Shelves (made ++ made') s u where
  errors := Nat.le_trans h.errors h'.errors
  kept := fun c hc => h'.kept c (h.kept c hc)
  listed := by
    intro he f hf
    have first := h.errors
    have second := h'.errors
    rcases h'.listed (by omega) f hf with hf | hf | hf | hf
    · rcases h.listed (by omega) f hf with hf | hf | hf | hf
      · exact .inl hf
      · exact .inr (.inl hf)
      · exact .inr (.inr (.inl (h'.kept _ hf)))
      · exact .inr (.inr (.inr (List.mem_append_left _ hf)))
    · exact .inr (.inl hf)
    · exact .inr (.inr (.inl hf))
    · exact .inr (.inr (.inr (List.mem_append_right _ hf)))

/-- The same between states that differ in nothing that matters here. -/
theorem congr {s' t' : GenState} (h : Shelves made s t) (hs : s'.errors = s.errors) (ht : t'.errors = t.errors)
    (hsb : s'.program.bodies = s.program.bodies) (htb : t'.program.bodies = t.program.bodies) (hsf : s'.filled = s.filled)
    (htf : t'.filled = t.filled) : Shelves made s' t' where
  errors := by
    rw [hs, ht]
    exact h.errors
  kept := by
    rw [hsb, htb]
    exact h.kept
  listed := by
    rw [hs, ht, hsf, htf, htb]
    exact h.listed

theorem mono (h : Shelves made s t) (hm : ∀ c, .body c ∈ made → .body c ∈ made') : Shelves made' s t where
  errors := h.errors
  kept := h.kept
  listed := fun he f hf => (h.listed he f hf).imp_right (Or.imp_right (Or.imp_right (hm f.code)))

/-- A container is recorded. -/
theorem record (h : Shelves made s t) (f : Filled) (hu : u = { t with filled := t.filled ++ [f] })
    (hf : f.IsThunk ∨ .body f.code ∈ made) : Shelves made s u := by
  subst hu
  refine ⟨h.errors, h.kept, fun he g hg => ?_⟩
  rcases List.mem_append.mp hg with hg | hg
  · exact h.listed he g hg
  · obtain rfl := List.mem_singleton.mp hg
    rcases hf with hf | hf
    · exact .inr (.inl hf)
    · exact .inr (.inr (.inr hf))

/-- Code that was made is put into the tables. -/
theorem file {q : Program} (h : Shelves made s t) (hq : Files made t.program q) : Shelves [] s { t with program := q } where
  errors := h.errors
  kept := fun c hc => hq.stock.kept c (h.kept c hc)
  listed := by
    intro he f hf
    rcases h.listed he f hf with hf | hf | hf | hf
    · exact .inl hf
    · exact .inr (.inl hf)
    · exact .inr (.inr (.inl (hq.stock.kept _ hf)))
    · exact .inr (.inr (.inl (hq.stock.filed _ hf)))

/-- Moves inside a container, in front of a run and behind it, do not matter. -/
theorem between (hs : Local u s) (h : Shelves made s t) {v : GenState} (ht : Local t v) : Shelves made u v :=
  h.congr hs.errors.symm ht.errors (by rw [hs.program]) (by rw [ht.program]) hs.filled.symm ht.filled

end Shelves

/-- The code made on the side that a run of a kind brings along. -/
def Kind.made : Kind → List Made
  | .value made => made
  | _ => []

theorem Run.shelves {k : Kind} {s t : GenState} (h : Run k s t) : Shelves k.made s t := by
  induction h with
  | refl s => exact .same (Nat.le_refl _) rfl rfl
  | trans _ _ ih ih' => exact ih.trans ih'
  | quiet h => exact .same (h.reports.sublist.countP_le) (congrArg Stock.bodies h.stock) h.filled
  | put | wait | throw | settle | settleContinue => exact .same (Nat.le_refl _) rfl rfl
  | rewrite _ _ _ _ _ _ _ _ _ ih => exact .between .refl ih (.put (.takeBack .refl))
  | mark _ _ ih => exact .between .refl ih (.markCallee .refl)
  | skip _ _ ih => exact .between (.emit .refl) ih (.landHere .refl)
  | choose _ _ ih ih' =>
      have second := Shelves.between (.landHere (.emit .refl)) ih' .refl
      exact .between (.emit .refl) (ih.trans second) (.landHere .refl)
  | @discard _ _ t _ ih => exact .between .refl ih (Local.refl.change _ t.blocks t.left)
  | @thunk made s t p1 _ ih =>
      have widened : Shelves (made ++ [.thunk (after (Gen.put .done p1 1 .none) t).code]) (after openContainer s) t :=
        ih.mono fun c hc => List.mem_append_left _ hc
      exact (widened.record (after (Gen.put .done p1 1 .none) t).container rfl
        (.inl ⟨_, Array.back?_push, rfl⟩)).congr rfl rfl rfl rfl rfl rfl
  | @body s t id _ op _ _ _ ih =>
      have widened : Shelves [.body (after (Gen.put .done 0 0 .none) (after (Gen.settle id op) t)).code]
          (after openContainer s) t := ih.mono fun c hc => absurd hc List.not_mem_nil
      exact (widened.record (after (Gen.put .done 0 0 .none) (after (Gen.settle id op) t)).container rfl
        (.inr (List.mem_singleton_self _))).congr rfl rfl rfl rfl rfl rfl
  | statics _ ih => exact (ih.mono fun c hc => List.mem_append_left _ hc).congr rfl rfl rfl rfl rfl rfl
  | static _ hv _ ih =>
      refine (ih.mono fun c hc => ?_).congr rfl rfl rfl rfl rfl rfl
      rcases hv with rfl | ⟨rfl, -⟩
      · simp [Kind.made] at hc
      · exact hc
  | owned _ _ _ _ ih => exact .between (.enter .refl) ih (.leave .refl)
  | file _ hq ih => exact ih.file hq
  | @lost made s t _ line problem hp ih =>
      have herrors : (after (report line problem) t).errors = t.errors + 1 := by
        simp [GenState.errors, after_report, Report.isError, hp]
      have := ih.errors
      exact ⟨by omega, ih.kept, fun he => absurd he (by omega)⟩
  | value _ ih => exact ih
  | seq _ _ ih ih' => exact ih.trans ih'
  | @leap s _ id _ _ _ _ =>
      have recorded : Shelves [] s (after (recordJump id) s) := .same (Nat.le_refl _) rfl rfl
      exact recorded.between .refl (.jumpOn .refl)
  | block _ _ ih => exact .between (.enter .refl) ih (.exitBlock .refl)
  | loop _ _ _ ih => exact .between (.enter .refl) ih (.exitBlock (.put .refl))
  | each _ _ _ ih ih' =>
      have rounds := Shelves.between (.await (.restartHere (.await .refl))) ih' .refl
      exact .between (.enter .refl) (ih.trans rounds) (.exitBlock (.put .refl))
  | braces _ ih => exact .between (.enter .refl) ih (.leave .refl)
  | @try_ s t _ ih =>
      have entered := Shelves.between (.await .refl) ih .refl
      have body : Shelves [] (after (enter [.exception] s.code.size .none none) s) t :=
        entered.congr rfl rfl (congrArg Stock.bodies (stock_reserveException _)).symm rfl rfl rfl
      exact .between (.enter .refl) body (.leave (.put (.settle .refl)))
  | @switch s t u table _ _ ih ih' =>
      have reserved := Shelves.between (.put .refl) ih' .refl
      have sections : Shelves [] t (after (fillSwitch t.program.switches.length { table with out := u.code.size }) u) :=
        reserved.congr rfl rfl rfl rfl rfl rfl
      exact .between (.enter .refl) (ih.trans sections) (.exitBlock .refl)
  | aside _ _ ih => exact ih
  | join _ _ ih ih' => exact ih.trans ih'
  | case_ _ _ _ ih ih' => exact (ih.trans ih').mono fun c hc => by simp [Kind.made] at hc
  | default_ _ _ _ ih ih' => exact ih.trans ih'

theorem Finish.shelves {s t : GenState} (h : Finish s t) : Shelves [] s t := by
  cases h with
  | statements run => exact run.shelves.between .refl (.put (.settle .refl))
  | expression run p1 => exact run.shelves.between .refl (.put .refl)

/-- The container of an expression does not end without a value. -/
theorem Filled.not_isThunk {f : Filled} {n : Nat} (hend : f.code.JumpsAt .done .none n 0) (hsize : f.code.size = n + 1) :
    ¬f.IsThunk := by
  obtain ⟨x, hx, -, -, hp2, -⟩ := hend
  rintro ⟨y, hy, hthunk⟩
  rw [Array.back?_eq_getElem?, hsize, Nat.add_sub_cancel, hx] at hy
  cases hy
  omega

/-- The end of a container adds nothing to tables and records. -/
theorem Arrives.before_end {p : Program} {filled : List Filled} {s t : GenState} {id : Nat} {op : Option Opcode}
    (h : Arrives p filled s (after (put .done 0 0 .none) (after (settle id op) t))) : Arrives p filled s t :=
  .within .refl (.put (.settle .refl)) h

/-- A container can start on the root. -/
theorem opens_root : ({ tags := [.global], first := 0, owner := .none } : Block).Opens (some .throw) :=
  ⟨rfl, rfl, rfl, .inr ⟨rfl, rfl⟩⟩

namespace Config

/-- In a source without errors, switches and loops are laid out as `Stmt.Occupies` says, however they are nested: the
statements of the script fill the main container, and every body of a function, method, anonymous function or catch
clause fills a container of the program. -/
theorem containers_filled (config : Config) (source : String) (c : Compilation) (read : Tokens)
    (h : (config.compile source).result = .ok c) (he : c.errors = 0) (hread : config.tokens? source = some read) :
    let script := Script.read config.mode source.utf8ByteSize read.tokens
    (∀ items, script = .statements items → (Stmt.sequence items).Fills c.program c.program.main) ∧
      ∀ body ∈ script.bodies, ∃ k ∈ c.program.containers, body.Fills c.program k.code := by
  intro script
  obtain ⟨read', hread', hprogram, herrors⟩ := compile_ok h
  obtain rfl : read' = read := Option.some.inj (hread'.symm.trans hread)
  have clean : (config.generate source.utf8ByteSize read').errors = 0 := herrors.symm.trans he
  -- The program that is returned has the tables as they were generated.
  have completes : c.program.Completes (GenState.initial config) (config.generate source.utf8ByteSize read') := by
    rw [hprogram]
    exact ⟨fun _ _ _ => rfl, List.prefix_rfl⟩
  have arrives : Arrives c.program (config.generate source.utf8ByteSize read').filled (GenState.initial config)
      (config.generate source.utf8ByteSize read') := ⟨clean, completes, List.Subset.refl _⟩
  refine ⟨fun items hitems => ?_, fun body hbody => ?_⟩
  · have generated : config.generate source.utf8ByteSize read' = after (put .done 0 0 .none) (after (settle 0 (some .throw))
        (after (Stmt.sequence items).gen (after (reportAll (lexReports read'.errors)) (GenState.initial config)))) := by
      show after script.gen _ = _
      rw [hitems]
      rfl
    have main : c.program.main = (config.generate source.utf8ByteSize read').code := by rw [hprogram]
    rw [main]
    rw [generated] at arrives ⊢
    have reported := (valued_reportAll (lexReports read'.errors)).stores (GenState.initial config)
    have rest := (Stmt.flows_gen (.sequence items) (after (reportAll (lexReports read'.errors))
      (GenState.initial config))).builds.retains
    have body := (arrives.before_end.split reported rest).2
    exact opens_root.stmt_fills ⟨rfl, rfl⟩ .of_root rfl (.sequence items) body.errors body.completes
  · obtain ⟨f, hf, fills⟩ := (Houses.behind (valued_reportAll (lexReports read'.errors)).stores fun _ =>
      Script.houses_bodies script).housed _ arrives body hbody
    have listed : f.code ∈ c.program.bodies := by
      rw [hprogram]
      rcases (config.finish_generate source.utf8ByteSize read').shelves.listed clean f hf with hf | hf | hf | hf
      · exact absurd hf List.not_mem_nil
      · obtain ⟨n, -, hend, hsize⟩ := fills
        exact absurd hf (Filled.not_isThunk hend hsize)
      · exact hf
      · exact absurd hf List.not_mem_nil
    obtain ⟨k, hk, hcode⟩ := (c.program.lists_containers f.code).mpr (.inr (.inl listed))
    exact ⟨k, hk, hcode ▸ fills⟩

/-- In `switch($a){case 1:foreach($b as $c)continue 2;}` the case starts behind the instruction of the switch, and the
`continue` in the loop leaves the switch. -/
theorem containers_filled_of_nested :
    ∃ c read items, (({} : Config).compile "switch($a){case 1:foreach($b as $c)continue 2;}").result = .ok c ∧ c.errors = 0 ∧
      ({} : Config).tokens? "switch($a){case 1:foreach($b as $c)continue 2;}" = some read ∧
      Script.read .script "switch($a){case 1:foreach($b as $c)continue 2;}".utf8ByteSize read.tokens = .statements items ∧
      (Stmt.sequence items).Fills c.program c.program.main ∧
      c.program.switches.map (fun t => (t.cases.map CaseEntry.start, t.out)) = [([2], 7)] ∧
      c.program.main[5]?.map (fun x => (x.op, x.p2)) = some (.jmp, 7) := by
  have numbers : (({} : Config).compile "switch($a){case 1:foreach($b as $c)continue 2;}").result.toOption.map (fun c =>
      (c.errors, c.program.switches.map (fun t => (t.cases.map CaseEntry.start, t.out)),
        c.program.main[5]?.map fun x => (x.op, x.p2))) = some (0, [([2], 7)], some (.jmp, 7)) := by
    rw [compile_ofList rfl rfl]
    decide +kernel
  obtain ⟨c, hr, told⟩ := Outcome.ok_of_map numbers
  obtain ⟨errors, told⟩ := Prod.mk.inj told
  obtain ⟨switches, jump⟩ := Prod.mk.inj told
  obtain ⟨read, hread, -, -⟩ := Config.compile_ok hr
  exact ⟨c, read, _, hr, errors, hread, rfl, (containers_filled _ _ c read hr errors hread).1 _ rfl, switches, jump⟩

end Config

end StackScript
