/-
Where exceptions go in a whole program.

What is generated for a script fills containers on the way.  Those of its bodies hold the hazards of the bodies, the
others compute values and have nothing to do with exceptions; `Unwound` says so of the containers that are recorded
between two states.  This is a judgment about generators and the bodies they make, so it holds of a script, and the
throws and protected bodies in its containers are those that are written in it.
-/
import StackScript.Proofs.Evaluation
import StackScript.Proofs.Filled
import StackScript.Proofs.Stack.Compilation
import StackScript.Proofs.Unwinding

namespace StackScript

open Gen

/-- No instruction of the container has to do with exceptions. -/
def Code.IsCalm (F : Code) : Prop := F.Calm 0 F.size

/-- What is recorded between two states: a container for each of the bodies, and no other with hazards. -/
structure Unwound (p : Program) (bodies : List Stmt) (s t : GenState) : Prop where
  housed : ∀ b ∈ bodies, ∃ f ∈ t.filled, b.Unwinds p f.code
  accounted : ∀ f ∈ t.filled, f ∈ s.filled ∨ f.code.IsCalm ∨ ∃ b ∈ bodies, b.Unwinds p f.code

namespace Unwound

variable {p : Program} {bs cs : List Stmt} {b : Stmt} {s t u : GenState}

/-- A step that records nothing. -/
theorem same (h : t.filled = s.filled) : Unwound p [] s t := ⟨nofun, fun _ hf => .inl (h ▸ hf)⟩

/-- The same between states that differ in no record. -/
theorem congr {s' t' : GenState} (h : Unwound p bs s t) (hs : s'.filled = s.filled) (ht : t'.filled = t.filled) :
    Unwound p bs s' t' := by
  refine ⟨?_, ?_⟩
  · rw [ht]
    exact h.housed
  · rw [hs, ht]
    exact h.accounted

theorem mono (h : Unwound p bs s t) (hbs : ∀ b, b ∈ bs ↔ b ∈ cs) : Unwound p cs s t where
  housed := fun b hb => h.housed b ((hbs b).mpr hb)
  accounted := fun f hf => (h.accounted f hf).imp_right (Or.imp_right fun ⟨b, hb, hunwinds⟩ => ⟨b, (hbs b).mp hb, hunwinds⟩)

theorem trans (h : Unwound p bs s t) (h' : Unwound p cs t u) (hkept : t.filled ⊆ u.filled) : Unwound p (bs ++ cs) s u where
  housed := by
    intro b hb
    rcases List.mem_append.mp hb with hb | hb
    · obtain ⟨f, hf, hunwinds⟩ := h.housed b hb
      exact ⟨f, hkept hf, hunwinds⟩
    · exact h'.housed b hb
  accounted := by
    intro f hf
    rcases h'.accounted f hf with hf | hcalm | ⟨b, hb, hunwinds⟩
    · exact (h.accounted f hf).imp_right (Or.imp_right fun ⟨b, hb, hunwinds⟩ => ⟨b, List.mem_append_left _ hb, hunwinds⟩)
    · exact .inr (.inl hcalm)
    · exact .inr (.inr ⟨b, List.mem_append_right _ hb, hunwinds⟩)

/-- A container without hazards is recorded. -/
theorem calm (h : Unwound p bs s t) {f : Filled} (hf : f.code.IsCalm) (hu : u.filled = t.filled ++ [f]) :
    Unwound p bs s u where
  housed := by
    intro b hb
    obtain ⟨g, hg, hunwinds⟩ := h.housed b hb
    exact ⟨g, hu ▸ List.mem_append_left _ hg, hunwinds⟩
  accounted := by
    intro g hg
    rw [hu] at hg
    rcases List.mem_append.mp hg with hg | hg
    · exact h.accounted g hg
    · obtain rfl := List.mem_singleton.mp hg
      exact .inr (.inl hf)

/-- The container of a body is recorded. -/
theorem body (h : Unwound p bs s t) {f : Filled} (hf : b.Unwinds p f.code) (hu : u.filled = t.filled ++ [f]) :
    Unwound p (b :: bs) s u := by
  have recorded : f ∈ u.filled := hu ▸ List.mem_append_right _ (List.mem_singleton_self f)
  refine ⟨fun c hc => ?_, fun g hg => ?_⟩
  · rcases List.mem_cons.mp hc with rfl | hc
    · exact ⟨f, recorded, hf⟩
    · obtain ⟨g, hg, hunwinds⟩ := h.housed c hc
      exact ⟨g, hu ▸ List.mem_append_left _ hg, hunwinds⟩
  · rw [hu] at hg
    rcases List.mem_append.mp hg with hg | hg
    · exact (h.accounted g hg).imp_right (Or.imp_right fun ⟨c, hc, hunwinds⟩ => ⟨c, List.mem_cons_of_mem _ hc, hunwinds⟩)
    · obtain rfl := List.mem_singleton.mp hg
      exact .inr (.inr ⟨b, List.mem_cons_self, hf⟩)

end Unwound

namespace Gen

variable {α β : Type} {p : Program} {bs cs : List Stmt}

/-- A generator that keeps what there is; where its tables are in those of a program, the containers that it records
hold the hazards of the bodies. -/
structure Rescues (p : Program) (bodies : List Stmt) (m : Gen α) : Prop where
  stores : Stores m
  keeps : KeepsClauses m
  unwound : ∀ s, p.Follows s (after m s) → Unwound p bodies s (after m s)

namespace Rescues

theorem still {m : Gen α} (h : Still m) : Rescues p [] m := ⟨h.stores, h.keeps, fun s _ => .same (h.filled s)⟩

theorem bind {m : Gen α} {f : α → Gen β} (hm : Rescues p bs m) (hf : ∀ a, Rescues p cs (f a)) :
    Rescues p (bs ++ cs) (m >>= f) where
  stores := hm.stores.bind fun a => (hf a).stores
  keeps := fun s => (hm.keeps s).trans ((hf _).keeps _)
  unwound := by
    intro s hs
    rw [after_bind] at hs ⊢
    have second := (hf (result m s)).stores (after m s)
    obtain ⟨front, back⟩ := hs.split (hm.stores s) second (hm.keeps s).length_le ((hf _).keeps _)
    exact (hm.unwound s front).trans ((hf _).unwound _ back) second.keeps.filled.subset

end Rescues

/-! ### Containers -/

/-- A value in a container of its own has nothing to do with exceptions. -/
theorem isCalm_thunk (line : Nat) (isPresent : Bool) {value : Gen Unit} (h : Valued value) (s : GenState) :
    (result (thunk line isPresent value) s).IsCalm := by
  intro i x _ hi hx
  refine Bool.eq_false_iff.mpr fun hunwinds => ?_
  let t := after value (after openContainer s)
  have end_ : Code.Undisturbed t.code (after (do setLine line; put .done (flag isPresent) 1 .none) t).code :=
    .push t.code rfl
  have before := ((h (after openContainer s)).calms.trans end_) i x.op (by rw [← Option.map_some, ← hx]; rfl) hunwinds
  cases before

theorem rescues_thunk (line : Nat) (value : Expr) (h : Rescues p bs (value.gen {} none)) :
    Rescues p bs (thunk line value.isPresent (value.gen {} none)) where
  stores := fun s => (makes_thunk line value.isPresent (Expr.valued_gen {} none value) s).builds.retains
  keeps := by
    have inner : keeping.Claims bs (value.gen {} none) := h.keeps
    exact keeping.thunk line value inner
  unwound := by
    intro s hs
    have closed : p.Follows s (after (closeContainer s.container) (after (value.gen {} none) (after openContainer s))) :=
      ⟨hs.errors, ⟨hs.completes.switches, hs.completes.foreachs⟩, hs.catches⟩
    have inner := closed.container
    have outer : Unwound p bs s (after (value.gen {} none) (after openContainer s)) := (h.unwound _ inner).congr rfl rfl
    exact outer.calm (isCalm_thunk line value.isPresent (Expr.valued_gen {} none value) s) rfl

/-- A body in a container of its own. -/
theorem unwound_container {s : GenState} {id : Nat} {b : Block} {op : Option Opcode} (hb : s.blocks.Innermost id b)
    (hf : s.blocks.Floor id) (ho : b.Opens op) {body : Stmt} (h : Rescues p bs body.gen) (hs : p.Follows s (after (inContainer do
      body.gen
      settle id op
      put .done 0 0 .none) s)) :
    Unwound p (body :: bs) s (after (inContainer do
      body.gen
      settle id op
      put .done 0 0 .none) s) := by
  rw [after_inContainer, after_bind, after_bind] at hs
  have inner : p.Follows (after openContainer s) (after body.gen (after openContainer s)) :=
    .within .refl (.put (.settle .refl)) hs.container
  have outer : Unwound p bs s (after body.gen (after openContainer s)) := (h.unwound _ inner).congr rfl rfl
  have filled := ho.unwinds (s := after openContainer s) hb hf rfl (Stmt.wound body) inner
  let last := after (put .done 0 0 .none) (after (settle id op) (after body.gen (after openContainer s)))
  exact outer.body (f := last.container) filled rfl

theorem rescues_functionBody (name : String) (className : Option String) {body : Stmt} (h : Rescues p bs body.gen) :
    Rescues p (body :: bs) (functionBody name className body.gen) where
  stores := by
    have inner : Houses p [] True body.gen := .nothing h.stores
    exact (houses_functionBody name className body inner).stores
  keeps := by
    have inner : keeping.Claims bs body.gen := h.keeps
    exact keeping.functionBody name className body inner
  unwound := by
    intro s hs
    have hb := innermost_enter [.guarded, .function] 0 (.function name className) none s
    have hop : IsBody { tags := [.guarded, .function], first := 0, owner := .function name className } (some .throw) :=
      ⟨rfl, rfl, rfl, .inl ⟨rfl, rfl⟩⟩
    rw [functionBody, after_owned, after_collectingStatics] at hs ⊢
    let front := after (enter [.guarded, .function] 0 (.function name className) none) s
    have inner : p.Follows front _ := .within (.enter .refl) (.leave .refl) hs
    exact (unwound_container (s := { front with statics := [] :: s.statics }) hb (.body rfl rfl) hop.opens h
      inner.collected).congr rfl rfl

theorem unwound_catchBody {body : Stmt} (h : Rescues p bs body.gen) {s : GenState}
    (hs : p.Follows s (after (catchBody body.gen) s)) : Unwound p (body :: bs) s (after (catchBody body.gen) s) := by
  have hb := innermost_enter [.exception, .guarded] 0 .none none s
  have hop : IsBody { tags := [.exception, .guarded], first := 0, owner := .none } none :=
    ⟨rfl, rfl, rfl, .inr ⟨rfl, rfl⟩⟩
  rw [catchBody, after_owned] at hs ⊢
  exact (unwound_container hb (.body rfl rfl) hop.opens h (.within (.enter .refl) (.leave .refl) hs)).congr rfl rfl

/-- The table is filled in behind the sections, which go with the tables around it. -/
theorem rescues_switchRest {sections : SwitchTable → Gen SwitchTable} (fault : Option Report)
    (h : ∀ table, Rescues p bs (sections table)) : Rescues p bs (switchRest sections fault) := by
  let front (s : GenState) := after (put .switch 0 0 (.switch s.program.switches.length)) (after reserveSwitch s)
  have body : Rescues p bs (do
      let _ ← sections {}
      reportFault fault) := by
    have := (h {}).bind fun _ => Rescues.still (still_reportFault fault)
    rwa [List.append_nil] at this
  have stored : ∀ table, Houses p [] True (sections table) := fun table => .nothing (h table).stores
  have kept : ∀ table, keeping.Claims bs (sections table) := fun table => (h table).keeps
  refine ⟨(houses_switchRest stored fault).stores, keeping.switchRest fault kept, fun s hs => ?_⟩
  have inner : Retains (after reserveSwitch s) (after (do let _ ← sections {}; reportFault fault) (front s)) :=
    (Retains.of rfl : Retains (after reserveSwitch s) (front s)).trans (body.stores (front s))
  have completes := (hs.completes.reserved inner.keeps).2
  exact (body.unwound (front s) ⟨hs.errors, ⟨completes.switches, completes.foreachs⟩, hs.catches⟩).congr rfl rfl

/-! ### Protected bodies -/

theorem unwound_tryBody {m : Gen Unit} (h : Rescues p bs m) {s : GenState}
    (hs : p.Follows (after reserveException s) (after (tryBody m) s)) : Unwound p bs s (after (tryBody m) s) := by
  let front := after (await s.blocks.blocks.size .loadException (.exception s.program.exceptions.length))
    (after reserveException (after (enter [.exception] s.code.size .none none) s))
  exact (h.unwound front ⟨hs.errors, ⟨hs.completes.switches, hs.completes.foreachs⟩, hs.catches⟩).congr rfl rfl

theorem unwound_clauses (table : Nat) (clauses : List CatchClause)
    (h : ∀ b ∈ clauses.filterMap CatchClause.body?, Rescues p b.bodies b.gen) {s : GenState}
    (htable : table < s.program.exceptions.length) (hs : p.Follows s (after (CatchClause.genAll table clauses) s)) :
    Unwound p (CatchClause.allBodies clauses) s (after (CatchClause.genAll table clauses) s) := by
  induction clauses generalizing s with
  | nil =>
      rw [CatchClause.allBodies]
      exact .same rfl
  | cons c cs ih =>
      obtain ⟨htable', rest⟩ := CatchClause.follows_rest c htable hs
      have later := (CatchClause.run_genAll table cs (after (c.gen table) s) htable').builds.retains.keeps.filled.subset
      rw [CatchClause.genAll_cons, after_bind, CatchClause.allBodies]
      cases c with
      | malformed r =>
          rw [CatchClause.bodies]
          have reported : Unwound p [] s (after (report r.line r.problem) s) := .same rfl
          exact reported.trans (ih h htable' rest) later
      | clause className binding body =>
          rw [CatchClause.bodies]
          have first := unwound_catchBody (h body (List.mem_cons_self ..)) (CatchClause.follows_catchBody htable hs)
          have added : Unwound p (body :: body.bodies) s (after ((CatchClause.clause className binding body).gen table) s) :=
            first.congr rfl rfl
          exact added.trans (ih (fun b hb => h b (List.mem_cons_of_mem _ hb)) htable' rest) later

end Gen

/-- The parts of a `try` that follow the program, as the whole does. -/
theorem Program.Follows.tryCatch {p : Program} {body : Stmt} {clauses : List CatchClause} {fault : Option Report} {s : GenState}
    (h : p.Follows s (after (Stmt.tryCatch body clauses fault).gen s)) :
    p.Follows (after reserveException s) (after (tryBody body.gen) s) ∧
      p.Follows (after (tryBody body.gen) s)
        (after (CatchClause.genAll s.program.exceptions.length clauses) (after (tryBody body.gen) s)) := by
  obtain ⟨catches, catches'⟩ := h.catches.tryCatch
  have errors := h.errors
  have completes := h.completes
  rw [Stmt.gen_tryCatch, Gen.tryCatch, after_bind, after_bind] at errors completes
  have htable : s.program.exceptions.length < (after (tryBody body.gen) s).program.exceptions.length := by
    have reserved := (keeps_tryBody (keeping.claims_stmt body) s).length_le
    rwa [List.length_append] at reserved
  have first : Builds s (after (tryBody body.gen) s) := (Stmt.flows_gen body _).try_.builds
  have second := (CatchClause.run_genAll s.program.exceptions.length clauses _ htable).builds
  have reported := (valued_reportFault fault (after (CatchClause.genAll s.program.exceptions.length clauses)
    (after (tryBody body.gen) s))).builds
  have front := ((first.trans second).errors_split reported errors).1
  obtain ⟨errors₁, errors₂⟩ := first.errors_split second front
  have done := completes.front reported.retains
  exact ⟨⟨errors₁, ⟨(done.front second.retains).switches, (done.front second.retains).foreachs⟩, catches⟩,
    errors₂, done.back first.retains, catches'⟩

/-- A judgment: the containers that are recorded hold the hazards of the bodies. -/
def rescuing (p : Program) : ScriptJudgment where
  Claims := fun bodies m => Rescues p bodies m
  still := .still
  bind := .bind
  perm := fun h hm => ⟨hm.stores, hm.keeps, fun s hs => (hm.unwound s hs).mono fun _ => h.mem_iff⟩
  thunk := fun line value h => rescues_thunk line value h
  switchRest := fun fault h => rescues_switchRest fault h
  functionBody := fun name className _ h => rescues_functionBody name className h
  tryCatch := by
    intro bs body clauses fault hb hc
    refine ⟨fun s => (Stmt.flows_gen _ s).builds.retains, keeping.claims_stmt _, fun s hs => ?_⟩
    obtain ⟨first, second⟩ := hs.tryCatch
    have htable : s.program.exceptions.length < (after (tryBody body.gen) s).program.exceptions.length := by
      have reserved := (keeps_tryBody hb.keeps s).length_le
      rwa [List.length_append] at reserved
    have recorded := (CatchClause.run_genAll s.program.exceptions.length clauses _ htable).builds.retains.keeps.filled
    have both := (unwound_tryBody hb first).trans (unwound_clauses _ clauses hc htable second) recorded.subset
    rw [Stmt.gen_tryCatch, Gen.tryCatch, after_bind, after_bind]
    exact both.congr rfl ((still_reportFault fault).filled _)
  completeClass := fun head c => ⟨stores_completeClass head c, keeping.completeClass head c,
    fun s _ => .same (completeClass_kept head c s).2⟩

namespace Config

/-- In a script without errors throws and protected bodies lie in the containers as `Stmt.Unwinds` says, however they are
nested: those of the statements of the script in the main container, and those of every function, method, anonymous
function and catch clause in a container of its own.  No other container has to do with exceptions. -/
theorem containers_unwind (config : Config) (source : String) (c : Compilation) (read : Tokens)
    (hmode : config.mode = .script) (h : (config.compile source).result = .ok c) (he : c.errors = 0)
    (hread : config.tokens? source = some read) :
    ∃ items, Script.read config.mode source.utf8ByteSize read.tokens = .statements items ∧
      (Stmt.sequence items).Unwinds c.program c.program.main ∧
      (∀ body ∈ Stmt.allBodies items, ∃ k ∈ c.program.containers, body.Unwinds c.program k.code) ∧
      ∀ k ∈ c.program.containers, k.code = c.program.main ∨ k.code.IsCalm ∨
        ∃ body ∈ Stmt.allBodies items, body.Unwinds c.program k.code := by
  obtain ⟨read', hread', hprogram, herrors⟩ := compile_ok h
  obtain rfl : read' = read := Option.some.inj (hread'.symm.trans hread)
  obtain ⟨items, hitems⟩ : ∃ items, Script.read config.mode source.utf8ByteSize read'.tokens = .statements items := by
    rw [hmode]
    exact ⟨_, rfl⟩
  let front := after (reportAll (lexReports read'.errors)) (GenState.initial config)
  let last := after (Stmt.sequence items).gen front
  have generated : config.generate source.utf8ByteSize read' = after (put .done 0 0 .none) (after (settle 0 (some .throw)) last) := by
    show after (Script.gen _) front = _
    rw [hitems, Script.gen, after_bind, after_bind]
    rfl
  have main : c.program.main = (config.generate source.utf8ByteSize read').code := by rw [hprogram]
  -- The end of the script neither reports nor records anything.
  have ending (s : GenState) : (after (put .done 0 0 .none) (after (settle 0 (some .throw)) s)).errors = s.errors ∧
      (after (put .done 0 0 .none) (after (settle 0 (some .throw)) s)).filled = s.filled := ⟨rfl, rfl⟩
  have filled : (config.generate source.utf8ByteSize read').filled = last.filled := by
    rw [generated]
    exact (ending last).2
  -- The program has the tables as they were generated.
  have follows : c.program.Follows front last := by
    have errors : last.errors = 0 := by
      rw [← he, herrors, generated]
      exact (ending last).1.symm
    have before : front.errors ≤ last.errors := (Stmt.flows_gen (.sequence items) front).builds.retains.errors_le
    have completes : c.program.Completes front last := by
      rw [hprogram, generated]
      exact ⟨fun _ _ _ => rfl, List.prefix_rfl⟩
    refine ⟨by omega, completes, fun _ _ _ => ?_⟩
    rw [hprogram, generated]
    rfl
  have unwound : Unwound c.program (Stmt.allBodies items) front last :=
    ((rescuing c.program).claims_stmt (.sequence items)).unwound front follows
  refine ⟨items, hitems, ?_, fun body hbody => ?_, fun k hk => ?_⟩
  · rw [main, generated]
    exact opens_root.unwinds ⟨rfl, rfl⟩ .of_root rfl (Stmt.wound _) follows
  · obtain ⟨f, hf, unwinds⟩ := unwound.housed body hbody
    have listed : f.code ∈ c.program.bodies := by
      rw [hprogram]
      rcases (config.finish_generate source.utf8ByteSize read').shelves.listed (herrors.symm.trans he) f (filled ▸ hf) with
        hf | hf | hf | hf
      · exact absurd hf List.not_mem_nil
      · obtain ⟨n, -, hend, hsize⟩ := unwinds
        exact absurd hf (Filled.not_isThunk hend hsize)
      · exact hf
      · exact absurd hf List.not_mem_nil
    obtain ⟨k, hk, hcode⟩ := (c.program.lists_containers f.code).mpr (.inr (.inl listed))
    exact ⟨k, hk, hcode ▸ unwinds⟩
  · rw [main]
    rw [hprogram] at hk
    obtain ⟨boundaries, ⟨hempty, -⟩ | hmem⟩ := config.generate_delimits _ _ hk
    · refine .inr (.inl fun n x _ hn _ => absurd hn ?_)
      rw [hempty]
      exact Nat.not_lt_zero n
    · rcases List.mem_cons.mp hmem with hcontainer | hfilled
      · exact .inl (congrArg Filled.code hcontainer)
      · -- What was recorded before the statements is nothing, because reports record no container.
        rcases unwound.accounted _ (filled ▸ hfilled) with hreported | hrecorded
        · have still := (still_reportAll (lexReports read'.errors)).filled (GenState.initial config)
          rw [show front.filled = [] from still] at hreported
          exact absurd hreported List.not_mem_nil
        · exact .inr hrecorded

/-- In `try{while($a){throw $b;}}catch(E $e){throw $e;}throw $c;` the throw in the loop goes to the end of the `try`, the
one in the clause to the end of the clause, and the last one to the end of the script. -/
theorem containers_unwind_of_loop :
    ∃ c read items, (({} : Config).compile "try{while($a){throw $b;}}catch(E $e){throw $e;}throw $c;").result = .ok c ∧
      c.errors = 0 ∧ ({} : Config).tokens? "try{while($a){throw $b;}}catch(E $e){throw $e;}throw $c;" = some read ∧
      Script.read .script "try{while($a){throw $b;}}catch(E $e){throw $e;}throw $c;".utf8ByteSize read.tokens = .statements items ∧
      (Stmt.sequence items).Unwinds c.program c.program.main ∧
      (c.program.main.toList.filter (·.op.unwinds)).map (fun x => (x.op, x.p2)) =
        [(.loadException, 6), (.throw, 6), (.popException, 0), (.throw, 9)] ∧
      c.program.exceptions.map (·.map fun e => (e.className, e.code.toList.map Instruction.p2)) = [[("E", [0, 2, 0])]] := by
  have compiled : (({} : Config).compile "try{while($a){throw $b;}}catch(E $e){throw $e;}throw $c;").result.toOption.map
      (fun c => (c.errors, (c.program.main.toList.filter (·.op.unwinds)).map (fun x => (x.op, x.p2)),
        decide (c.program.exceptions.map (·.map fun e => (e.className, e.code.toList.map Instruction.p2)) =
          [[("E", [0, 2, 0])]]))) =
      some (0, [(.loadException, 6), (.throw, 6), (.popException, 0), (.throw, 9)], true) := by
    rw [compile_ofList rfl rfl]
    decide +kernel
  obtain ⟨c, hr, told⟩ := Outcome.ok_of_map compiled
  obtain ⟨errors, told⟩ := Prod.mk.inj told
  obtain ⟨jumps, clauses⟩ := Prod.mk.inj told
  obtain ⟨read, hread, -, -⟩ := Config.compile_ok hr
  obtain ⟨items, hitems, main, -, -⟩ := containers_unwind _ _ c read rfl hr errors hread
  exact ⟨c, read, items, hr, errors, hread, hitems, main, jumps, of_decide_eq_true clauses⟩

end Config

end StackScript
