/-
Where the containers of a program come from.

Besides the main one, every container was filled by a run of its own that started with no code at all,
in the course of the run that filled another one.  `Run.origins` finds this run for everything a run puts
into the tables of the program, so that a property of all containers is proved for the runs of one
container each, and the tables never come into it.
-/
import StackScript.Proofs.Run.Compilation
import StackScript.Proofs.Tables

namespace StackScript

open Gen

/-- A run from `s'` to `t'` was made in the course of one from `s` to `t`: what it has reported and put
into tables is still there, and the switches it has completed are complete. -/
structure During (s t s' t' : GenState) : Prop where
  reports : t'.reports <+: t.reports
  tables : t'.program.Precedes t.program
  start : s.program.switches.length ≤ s'.program.switches.length
  switches : ∀ k, s'.program.switches.length ≤ k → k < t'.program.switches.length →
    t.program.switches[k]? = t'.program.switches[k]?

/-- A run is made in its own course. -/
theorem during_self (s t : GenState) : During s t s t :=
  ⟨List.prefix_rfl, .refl _, Nat.le_refl _, fun _ _ _ => rfl⟩

theorem During.congr {s t s' t' v : GenState} (h : During s t s' t') (hp : v.program = t.program)
    (hr : v.reports = t.reports) : During s v s' t' := by
  obtain ⟨reports, tables, start, switches⟩ := h
  exact ⟨by rwa [hr], by rwa [hp], start, by rwa [hp]⟩

/-- Code that was filled in the course of a run, by a run of its own, and is recorded. -/
inductive Origin (s t : GenState) : Code → Prop
  | empty : Origin s t #[]
  | thunk {made : List Made} {s' t' : GenState} (p1 : Int)
      (run : Run (.value made) (after openContainer s') t') (during : During s t s' t')
      (recorded : (after (put .done p1 1 .none) t').container ∈ t.filled) :
      Origin s t (after (put .done p1 1 .none) t').code
  | body {s' t' : GenState} {id : Nat} {b : Block} {op : Option Opcode} (hb : s'.blocks.Innermost id b)
      (hop : IsBody b op) (run : Run .flow (after openContainer s') t') (during : During s t s' t')
      (recorded : (after (put .done 0 0 .none) (after (settle id op) t')).container ∈ t.filled) :
      Origin s t (after (put .done 0 0 .none) (after (settle id op) t')).code

/-- Code that was filled is recorded with the boundaries of its statements. -/
theorem Origin.recorded {s t : GenState} {c : Code} (h : Origin s t c) :
    c = #[] ∨ ∃ r ∈ t.filled, r.code = c := by
  cases h with
  | empty => exact .inl rfl
  | thunk p1 run during recorded => exact .inr ⟨_, recorded, rfl⟩
  | body hb hop run during recorded => exact .inr ⟨_, recorded, rfl⟩

/-- What was made in the course of a run was made in the course of a longer one. -/
theorem Origin.mono {s t u v : GenState} {c : Code} (h : Origin s t c)
    (hstart : u.program.switches.length ≤ s.program.switches.length) (hreports : t.reports <+: v.reports)
    (htables : t.program.Precedes v.program)
    (hswitches : ∀ k, s.program.switches.length ≤ k → k < t.program.switches.length →
      v.program.switches[k]? = t.program.switches[k]?)
    (hfilled : t.filled <+: v.filled) : Origin u v c := by
  have longer : ∀ {s' t' : GenState}, During s t s' t' → During u v s' t' := by
    intro s' t' during
    refine ⟨during.reports.trans hreports, during.tables.trans htables,
      Nat.le_trans hstart during.start, fun k hs ht => ?_⟩
    rw [hswitches k (Nat.le_trans during.start hs) (Nat.lt_of_lt_of_le ht during.tables.switches),
      during.switches k hs ht]
  cases h with
  | empty => exact .empty
  | thunk p1 run during recorded => exact .thunk p1 run (longer during) (hfilled.subset recorded)
  | body hb hop run during recorded => exact .body hb hop run (longer during) (hfilled.subset recorded)

theorem Origin.onward {s t u : GenState} {c : Code} (h : Origin s t c) (htu : Onward t u) : Origin s u c :=
  h.mono (Nat.le_refl _) htu.reports htu.tables (fun k _ hk => htu.switches k hk) htu.filled

/-- The same between states that differ in nothing that matters here. -/
theorem Origin.congr {s t u v : GenState} {c : Code} (h : Origin s t c)
    (hs : u.program.switches = s.program.switches) (ht : v.program = t.program)
    (hr : v.reports = t.reports) (hf : t.filled <+: v.filled) : Origin u v c := by
  refine h.mono (Nat.le_of_eq (by rw [hs])) (by simp [hr]) ?_ (fun k _ _ => by rw [ht]) hf
  rw [ht]
  exact .refl _

/-! ### What is put away -/

/-- What a run puts into the tables, and among the static variables, has its origin in the run. -/
structure Adds (s t : GenState) : Prop where
  thunks : ∀ c ∈ t.program.thunks, c ∈ s.program.thunks ∨ Origin s t c
  bodies : ∀ c ∈ t.program.bodies, c ∈ s.program.bodies ∨ Origin s t c
  statics : ∀ (i : Nat) (frame : List StaticVar), t.statics[i]? = some frame → ∀ v ∈ frame,
    (∃ old, s.statics[i]? = some old ∧ v ∈ old) ∨ Origin s t v.init

/-- What a run made on the side has its origin in the run, too. -/
structure Yields (made : List Made) (s t : GenState) : Prop extends Adds s t where
  made : ∀ c, .thunk c ∈ made ∨ .body c ∈ made → Origin s t c

namespace Adds

variable {s t u v : GenState}

theorem still (hp : t.program.stock = s.program.stock) (hs : t.statics = s.statics) : Adds s t where
  thunks := by
    intro c hc
    have heq : t.program.thunks = s.program.thunks := congrArg Stock.thunks hp
    exact .inl (heq ▸ hc)
  bodies := by
    intro c hc
    have heq : t.program.bodies = s.program.bodies := congrArg Stock.bodies hp
    exact .inl (heq ▸ hc)
  statics := by
    intro i frame hframe v hv
    exact .inl ⟨frame, hs ▸ hframe, hv⟩

/-- One run behind another. -/
theorem trans (h : Adds s t) (h' : Adds t u) (hst : Onward s t) (htu : Onward t u) : Adds s u := by
  have older : ∀ {c : Code}, Origin s t c → Origin s u c := fun hc => hc.onward htu
  have newer : ∀ {c : Code}, Origin t u c → Origin s u c := by
    intro c hc
    exact hc.mono hst.tables.switches List.prefix_rfl (.refl _) (fun _ _ _ => rfl) List.prefix_rfl
  refine ⟨fun c hc => ?_, fun c hc => ?_, fun i frame hframe v hv => ?_⟩
  · rcases h'.thunks c hc with hc | hc
    · exact (h.thunks c hc).imp id older
    · exact .inr (newer hc)
  · rcases h'.bodies c hc with hc | hc
    · exact (h.bodies c hc).imp id older
    · exact .inr (newer hc)
  · rcases h'.statics i frame hframe v hv with ⟨old, hold, hv⟩ | hv
    · exact (h.statics i old hold v hv).imp id older
    · exact .inr (newer hv)

/-- The same between states that differ in nothing that matters here. -/
theorem congr (h : Adds s t) (hs : u.program = s.program) (hss : u.statics = s.statics)
    (ht : v.program = t.program) (hts : v.statics = t.statics) (hr : v.reports = t.reports)
    (hf : t.filled <+: v.filled) : Adds u v := by
  have same : ∀ {c : Code}, Origin s t c → Origin u v c := fun hc => hc.congr (by rw [hs]) ht hr hf
  refine ⟨fun c hc => ?_, fun c hc => ?_, fun i frame hframe v hv => ?_⟩
  · rw [hs]
    rw [ht] at hc
    exact (h.thunks c hc).imp id same
  · rw [hs]
    rw [ht] at hc
    exact (h.bodies c hc).imp id same
  · rw [hss]
    rw [hts] at hframe
    exact (h.statics i frame hframe v hv).imp id same

theorem between (hs : Local u s) (h : Adds s t) (ht : Local t v) : Adds u v :=
  h.congr hs.program.symm hs.statics.symm ht.program ht.statics ht.reports (ht.filled ▸ List.prefix_rfl)

theorem container (h : Adds (after openContainer s) t) : Adds s (after (closeContainer s.container) t) :=
  h.congr rfl rfl rfl rfl rfl (List.prefix_append _ _)

end Adds

/-! ### Code that computes values -/

namespace Yields

variable {made made' : List Made} {s t u v : GenState}

theorem still (hp : t.program.stock = s.program.stock) (hs : t.statics = s.statics) : Yields [] s t :=
  ⟨.still hp hs, fun c hc => by simp at hc⟩

theorem congr (h : Yields made s t) (hs : u.program = s.program) (hss : u.statics = s.statics)
    (ht : v.program = t.program) (hts : v.statics = t.statics) (hr : v.reports = t.reports)
    (hf : t.filled <+: v.filled) : Yields made u v :=
  ⟨h.toAdds.congr hs hss ht hts hr hf, fun c hc => (h.made c hc).congr (by rw [hs]) ht hr hf⟩

theorem between (hs : Local u s) (h : Yields made s t) (ht : Local t v) : Yields made u v :=
  h.congr hs.program.symm hs.statics.symm ht.program ht.statics ht.reports (ht.filled ▸ List.prefix_rfl)

theorem container (h : Yields made (after openContainer s) t) : Yields made s (after (closeContainer s.container) t) :=
  h.congr rfl rfl rfl rfl rfl (List.prefix_append _ _)

theorem trans (h : Yields made s t) (h' : Yields made' t u) (hst : Onward s t) (htu : Onward t u) :
    Yields (made ++ made') s u := by
  refine ⟨h.toAdds.trans h'.toAdds hst htu, fun c hc => ?_⟩
  have hc' : (.thunk c ∈ made ∨ .body c ∈ made) ∨ .thunk c ∈ made' ∨ .body c ∈ made' := by
    simp only [List.mem_append] at hc
    grind
  rcases hc' with hc | hc
  · exact (h.made c hc).onward htu
  · exact (h'.made c hc).mono hst.tables.switches List.prefix_rfl (.refl _) (fun _ _ _ => rfl) List.prefix_rfl

/-- Code is made on the side by one more run. -/
theorem add (h : Yields made s t) {one : Made} {c : Code} (hone : one = .thunk c ∨ one = .body c)
    (hc : Origin s t c) : Yields (made ++ [one]) s t := by
  refine ⟨h.toAdds, fun d hd => ?_⟩
  have hd' : (.thunk d ∈ made ∨ .body d ∈ made) ∨ d = c := by
    simp only [List.mem_append, List.mem_singleton] at hd
    rcases hone with rfl | rfl <;> simp at hd <;> grind
  rcases hd' with hd | rfl
  · exact h.made d hd
  · exact hc

/-- The static variables that were collected are handed over. -/
theorem collected (h : Yields made { s with statics := [] :: s.statics } t) :
    Yields (made ++ (t.statics.headD []).map fun v => Made.thunk v.init) s { t with statics := t.statics.tail } := by
  have same : ∀ {c : Code}, Origin { s with statics := [] :: s.statics } t c →
      Origin s { t with statics := t.statics.tail } c := fun hc => hc.congr rfl rfl rfl List.prefix_rfl
  refine ⟨⟨fun c hc => (h.thunks c hc).imp id same, fun c hc => (h.bodies c hc).imp id same,
    fun i frame hframe v hv => ?_⟩, fun c hc => ?_⟩
  · have hframe' : t.statics[i + 1]? = some frame := by simpa [List.getElem?_tail] using hframe
    exact (h.statics (i + 1) frame hframe' v hv).imp id same
  · simp only [List.mem_append, List.mem_map] at hc
    have hc' : (.thunk c ∈ made ∨ .body c ∈ made) ∨ ∃ v ∈ t.statics.headD [], v.init = c := by
      grind
    rcases hc' with hc | ⟨v, hv, rfl⟩
    · exact same (h.made c hc)
    · cases hst : t.statics with
      | nil => simp [hst] at hv
      | cons frame frames =>
          rw [hst] at hv
          rw [← hst]
          rcases h.statics 0 frame (by simp [hst]) v hv with ⟨old, hold, hv⟩ | hv
          · cases hold
            simp at hv
          · exact same hv

theorem static (h : Yields made s t) {v : StaticVar}
    (hv : made = [.thunk v.init] ∨ made = [] ∧ v.init = #[]) {frame : List StaticVar}
    {frames : List (List StaticVar)} (hs : t.statics = frame :: frames) :
    Yields [] s { t with statics := (frame ++ [v]) :: frames } := by
  have same : ∀ {c : Code}, Origin s t c → Origin s { t with statics := (frame ++ [v]) :: frames } c :=
    fun hc => hc.congr rfl rfl rfl List.prefix_rfl
  have hinit : Origin s { t with statics := (frame ++ [v]) :: frames } v.init := by
    rcases hv with rfl | ⟨-, hv⟩
    · exact same (h.made _ (.inl (by simp)))
    · rw [hv]
      exact .empty
  refine ⟨⟨fun c hc => (h.thunks c hc).imp id same, fun c hc => (h.bodies c hc).imp id same,
    fun i f hf w hw => ?_⟩, fun c hc => by simp at hc⟩
  cases i with
  | zero =>
      cases hf
      rcases List.mem_append.mp hw with hw | hw
      · exact (h.statics 0 frame (by simp [hs]) w hw).imp id same
      · rw [List.mem_singleton.mp hw]
        exact .inr hinit
  | succ i => exact (h.statics (i + 1) f (by simpa [hs] using hf) w hw).imp id same

theorem file (h : Yields made s t) {q : Program} (hq : Files made t.program q) :
    Yields [] s { t with program := q } := by
  have same : ∀ {c : Code}, Origin s t c → Origin s { t with program := q } c := by
    intro c hc
    exact hc.mono (Nat.le_refl _) List.prefix_rfl (.files hq) (fun k _ _ => by rw [hq.switches]) List.prefix_rfl
  refine ⟨⟨fun c hc => ?_, fun c hc => ?_, fun i f hf w hw => (h.statics i f hf w hw).imp id same⟩,
    fun c hc => by simp at hc⟩
  · rcases hq.stock.thunks c hc with hc | hc
    · exact (h.thunks c hc).imp id same
    · exact .inr (same (h.made c (.inl hc)))
  · rcases hq.stock.bodies c hc with hc | hc | rfl
    · exact (h.bodies c hc).imp id same
    · exact .inr (same (h.made c (.inr hc)))
    · exact .inr .empty

end Yields

/-! ### A whole run -/

/-- Where what a run of a kind puts away comes from. -/
def Originates : Kind → GenState → GenState → Prop
  | .value made, s, t => Yields made s t
  | .flow, s, t => Adds s t
  | .sections before after, s, t =>
      Adds s t ∧ ∀ e ∈ after.cases, e ∈ before.cases ∨ Origin s t e.guard

/-- The guards of a switch are put away with its table, which is filled in behind the sections. -/
theorem Adds.switch {s t u : GenState} {table : SwitchTable} (ht : Run (.value []) s t)
    (hu : Run (.sections {} table)
      (after (put .switch 0 0 (.switch t.program.switches.length)) (after reserveSwitch t)) u)
    (h : Adds s t)
    (h' : Adds (after (put .switch 0 0 (.switch t.program.switches.length)) (after reserveSwitch t)) u)
    (hg : ∀ e ∈ table.cases,
      Origin (after (put .switch 0 0 (.switch t.program.switches.length)) (after reserveSwitch t)) u e.guard) :
    Adds s (after (fillSwitch t.program.switches.length { table with out := u.code.size }) u) := by
  have hst := ht.keeps.longer
  have filled : u.program.Precedes
      (after (fillSwitch t.program.switches.length { table with out := u.code.size }) u).program :=
    precedes_fillSwitch _ _ u
  have reserved : t.program.Precedes
      (after (put .switch 0 0 (.switch t.program.switches.length)) (after reserveSwitch t)).program :=
    precedes_reserveSwitch t
  -- The table lies behind all those of the subject and in front of all those of the sections.
  have older : ∀ {c : Code}, Origin s t c →
      Origin s (after (fillSwitch t.program.switches.length { table with out := u.code.size }) u) c := by
    intro c hc
    refine hc.mono (Nat.le_refl _) hu.frame.reports (reserved.trans (hu.precedes.trans filled)) (fun k _ hk => ?_)
      hu.keeps.filled
    have hkept := hu.keeps.tables k (by simp [after_put, after_reserveSwitch]; omega)
    rw [after_fillSwitch, List.getElem?_set_ne (Nat.ne_of_gt hk), hkept, after_put, after_reserveSwitch,
      List.getElem?_append_left hk]
  have newer : ∀ {c : Code},
      Origin (after (put .switch 0 0 (.switch t.program.switches.length)) (after reserveSwitch t)) u c →
      Origin s (after (fillSwitch t.program.switches.length { table with out := u.code.size }) u) c := by
    intro c hc
    refine hc.mono (Nat.le_trans hst reserved.switches) List.prefix_rfl filled (fun k hk _ => ?_) List.prefix_rfl
    simp only [after_put, after_reserveSwitch, List.length_append, List.length_singleton] at hk
    rw [after_fillSwitch, List.getElem?_set_ne (by omega)]
  have stock := stock_reserveSwitch t
  have hthunks : (after reserveSwitch t).program.thunks = t.program.thunks := congrArg Stock.thunks stock
  have hbodies : (after reserveSwitch t).program.bodies = t.program.bodies := congrArg Stock.bodies stock
  refine ⟨fun c hc => ?_, fun c hc => ?_, fun i frame hframe v hv => ?_⟩
  · rcases thunks_fillSwitch hc with hc | ⟨e, he, rfl⟩
    · rcases h'.thunks c hc with hc | hc
      · exact (h.thunks c (hthunks ▸ hc)).imp id older
      · exact .inr (newer hc)
    · exact .inr (newer (hg e he))
  · rcases h'.bodies c hc with hc | hc
    · exact (h.bodies c (hbodies ▸ hc)).imp id older
    · exact .inr (newer hc)
  · rcases h'.statics i frame hframe v hv with ⟨old, hold, hv⟩ | hv
    · exact (h.statics i old hold v hv).imp id older
    · exact .inr (newer hv)

theorem Run.origins {k : Kind} {s t : GenState} (h : Run k s t) : Originates k s t := by
  induction h with
  | refl s => exact .still rfl rfl
  | trans h h' ih ih' => exact Yields.trans ih ih' h.onward h'.onward
  | quiet h => exact .still h.stock h.statics
  | put s _ p1 p2 p3 _ _ => exact .still rfl rfl
  | rewrite _ _ _ _ _ _ _ _ _ ih => exact Yields.between .refl ih (.put (.takeBack .refl))
  | mark _ _ ih => exact Yields.between .refl ih (.markCallee .refl)
  | skip _ _ ih => exact Yields.between (.emit .refl) ih (.landHere .refl)
  | choose h h' ih ih' =>
      have first := Yields.between (.emit .refl) ih .refl
      have second := Yields.between (.landHere (.emit .refl)) ih' .refl
      have all := first.trans second (.between (.emit .refl) h.onward .refl)
        (.between (.landHere (.emit .refl)) h'.onward .refl)
      exact all.between .refl (.landHere .refl)
  | @discard _ _ t _ ih => exact Yields.between .refl ih (Local.refl.change _ t.blocks t.left)
  | @thunk _ s t p1 h ih =>
      have inner : Yields _ s (after (closeContainer s.container) (after (Gen.put .done p1 1 .none) t)) :=
        .container (.between .refl ih (.put .refl))
      exact inner.add (.inl rfl) (.thunk p1 h (.congr (during_self s t) rfl rfl)
        (List.mem_append_right _ (List.mem_singleton_self _)))
  | @body s t id b op hb hop h ih =>
      have inner : Yields [] s
          (after (closeContainer s.container) (after (Gen.put .done 0 0 .none) (after (Gen.settle id op) t))) :=
        ⟨.container (.between .refl ih (.put (.settle .refl))), fun c hc => by simp at hc⟩
      exact inner.add (.inr rfl) (.body hb hop h (.congr (during_self s t) rfl rfl)
        (List.mem_append_right _ (List.mem_singleton_self _)))
  | statics _ ih => exact Yields.collected ih
  | static _ hv hs ih => exact Yields.static ih hv hs
  | owned _ _ _ _ ih => exact Yields.between (.enter .refl) ih (.leave .refl)
  | file _ hq ih => exact Yields.file ih hq
  | @lost _ s t h line problem _ ih =>
      have ih : Yields _ s t := ih
      have reported : Adds t (after (report line problem) t) := .still rfl rfl
      have onward : Onward t (after (report line problem) t) :=
        ⟨List.prefix_append _ _, .refl _, fun _ _ => rfl, List.prefix_rfl⟩
      exact ⟨ih.toAdds.trans reported h.onward onward, fun c hc => by simp at hc⟩
  | value _ ih => exact Yields.toAdds ih
  | seq h h' ih ih' => exact Adds.trans ih ih' h.onward h'.onward
  | wait | throw | settle | settleContinue => exact .still rfl rfl
  | @leap s _ id _ _ _ _ =>
      have recorded : Adds s (after (recordJump id) s) := .still rfl rfl
      exact recorded.between .refl (.jumpOn .refl)
  | block _ _ ih => exact Adds.between (.enter .refl) ih (.exitBlock .refl)
  | loop _ _ _ ih => exact Adds.between (.enter .refl) ih (.exitBlock (.put .refl))
  | each _ h h' ih ih' =>
      have source := Adds.between (.enter .refl) (Yields.toAdds ih) .refl
      have rounds := Adds.between (.await (.restartHere (.await .refl))) ih' .refl
      have all := source.trans rounds (.between (.enter .refl) h.onward .refl)
        (.between (.await (.restartHere (.await .refl))) h'.onward .refl)
      exact all.between .refl (.exitBlock (.put .refl))
  | braces _ ih => exact Adds.between (.enter .refl) ih (.leave .refl)
  | @try_ s t h ih =>
      have reserved : Adds s (after reserveException s) := .still (stock_reserveException s) rfl
      have onward : Onward s (after reserveException s) :=
        ⟨List.prefix_rfl, precedes_reserveException s, fun _ _ => rfl, List.prefix_rfl⟩
      -- The block is entered in front of the table, which makes no difference.
      have entered : Local (after reserveException s)
          (after reserveException (after (enter [.exception] s.code.size .none none) s)) := ⟨rfl, rfl, rfl, rfl, rfl, rfl⟩
      have body := Adds.between (.await entered) ih .refl
      have all := reserved.trans body onward (.between (.await entered) h.onward .refl)
      exact all.between .refl (.leave (.put (.settle .refl)))
  | @switch s t u table h h' ih ih' =>
      obtain ⟨body, hg⟩ := ih'
      have all := Adds.switch h h' (Yields.toAdds ih) body fun e he => (hg e he).resolve_left (by simp)
      exact all.between (.enter .refl) (.exitBlock .refl)
  | aside table _ ih => exact ⟨Yields.toAdds ih, fun e he => .inl he⟩
  | join h h' ih ih' =>
      obtain ⟨first, hg⟩ := ih
      obtain ⟨second, hg'⟩ := ih'
      refine ⟨first.trans second h.onward h'.onward, fun e he => ?_⟩
      rcases hg' e he with he | he
      · exact (hg e he).imp id fun hc => hc.onward h'.onward
      · exact .inr (he.mono h.precedes.switches List.prefix_rfl (.refl _) (fun _ _ _ => rfl) List.prefix_rfl)
  | @case_ table s t u guard h h' ih ih' =>
      have made : Yields [.thunk guard] s t := ih
      refine ⟨made.toAdds.trans ih' h.onward h'.onward, fun e he => ?_⟩
      rcases List.mem_append.mp he with he | he
      · exact .inl he
      · rw [List.mem_singleton.mp he]
        exact .inr ((made.made guard (.inl (by simp))).onward h'.onward)
  | default_ table h h' ih ih' =>
      exact ⟨Adds.trans (Yields.toAdds ih) ih' h.onward h'.onward, fun e he => .inl he⟩

/-! ### A whole compilation -/

/-- Every container but the main one was filled in the course of the compilation. -/
theorem Finish.origins {config : Config} {t : GenState} (h : Finish (GenState.initial config) t) (c : Code)
    (hc : c ∈ t.program.bodies ∨ c ∈ t.program.thunks) : Origin (GenState.initial config) t c := by
  have fresh : Adds (GenState.initial config) t := by
    cases h with
    | statements run => exact Adds.between .refl run.origins (.put (.settle .refl))
    | expression run p1 => exact (Yields.toAdds run.origins).between .refl (.put .refl)
  rcases hc with hc | hc
  · exact (fresh.bodies c hc).resolve_left (List.not_mem_nil)
  · exact (fresh.thunks c hc).resolve_left (List.not_mem_nil)

end StackScript
