/-
Every body of a script has a container.

What is generated on the way to a body, and behind it, adds to the tables and records and takes nothing away
from them (`Retains`).  So the container that a body fills is recorded until the end, and the finished program has
the tables that belong to it.  A generator `Houses` what holds whenever its run is part of one that ends without
an error in a given program and given records.  This is a judgment about generators and the bodies they make: a
body houses itself, and everything else houses what its parts do.
-/
import StackScript.Proofs.Traversal

namespace StackScript

open Gen

/-- A run is part of one without errors that ends in a program and in recorded containers. -/
structure Arrives (p : Program) (filled : List Filled) (s t : GenState) : Prop where
  errors : t.errors = s.errors
  completes : p.Completes s t
  recorded : t.filled ⊆ filled

namespace Arrives

variable {p : Program} {filled : List Filled} {s s' t t' u : GenState}

/-- Moves inside a container, in front of the run and behind it, do not matter. -/
theorem within (hs : Local s s') (ht : Local t t') (h : Arrives p filled s t') : Arrives p filled s' t where
  errors := by
    rw [hs.errors, ← ht.errors]
    exact h.errors
  completes := .within hs ht h.completes
  recorded := ht.filled ▸ h.recorded

/-- Static variables that are collected do not matter either. -/
theorem collected (h : Arrives p filled s { t with statics := t.statics.tail }) :
    Arrives p filled { s with statics := [] :: s.statics } t :=
  ⟨h.errors, ⟨h.completes.switches, h.completes.foreachs⟩, h.recorded⟩

/-- The run inside a container. -/
theorem container (h : Arrives p filled s (after (closeContainer s.container) t)) :
    Arrives p filled (after openContainer s) t :=
  ⟨h.errors, ⟨h.completes.switches, h.completes.foreachs⟩, fun _ hf => h.recorded (List.mem_append_left _ hf)⟩

/-- Both parts of the run are parts of the whole. -/
theorem split (h : Arrives p filled s u) (hst : Retains s t) (htu : Retains t u) :
    Arrives p filled s t ∧ Arrives p filled t u := by
  have front := hst.errors_le
  have back := htu.errors_le
  have errors := h.errors
  exact ⟨⟨by omega, h.completes.front htu, fun _ hf => h.recorded (htu.keeps.filled.subset hf)⟩,
    ⟨by omega, h.completes.back hst, h.recorded⟩⟩

end Arrives

/-- Some recorded container is filled by a statement. -/
def Stmt.IsHoused (p : Program) (filled : List Filled) (s : Stmt) : Prop := ∃ f ∈ filled, s.Fills p f.code

/-- For each of the bodies some recorded container is filled by it. -/
def Housed (p : Program) (filled : List Filled) (bodies : List Stmt) : Prop := ∀ b ∈ bodies, b.IsHoused p filled

section Housed

variable {p : Program} {filled : List Filled}

@[simp] theorem housed_nil : Housed p filled [] := nofun

@[simp] theorem housed_cons (b : Stmt) (bs : List Stmt) :
    Housed p filled (b :: bs) ↔ b.IsHoused p filled ∧ Housed p filled bs := List.forall_mem_cons

@[simp] theorem housed_append (bs cs : List Stmt) :
    Housed p filled (bs ++ cs) ↔ Housed p filled bs ∧ Housed p filled cs := List.forall_mem_append

end Housed

namespace Gen

variable {α β : Type} {p : Program} {filled : List Filled} {P Q : Prop} {value : Gen Unit}

/-- A generator that only adds to tables and records; where its run is part of one that ends in the program and
the containers, `P` holds. -/
structure Houses (p : Program) (filled : List Filled) (P : Prop) (m : Gen α) : Prop where
  stores : Stores m
  housed : ∀ s, Arrives p filled s (after m s) → P

namespace Houses

theorem mono {m : Gen α} (h : Houses p filled P m) (hpq : P → Q) : Houses p filled Q m :=
  ⟨h.stores, fun s hs => hpq (h.housed s hs)⟩

theorem bind {m : Gen α} {f : α → Gen β} (hm : Houses p filled P m) (hf : ∀ a, Houses p filled Q (f a)) :
    Houses p filled (P ∧ Q) (m >>= f) where
  stores := hm.stores.bind fun a => (hf a).stores
  housed := by
    intro s hs
    rw [after_bind] at hs
    obtain ⟨first, second⟩ := hs.split (hm.stores s) ((hf _).stores _)
    exact ⟨hm.housed s first, (hf _).housed _ second⟩

theorem nothing {m : Gen α} (h : Stores m) : Houses p filled True m := ⟨h, fun _ _ => trivial⟩

/-- What comes first houses nothing. -/
theorem behind {m : Gen α} {f : α → Gen β} (hm : Stores m) (hf : ∀ a, Houses p filled P (f a)) :
    Houses p filled P (m >>= f) :=
  ((nothing hm).bind hf).mono And.right

/-- What comes last houses nothing. -/
theorem before {m : Gen α} {f : α → Gen β} (hm : Houses p filled P m) (hf : ∀ a, Stores (f a)) :
    Houses p filled P (m >>= f) :=
  (hm.bind fun a => nothing (hf a)).mono And.left

end Houses

/-! ### Containers -/

/-- A container of its own is recorded behind those that were filled inside it. -/
theorem houses_inContainer (h : Houses p filled P value) : Houses p filled P (inContainer value) where
  stores := fun s => by
    have inner := h.stores (after openContainer s)
    exact ⟨inner.reports, inner.keeps.congr rfl rfl rfl rfl rfl (List.prefix_append _ _), inner.foreachs⟩
  housed := by
    intro s hs
    rw [after_inContainer] at hs
    exact h.housed _ hs.container

theorem houses_thunk (line : Nat) (isPresent : Bool) (h : Houses p filled P value) :
    Houses p filled P (thunk line isPresent value) :=
  houses_inContainer (h.before fun _ => ((still_setLine line).bind fun _ => still_put).stores)

theorem houses_owned {tags : List BlockTag} {first : Nat} {owner : BlockOwner} {body : Nat → Gen α}
    (h : ∀ id, Houses p filled P (body id)) : Houses p filled P (owned tags first owner body) :=
  .behind (Still.of fun _ => rfl).stores fun id => (h id).before fun _ => (Still.of fun _ => rfl).stores

theorem houses_collectingStatics {body : Gen α} (h : Houses p filled P body) : Houses p filled P (collectingStatics body) :=
  .behind (Still.of fun _ => rfl).stores fun _ => h.before fun _ => (Still.of fun _ => rfl).stores

/-- The end of a container houses nothing. -/
theorem stores_end (id : Nat) (op : Option Opcode) : Stores (do settle id op; put .done 0 0 .none) :=
  (still_settle.bind fun _ => still_put).stores

/-- A body in a container of its own is housed by it. -/
theorem housed_container {s : GenState} {id : Nat} {b : Block} {op : Option Opcode} (hb : s.blocks.Innermost id b)
    (hf : s.blocks.Floor id) (ho : b.Opens op) (body : Stmt) (hs : Arrives p filled s (after (inContainer do
      body.gen
      settle id op
      put .done 0 0 .none) s)) : body.IsHoused p filled := by
  refine ⟨_, hs.recorded (List.mem_append_right _ (List.mem_singleton_self _)), ?_⟩
  rw [after_inContainer, after_bind, after_bind] at hs
  have inner : Arrives p filled (after openContainer s) (after body.gen (after openContainer s)) :=
    .within .refl (.put (.settle .refl)) hs.container
  exact ho.stmt_fills (s := after openContainer s) hb hf rfl body inner.errors inner.completes

theorem houses_functionBody (name : String) (className : Option String) (body : Stmt) (h : Houses p filled P body.gen) :
    Houses p filled (body.IsHoused p filled ∧ P) (functionBody name className body.gen) where
  stores := (houses_owned fun id => houses_collectingStatics <| houses_inContainer <| h.before fun _ =>
    stores_end id (some .throw)).stores
  housed := by
    intro s hs
    refine ⟨?_, (houses_owned fun id => houses_collectingStatics <| houses_inContainer <| h.before fun _ =>
      stores_end id (some .throw)).housed s hs⟩
    rw [functionBody, after_owned, after_collectingStatics] at hs
    have hb := innermost_enter [.guarded, .function] 0 (.function name className) none s
    have hop : IsBody { tags := [.guarded, .function], first := 0, owner := .function name className } (some .throw) :=
      ⟨rfl, rfl, rfl, .inl ⟨rfl, rfl⟩⟩
    let front := after (enter [.guarded, .function] 0 (.function name className) none) s
    have inner : Arrives p filled front _ := .within (.enter .refl) (.leave .refl) hs
    exact housed_container (s := { front with statics := [] :: s.statics }) hb (.body rfl rfl) hop.opens body inner.collected

theorem houses_catchBody (body : Stmt) (h : Houses p filled P body.gen) :
    Houses p filled (body.IsHoused p filled ∧ P) (catchBody body.gen) where
  stores := (houses_owned fun id => houses_inContainer <| h.before fun _ => stores_end id none).stores
  housed := by
    intro s hs
    refine ⟨?_, (houses_owned fun id => houses_inContainer <| h.before fun _ => stores_end id none).housed s hs⟩
    rw [catchBody, after_owned] at hs
    have hb := innermost_enter [.exception, .guarded] 0 .none none s
    have hop : IsBody { tags := [.exception, .guarded], first := 0, owner := .none } none :=
      ⟨rfl, rfl, rfl, .inr ⟨rfl, rfl⟩⟩
    exact housed_container hb (.body rfl rfl) hop.opens body (.within (.enter .refl) (.leave .refl) hs)

/-- The sections run while their table is reserved; what they house does not depend on the table. -/
theorem houses_switchRest {sections : SwitchTable → Gen SwitchTable} (h : ∀ table, Houses p filled P (sections table))
    (fault : Option Report) : Houses p filled P (switchRest sections fault) := by
  let front (s : GenState) := after (put .switch 0 0 (.switch s.program.switches.length)) (after reserveSwitch s)
  let last (s : GenState) := after (reportFault fault) (after (sections {}) (front s))
  let table (s : GenState) := { result (sections {}) (front s) with out := (last s).code.size }
  have unfolded (s : GenState) : after (switchRest sections fault) s =
      after (fillSwitch s.program.switches.length (table s)) (last s) := rfl
  have body : Houses p filled P (do
      let _ ← sections {}
      reportFault fault) := (h {}).before fun _ => (still_reportFault fault).stores
  have inner (s : GenState) : Retains (after reserveSwitch s) (last s) :=
    (Retains.of rfl : Retains (after reserveSwitch s) (front s)).trans (body.stores (front s))
  refine ⟨fun s => ?_, fun s hs => ?_⟩
  · rw [unfolded]
    exact ⟨(inner s).reports, (inner s).keeps.reserved, (inner s).foreachs⟩
  · rw [unfolded] at hs
    have completes := (hs.completes.reserved (inner s).keeps).2
    exact body.housed (front s) ⟨hs.errors, ⟨completes.switches, completes.foreachs⟩, hs.recorded⟩

theorem houses_tryBody (h : Houses p filled P value) : Houses p filled P (tryBody value) :=
  .behind still_here.stores fun _ => houses_owned fun _ => .behind (fun _ => .of rfl) fun _ =>
    .behind still_await.stores fun _ => h.before fun _ => (still_settle.bind fun _ => still_put.bind fun _ => still_pure _).stores

/-- The bodies of clauses house themselves. -/
theorem houses_clauses (table : Nat) (cs : List CatchClause) (h : ∀ b ∈ cs.filterMap CatchClause.body?,
    Houses p filled (Housed p filled b.bodies) b.gen) :
    Houses p filled (Housed p filled (CatchClause.allBodies cs)) (CatchClause.genAll table cs) := by
  induction cs with
  | nil =>
      exact (Houses.nothing (still_pure ()).stores).mono fun _ => housed_nil
  | cons c cs ih =>
      simp only [CatchClause.allBodies, housed_append]
      cases c with
      | malformed r =>
          simp only [CatchClause.bodies, housed_nil]
          exact (Houses.nothing (still_report _ _).stores).bind fun _ => ih h
      | clause className binding body =>
          simp only [CatchClause.bodies, housed_cons]
          have added : ∀ code, Stores (addCatch table ⟨className, binding, code⟩) := fun _ _ => .of rfl
          exact ((houses_catchBody body (h body (List.mem_cons_self ..))).before added).bind fun _ => ih fun b hb => h b (List.mem_cons_of_mem _ hb)

end Gen

/-- A judgment: every body made is housed. -/
def housing (p : Program) (filled : List Filled) : ScriptJudgment where
  Claims := fun bodies m => Houses p filled (Housed p filled bodies) m
  still := fun h => (Houses.nothing h.stores).mono fun _ => housed_nil
  bind := fun hm hf => (hm.bind hf).mono (housed_append ..).mpr
  perm := fun h hm => hm.mono fun hbodies b hb => hbodies b (h.mem_iff.mpr hb)
  thunk := fun line value h => houses_thunk line value.isPresent h
  switchRest := fun fault h => houses_switchRest h fault
  functionBody := fun name className body h => (houses_functionBody name className body h).mono (housed_cons ..).mpr
  tryCatch := by
    intro _ body clauses fault hb hc
    exact ((houses_tryBody hb).bind fun table => (houses_clauses table clauses hc).before fun _ =>
      (still_reportFault fault).stores).mono (housed_append ..).mpr
  completeClass := fun head c => (Houses.nothing (stores_completeClass head c)).mono fun _ => housed_nil

/-- The bodies of a whole script are housed. -/
theorem Script.houses_bodies {p : Program} {filled : List Filled} (script : Script) :
    Houses p filled (Housed p filled script.bodies) script.gen := (housing p filled).claims_script script

end StackScript
