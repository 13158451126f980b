/-
Expressions that have to be there.

A loop needs a condition, a label its guard, a constant its value.  `Script.demands` lists the expressions of a
script that have to be there, each with what it is there for.  Some are looked at when they are read, others when
code is generated for them; nobody looks at the condition of an `if`, at the value of a constant and at what an
entry of an array refers to.
-/
import StackScript.Proofs.Leftovers
import StackScript.Proofs.Ranges.Building
import StackScript.Proofs.Reading.Unbounded

namespace StackScript

/-! ### Places of a script -/

/-- What an expression has to be there for. -/
inductive Role where
  /-- To choose a branch of an `if`. -/
  | branch
  /-- To end a loop. -/
  | test
  /-- To choose a label of a switch. -/
  | subject
  /-- To be gone through by a `foreach`. -/
  | source
  | guard
  | default_
  | constant
  /-- To be the value of a constant or an attribute of a class. -/
  | member
  | static
  | thrown
  /-- To be referred to by an entry of an array. -/
  | reference
deriving DecidableEq

namespace Role

/-- Whether the generator reports that the expression is missing. -/
def isReported : Role → Bool
  | test | subject | source | member | static | thrown => true
  | _ => false

end Role

/-- An expression of a script that has to be there. -/
structure Demand where
  role : Role
  value : Expr

/-- What an entry of an array refers to. -/
def ItemMark.demands (mark : ItemMark) (value : Expr) : List Demand :=
  if mark.byRef then [⟨.reference, value⟩] else []

mutual

/-- The expressions inside an expression that have to be there. -/
def Expr.demands : Expr → List Demand
  | .tree root => Leaf.treeDemands root
  | _ => []

def Leaf.treeDemands : Tree Leaf → List Demand
  | .leaf _ content => content.demands
  | .prefixed _ _ x | .postfixed _ _ x | .append _ x => Leaf.treeDemands x
  | .binary _ _ x y | .assign _ _ x y | .index _ x y => Leaf.treeDemands x ++ Leaf.treeDemands y
  | .ternary _ c x y => Leaf.treeDemands c ++ (Leaf.treeDemands x ++ Leaf.treeDemands y)
  | .call _ f xs => Leaf.treeDemands f ++ Leaf.treesDemands xs

def Leaf.treesDemands : List (Tree Leaf) → List Demand
  | [] => []
  | t :: ts => Leaf.treeDemands t ++ Leaf.treesDemands ts

def Leaf.demands : Leaf → List Demand
  | .template first rest => first.demands ++ Piece.allDemands rest
  | .computedVariable _ _ name _ _ => name.demands
  | .array entries _ => Entry.allDemands entries
  | .list targets => Expr.allDemands targets
  | .closure _ _ params _ _ body => Parameter.allDemands params ++ body.demands
  | .construct _ argument => argument.demands
  | _ => []

def Piece.demands : Piece → List Demand
  | .value _ root => Leaf.treeDemands root
  | _ => []

def Piece.allDemands : List Piece → List Demand
  | [] => []
  | p :: ps => p.demands ++ Piece.allDemands ps

def Entry.demands : Entry → List Demand
  | .plain _ value mark | .unkeyed _ value mark => mark.demands value ++ value.demands
  | .keyed _ key keyMark value mark =>
    (keyMark.demands key ++ key.demands) ++ (mark.demands value ++ value.demands)

def Entry.allDemands : List Entry → List Demand
  | [] => []
  | e :: es => e.demands ++ Entry.allDemands es

def Expr.allDemands : List Expr → List Demand
  | [] => []
  | e :: es => e.demands ++ Expr.allDemands es

def Parameter.demands : Parameter → List Demand
  | .required _ _ _ => []
  | .optional _ _ _ _ value => ⟨.default_, value⟩ :: value.demands

def Parameter.allDemands : List Parameter → List Demand
  | [] => []
  | p :: ps => p.demands ++ Parameter.allDemands ps

def Chain.demands : Chain → List Demand
  | .branch test _ body rest => ⟨.branch, test⟩ :: (test.demands ++ (body.demands ++ rest.demands))
  | .otherwise body => body.demands
  | _ => []

def Section.demands : Section → List Demand
  | .case_ _ guard _ body => ⟨.guard, guard⟩ :: (guard.demands ++ Stmt.allDemands body)
  | .default_ _ _ body => Stmt.allDemands body

def Section.allDemands : List Section → List Demand
  | [] => []
  | s :: ss => s.demands ++ Section.allDemands ss

def ForeachHead.demands : ForeachHead → List Demand
  | .malformed _ => []
  | .unbound _ binding => binding.demands
  | .key _ binding rest => binding.demands ++ rest.demands
  | .value _ _ binding body => binding.demands ++ body.demands

def CatchClause.demands : CatchClause → List Demand
  | .malformed _ => []
  | .clause _ _ body => body.demands

def CatchClause.allDemands : List CatchClause → List Demand
  | [] => []
  | c :: cs => c.demands ++ CatchClause.allDemands cs

def Declarator.demands : Declarator → List Demand
  | .assigned _ _ assignment => assignment.demands
  | .staticValue _ _ _ value => ⟨.static, value⟩ :: value.demands
  | _ => []

def Declarator.allDemands : List Declarator → List Demand
  | [] => []
  | d :: ds => d.demands ++ Declarator.allDemands ds

def Member.demands : Member → List Demand
  | .constant _ _ value | .attributeValue _ _ _ value => ⟨.member, value⟩ :: value.demands
  | .signature _ _ params _ => Parameter.allDemands params
  | .method _ _ params _ body => Parameter.allDemands params ++ body.demands
  | _ => []

def Member.allDemands : List Member → List Demand
  | [] => []
  | m :: ms => m.demands ++ Member.allDemands ms

def Stmt.demands : Stmt → List Demand
  | .sequence items | .block items _ | .namespace_ _ items => Stmt.allDemands items
  | .onLine _ body | .doWithoutTest body _ => body.demands
  | .expression value | .return_ value | .exit value => value.demands
  | .conditional chain => chain.demands
  | .switch subject _ sections _ => ⟨.subject, subject⟩ :: (subject.demands ++ Section.allDemands sections)
  | .switchWithoutBody subject _ _ => ⟨.subject, subject⟩ :: subject.demands
  | .whileLoop test _ body => ⟨.test, test⟩ :: (test.demands ++ body.demands)
  | .doLoop body test _ => ⟨.test, test⟩ :: (body.demands ++ test.demands)
  | .forLoop _ init test _ body post _ => init.demands ++ (test.demands ++ (body.demands ++ post.demands))
  | .foreach _ source _ head => ⟨.source, source⟩ :: (source.demands ++ head.demands)
  | .tryCatch body clauses _ => body.demands ++ CatchClause.allDemands clauses
  | .throw _ value => ⟨.thrown, value⟩ :: value.demands
  | .constant _ _ value => ⟨.constant, value⟩ :: value.demands
  | .declaration _ items _ => Declarator.allDemands items
  | .function _ params _ body => Parameter.allDemands params ++ body.demands
  | .class_ _ members _ => Member.allDemands members
  | .empty | .report _ | .raw _ | .loopJump _ _ _ _ | .using_ _ => []

def Stmt.allDemands : List Stmt → List Demand
  | [] => []
  | s :: ss => s.demands ++ Stmt.allDemands ss

end

/-- The expressions of a script that have to be there, in the order of the source as a rule. -/
def Script.demands : Script → List Demand
  | .statements items => Stmt.allDemands items
  | .expression value _ => value.demands

/-! ### What the generator reports -/

/-- The tokens there form an expression, if there are any. -/
def Expr.isReadable : Expr → Bool
  | rejected _ => false
  | _ => true

/-- The expression is there, or nobody reports that it is not. -/
def Demand.isMet (d : Demand) : Bool := d.value.isPresent || d.value.isMissing && !d.role.isReported

/-- All of the expressions are there, but for those that nobody reports. -/
def Met (demands : List Demand) : Prop := ∀ d ∈ demands, d.isMet = true

namespace Met

variable {d : Demand} {ds es : List Demand}

theorem nil : Met [] := nofun

theorem cons (h : d.isMet = true ∧ Met ds) : Met (d :: ds) := List.forall_mem_cons.mpr h

theorem append (h : Met ds ∧ Met es) : Met (ds ++ es) := List.forall_mem_append.mpr h

end Met

namespace Expr

/-- What can be read is there or missing. -/
theorem isMet_of_readable {e : Expr} (h : e.isReadable = true) {role : Role}
    (hrole : role.isReported = true → e.isMissing = false) : (Demand.mk role e).isMet = true := by
  cases e with
  | tree root => rfl
  | rejected error => exact absurd h Bool.false_ne_true
  | missing =>
      cases hr : role.isReported with
      | true => exact absurd (hrole hr) (by decide)
      | false => simp [Demand.isMet, hr, isMissing]

/-- What is present can be read and is there. -/
theorem isMissing_of_isPresent {e : Expr} (h : e.isPresent = true) : e.isMissing = false := by
  cases e with
  | tree root => rfl
  | _ => exact absurd h Bool.false_ne_true

end Expr

/-- Where no token is left over, an empty condition would not be explained. -/
theorem Expr.isMissing_of_explained {e : Expr} {strays : List Token} (h : (!e.isMissing || !strays.isEmpty) = true)
    (hstrays : strays.isEmpty = true) : e.isMissing = false := by
  rw [hstrays] at h
  simpa using h

theorem ItemMark.met_demands {mark : ItemMark} {value : Expr} (h : value.isReadable = true) : Met (mark.demands value) := by
  unfold ItemMark.demands
  split
  · exact .cons ⟨Expr.isMet_of_readable h nofun, .nil⟩
  · exact .nil

namespace Gen

variable {P : Prop} {value : Gen Unit}

/-- What is met by a part and what is met by the rest are met by both. -/
theorem Tells.append {α β : Type} {m : Gen α} {f : α → Gen β} {ds es : List Demand} (hm : Tells (Met ds) m)
    (hf : ∀ a, Tells (Met es) (f a)) : Tells (Met (ds ++ es)) (m >>= f) := (hm.bind hf).mono Met.append

/-- An empty value of a class is reported. -/
theorem tells_memberValue_present (head : MemberHead) {problem : Problem} (hproblem : problem.severity = .error)
    (line : Nat) (isPresent : Bool) (h : Tells P value) :
    Tells (P ∧ isPresent = true) (memberValue head problem line isPresent value) := by
  refine (tells_thunk line isPresent h).bind fun code => ?_
  cases isPresent with
  | true => exact .pure code rfl
  | false => exact ((tells_error head.line hproblem).mono False.elim).before fun _ => logs_pure code

/-- So is an empty first value of a static variable. -/
theorem tells_staticValue_present (line : Nat) (type : TypeSpec) (name : String) (valueLine : Nat) (isPresent : Bool)
    (h : Tells P value) : Tells (P ∧ isPresent = true) (staticValue line type name valueLine isPresent value) := by
  have add : ∀ init, Logs (static line type name init) := fun init =>
    (turns_static (F := []) (n := 0) line type name init).goes.logs
  refine (tells_thunk valueLine isPresent h).bind fun init => ?_
  cases isPresent with
  | true => exact (Tells.nothing (add init)).mono fun _ => rfl
  | false => exact ((tells_error line rfl).mono False.elim).before fun _ => add init

/-- So is a throw of nothing. -/
theorem tells_throw_present (line : Nat) (isPresent : Bool) (h : Tells P value) :
    Tells (P ∧ isPresent = true) (throw line isPresent value) := by
  refine h.bind fun _ => ?_
  cases isPresent with
  | true => exact (Tells.nothing (logs_get.bind fun _ => logs_await)).mono fun _ => rfl
  | false => exact (tells_error line rfl).mono False.elim

end Gen

open Gen

mutual

theorem Expr.tells_demands (access : Access) (restriction : Option Restriction) :
    (e : Expr) → e.meets .read = true → Tells (e.isReadable = true ∧ Met e.demands) (e.gen access restriction)
  | .missing, _ => .pure () ⟨rfl, .nil⟩
  | .rejected error, _ => (tells_error error.line rfl).mono False.elim
  | .tree root, h =>
    .behind (valued_restrict restriction root).logs fun _ =>
      (Leaf.tells_treeDemands access root h).mono fun met => ⟨rfl, met⟩

theorem Leaf.tells_treeDemands (access : Access) :
    (t : Tree Leaf) → Leaf.treeMeets .read t = true → Tells (Met (Leaf.treeDemands t)) (Leaf.genTree access t)
  | .leaf p content, h => by
    have h := (Bool.and_eq_true_iff.mp h).2
    exact Leaf.tells_demands access content h
  | .prefixed p op x, h => by
    have h := (Bool.and_eq_true_iff.mp h).2
    exact tells_prefixed _ _ (Leaf.tells_treeDemands access x h)
  | .postfixed p op x, h => by
    have h := (Bool.and_eq_true_iff.mp h).2
    exact tells_postfixed _ _ (Leaf.tells_treeDemands access x h)
  | .binary p op x y, h => by
    obtain ⟨h, h₃⟩ := Bool.and_eq_true_iff.mp h
    obtain ⟨_, h₂⟩ := Bool.and_eq_true_iff.mp h
    exact (tells_binary _ _ (Leaf.tells_treeDemands access x h₂) (Leaf.tells_treeDemands access y h₃)).mono Met.append
  | .assign p op target value, h => by
    obtain ⟨h, h₃⟩ := Bool.and_eq_true_iff.mp h
    obtain ⟨_, h₂⟩ := Bool.and_eq_true_iff.mp h
    exact (tells_assign _ _ (Leaf.tells_treeDemands access value h₃)
      (Leaf.tells_treeDemands access.target target h₂)).mono fun ⟨back, front⟩ => .append ⟨front, back⟩
  | .ternary p c x y, h => by
    obtain ⟨h, h₄⟩ := Bool.and_eq_true_iff.mp h
    obtain ⟨h, h₃⟩ := Bool.and_eq_true_iff.mp h
    obtain ⟨_, h₂⟩ := Bool.and_eq_true_iff.mp h
    exact (tells_ternary _ (Leaf.tells_treeDemands access c h₂) (Leaf.tells_treeDemands access x h₃)
      (Leaf.tells_treeDemands access y h₄)).mono
      fun ⟨test, yes, no⟩ => .append ⟨test, .append ⟨yes, no⟩⟩
  | .call p f xs, h => by
    obtain ⟨h, h₃⟩ := Bool.and_eq_true_iff.mp h
    obtain ⟨_, h₂⟩ := Bool.and_eq_true_iff.mp h
    exact (tells_call _ _ (Leaf.tells_treesDemands access.argument xs h₃)
      (Leaf.tells_treeDemands access f h₂)).mono fun ⟨back, front⟩ => .append ⟨front, back⟩
  | .index p x k, h => by
    obtain ⟨h, h₃⟩ := Bool.and_eq_true_iff.mp h
    obtain ⟨_, h₂⟩ := Bool.and_eq_true_iff.mp h
    exact (tells_index _ _ (Leaf.tells_treeDemands access x h₂) (Leaf.tells_treeDemands access.key k h₃)).mono Met.append
  | .append p x, h => by
    have h := (Bool.and_eq_true_iff.mp h).2
    exact tells_append _ _ (Leaf.tells_treeDemands access x h)

theorem Leaf.tells_treesDemands (access : Access) :
    (ts : List (Tree Leaf)) → Leaf.treesMeet .read ts = true → Tells (Met (Leaf.treesDemands ts)) (Leaf.genTrees access ts)
  | [], _ => .pure () .nil
  | t :: ts, h => by
    obtain ⟨h₁, h₂⟩ := Bool.and_eq_true_iff.mp h
    exact (Leaf.tells_treeDemands access t h₁).append fun _ => Leaf.tells_treesDemands access ts h₂

theorem Leaf.tells_demands (access : Access) :
    (l : Leaf) → l.meets .read = true → Tells (Met l.demands) (l.gen access)
  | .unread line, _ => (tells_error line rfl).mono False.elim
  | .number t, _ => (Tells.nothing (emits_number t).valued.logs).mono fun _ => .nil
  | .simpleString text, _ => (Tells.nothing (emits_string _).valued.logs).mono fun _ => .nil
  | .template first rest, h => by
    obtain ⟨h₁, h₂⟩ := Bool.and_eq_true_iff.mp h
    exact (Piece.tells_demands first h₁).append fun _ => (Piece.tells_allDemands rest h₂).before fun _ =>
      (valued_joinPieces ((first :: rest).countP Piece.isPresent)).logs
  | .variable line name extra, _ =>
    (Tells.nothing (emits_loadVariable access line name extra).valued.logs).mono fun _ => .nil
  | .computedVariable line braceLine name stray extra, h =>
    (tells_computedVariable access line braceLine _ (Expr.tells_demands _ _ name h) stray extra).mono
      fun met => met.1.2
  | .blankVariable line braceLine, _ =>
    (Tells.nothing (emits_blankVariable line braceLine).valued.logs).mono fun _ => .nil
  | .name path t, _ => (Tells.nothing (emits_name path t).valued.logs).mono fun _ => .nil
  | .array entries incomplete, h => tells_array _ (Entry.tells_allDemands entries h) incomplete
  | .list targets, h => tells_list _ (Expr.tells_allDemands targets h)
  | .closure line returns params fault captures body, h => by
    obtain ⟨h₁, h₂⟩ := Bool.and_eq_true_iff.mp h
    exact (tells_closure line returns (Parameter.tells_allDemands params h₁) fault captures (Stmt.tells_demands body h₂)).mono Met.append
  | .construct word argument, h => (tells_construct word _ (Expr.tells_demands _ _ argument h)).mono And.right

theorem Piece.tells_demands : (p : Piece) → p.meets .read = true → Tells (Met p.demands) p.gen
  | .text text, _ => (Tells.nothing (emits_string text).valued.logs).mono fun _ => .nil
  | .value _ root, h => .behind (logs_reportAll _) fun _ => Leaf.tells_treeDemands {} root h
  | .rejected _ error, _ => .behind (logs_reportAll _) fun _ => (tells_error error.line rfl).mono False.elim

theorem Piece.tells_allDemands :
    (ps : List Piece) → Piece.allMeet .read ps = true → Tells (Met (Piece.allDemands ps)) (Piece.genAll ps)
  | [], _ => .pure () .nil
  | p :: ps, h => by
    obtain ⟨h₁, h₂⟩ := Bool.and_eq_true_iff.mp h
    exact (Piece.tells_demands p h₁).append fun _ => Piece.tells_allDemands ps h₂

theorem Entry.tells_demands : (e : Entry) → e.meets .read = true → Tells (Met e.demands) e.gen
  | .plain line value mark, h => by
    have h := (Bool.and_eq_true_iff.mp h).2
    exact (tells_plainEntry line (tells_item mark (Expr.tells_demands _ _ value h))).mono
      fun ⟨⟨readable, met⟩, _⟩ => .append ⟨mark.met_demands readable, met⟩
  | .keyed line key keyMark value mark, h => by
    obtain ⟨h, h₃⟩ := Bool.and_eq_true_iff.mp h
    obtain ⟨_, h₂⟩ := Bool.and_eq_true_iff.mp h
    exact (tells_keyedEntry line (tells_item keyMark (Expr.tells_demands _ _ key h₂))
      (tells_item mark (Expr.tells_demands _ _ value h₃))).mono fun ⟨⟨⟨readable, met⟩, _⟩, ⟨readable', met'⟩, _⟩ =>
        .append ⟨.append ⟨keyMark.met_demands readable, met⟩, .append ⟨mark.met_demands readable', met'⟩⟩
  | .unkeyed line value mark, h => by
    have h := (Bool.and_eq_true_iff.mp h).2
    exact (tells_unkeyedEntry line (tells_item mark (Expr.tells_demands _ _ value h))).mono
      fun ⟨⟨readable, met⟩, _⟩ => .append ⟨mark.met_demands readable, met⟩

theorem Entry.tells_allDemands :
    (es : List Entry) → Entry.allMeet .read es = true → Tells (Met (Entry.allDemands es)) (Entry.genAll es)
  | [], _ => .pure () .nil
  | e :: es, h => by
    obtain ⟨h₁, h₂⟩ := Bool.and_eq_true_iff.mp h
    exact (Entry.tells_demands e h₁).append fun _ => Entry.tells_allDemands es h₂

theorem Expr.tells_allDemands :
    (es : List Expr) → Expr.allMeet .read es = true → Tells (Met (Expr.allDemands es)) (Expr.genTargets es)
  | [], _ => .pure () .nil
  | e :: es, h => by
    obtain ⟨h₁, h₂⟩ := Bool.and_eq_true_iff.mp h
    exact ((Expr.tells_demands _ _ e h₁).mono And.right).append fun _ => Expr.tells_allDemands es h₂

theorem Parameter.tells_demands : (p : Parameter) → p.meets .read = true → Tells (Met p.demands) p.gen
  | .required _ _ _, _ => .pure _ .nil
  | .optional _ _ _ line value, h =>
    ((tells_thunk line _ (Expr.tells_demands _ _ value h)).mono fun ⟨readable, met⟩ =>
      .cons ⟨Expr.isMet_of_readable readable nofun, met⟩).before fun _ => logs_pure _

theorem Parameter.tells_allDemands : (ps : List Parameter) → Parameter.allMeet .read ps = true →
    Tells (Met (Parameter.allDemands ps)) (Parameter.genAll ps)
  | [], _ => .pure _ .nil
  | p :: ps, h => by
    obtain ⟨h₁, h₂⟩ := Bool.and_eq_true_iff.mp h
    exact (Parameter.tells_demands p h₁).append fun _ => (Parameter.tells_allDemands ps h₂).before fun _ => logs_pure _

theorem Chain.tells_demands (id : Nat) : (c : Chain) → c.meets .read = true → Tells (Met c.demands) (c.gen id)
  | .branch test strays body rest, h => by
    obtain ⟨h, h₄⟩ := Bool.and_eq_true_iff.mp h
    obtain ⟨h, h₃⟩ := Bool.and_eq_true_iff.mp h
    obtain ⟨_, h₂⟩ := Bool.and_eq_true_iff.mp h
    exact (tells_branch id (Expr.tells_demands _ _ test h₂) strays (Stmt.tells_demands body h₃) _
      (Chain.tells_demands id rest h₄)).mono fun ⟨⟨readable, met⟩, _, body, rest⟩ =>
        .cons ⟨Expr.isMet_of_readable readable nofun, .append ⟨met, .append ⟨body, rest⟩⟩⟩
  | .otherwise body, h => Stmt.tells_demands body h
  | .malformed r, _ => (Tells.nothing (logs_report _ _)).mono fun _ => .nil
  | .done, _ => .pure () .nil

theorem Section.tells_demands : (sec : Section) → sec.meets .read = true → (table : SwitchTable) →
    Tells (Met sec.demands) (sec.gen table)
  | .case_ line guard strays body, h => by
    intro table
    obtain ⟨h₁, h₂⟩ := Bool.and_eq_true_iff.mp h
    exact (tells_caseSection line _ (Expr.tells_demands _ _ guard h₁) strays (Stmt.tells_allDemands body h₂) table).mono
      fun ⟨⟨readable, met⟩, _, body⟩ => .cons ⟨Expr.isMet_of_readable readable nofun, .append ⟨met, body⟩⟩
  | .default_ line strays body, h => by
    intro table
    exact (tells_defaultSection line strays (Stmt.tells_allDemands body h) table).mono And.right

theorem Section.tells_allDemands : (ss : List Section) → Section.allMeet .read ss = true → (table : SwitchTable) →
    Tells (Met (Section.allDemands ss)) (Section.genAll ss table)
  | [], _ => by
    intro table
    exact .pure _ .nil
  | sec :: ss, h => by
    intro table
    obtain ⟨h₁, h₂⟩ := Bool.and_eq_true_iff.mp h
    exact (Section.tells_demands sec h₁ table).append fun next => Section.tells_allDemands ss h₂ next

theorem ForeachHead.tells_demands (id line : Nat) (key : Option String) :
    (x : ForeachHead) → x.meets .read = true → Tells (Met x.demands) (x.gen id line key)
  | .malformed problem, _ => (Tells.nothing (logs_report _ _)).mono fun _ => .nil
  | .unbound bindingLine binding, h => (tells_unbound _ (Expr.tells_demands _ _ binding h)).mono And.right
  | .key name binding rest, h => by
    obtain ⟨h₁, h₂⟩ := Bool.and_eq_true_iff.mp h
    exact (tells_discarding ((Expr.tells_demands _ _ binding h₁).mono And.right)).append fun _ =>
      ForeachHead.tells_demands id line (some name) rest h₂
  | .value byRef name binding body, h => by
    obtain ⟨h₁, h₂⟩ := Bool.and_eq_true_iff.mp h
    exact (tells_discarding ((Expr.tells_demands _ _ binding h₁).mono And.right)).append fun _ =>
      tells_foreachLoop id _ (Stmt.tells_demands body h₂)

theorem CatchClause.tells_demands (table : Nat) :
    (c : CatchClause) → c.meets .read = true → Tells (Met c.demands) (c.gen table)
  | .malformed _, _ => (Tells.nothing (logs_report _ _)).mono fun _ => .nil
  | .clause _ _ body, h =>
    (tells_catchBody (Stmt.tells_demands body h)).before fun _ => .of fun _ => rfl

theorem CatchClause.tells_allDemands (table : Nat) : (cs : List CatchClause) → CatchClause.allMeet .read cs = true →
    Tells (Met (CatchClause.allDemands cs)) (CatchClause.genAll table cs)
  | [], _ => .pure () .nil
  | c :: cs, h => by
    obtain ⟨h₁, h₂⟩ := Bool.and_eq_true_iff.mp h
    exact (CatchClause.tells_demands table c h₁).append fun _ => CatchClause.tells_allDemands table cs h₂

theorem Declarator.tells_demands (type : TypeSpec) :
    (d : Declarator) → d.meets .read = true → Tells (Met d.demands) (d.gen type)
  | .plain line name, _ => (Tells.nothing (valued_declare line type name).logs).mono fun _ => .nil
  | .assigned _ _ assignment, h => (tells_assigned _ _ _ _ (Expr.tells_demands _ _ assignment h)).mono And.right
  | .static line name, _ =>
    (Tells.nothing (turns_static (F := []) (n := 0) line type name #[]).goes.logs).mono fun _ => .nil
  | .staticValue _ _ _ value, h =>
    (tells_staticValue_present _ _ _ _ _ (Expr.tells_demands _ _ value h)).mono fun ⟨⟨readable, met⟩, present⟩ =>
      .cons ⟨Expr.isMet_of_readable readable fun _ => Expr.isMissing_of_isPresent present, met⟩

theorem Declarator.tells_allDemands (type : TypeSpec) : (ds : List Declarator) → Declarator.allMeet .read ds = true →
    Tells (Met (Declarator.allDemands ds)) (Declarator.genAll type ds)
  | [], _ => .pure () .nil
  | d :: ds, h => by
    obtain ⟨h₁, h₂⟩ := Bool.and_eq_true_iff.mp h
    exact (Declarator.tells_demands type d h₁).append fun _ => Declarator.tells_allDemands type ds h₂

theorem Member.tells_demands : (m : Member) → m.meets .read = true → (c : ClassDef) → Tells (Met m.demands) (m.gen c)
  | .report r, _ => by
    intro c
    exact .behind (logs_report _ _) fun _ => .pure c .nil
  | .constant head line value, h => by
    intro c
    exact ((tells_memberValue_present head rfl line _ (Expr.tells_demands _ _ value h)).mono
      fun ⟨⟨readable, met⟩, present⟩ => .cons ⟨Expr.isMet_of_readable readable fun _ => Expr.isMissing_of_isPresent present,
        met⟩).before fun _ => logs_pure _
  | .attribute head type, _ => by
    intro c
    exact .pure _ .nil
  | .attributeValue head type line value, h => by
    intro c
    exact ((tells_memberValue_present head rfl line _ (Expr.tells_demands _ _ value h)).mono
      fun ⟨⟨readable, met⟩, present⟩ => .cons ⟨Expr.isMet_of_readable readable fun _ => Expr.isMissing_of_isPresent present,
        met⟩).before fun _ => logs_pure _
  | .signature head function params fault, h => by
    intro c
    exact (tells_arguments (Parameter.tells_allDemands params h) fault).before fun _ => logs_pure _
  | .method head function params fault body, h => by
    intro c
    obtain ⟨h₁, h₂⟩ := Bool.and_eq_true_iff.mp h
    exact (tells_arguments (Parameter.tells_allDemands params h₁) fault).append fun args =>
      (tells_functionDef function args (Stmt.tells_demands body h₂)).before fun _ => logs_pure _

theorem Member.tells_allDemands : (ms : List Member) → Member.allMeet .read ms = true → (c : ClassDef) →
    Tells (Met (Member.allDemands ms)) (Member.genAll ms c)
  | [], _ => by
    intro c
    exact .pure c .nil
  | m :: ms, h => by
    intro c
    obtain ⟨h₁, h₂⟩ := Bool.and_eq_true_iff.mp h
    exact (Member.tells_demands m h₁ c).append fun next => Member.tells_allDemands ms h₂ next

/-- Code of a statement that reports no error leaves out nothing that somebody looks at. -/
theorem Stmt.tells_demands : (s : Stmt) → s.meets .read = true → Tells (Met s.demands) s.gen
  | .empty, _ => .pure () .nil
  | .report r, _ => (Tells.nothing (logs_report _ _)).mono fun _ => .nil
  | .sequence items, h => Stmt.tells_allDemands items h
  | .onLine line body, h =>
    .behind (logs_setLine line) fun _ => .behind valued_markBoundary.logs fun _ =>
      (Stmt.tells_demands body h).before fun _ => valued_markBoundary.logs
  | .block items unclosed, h => tells_braces (Stmt.tells_allDemands items h) unclosed
  | .raw text, _ => (Tells.nothing (valued_raw text).logs).mono fun _ => .nil
  | .expression value, h => (tells_expression _ (Expr.tells_demands _ _ value h)).mono And.right
  | .conditional chain, h => tells_inBlock fun id => Chain.tells_demands id chain h
  | .switch subject strays sections fault, h => by
    obtain ⟨h, h₃⟩ := Bool.and_eq_true_iff.mp h
    obtain ⟨h₁, h₂⟩ := Bool.and_eq_true_iff.mp h
    exact (tells_switch (Expr.tells_demands _ _ subject h₂) strays (Section.tells_allDemands sections h₃) fault).mono
      fun ⟨⟨readable, met⟩, whole, sections⟩ => .cons ⟨Expr.isMet_of_readable readable fun _ =>
        Expr.isMissing_of_explained h₁ whole, .append ⟨met, sections⟩⟩
  | .switchWithoutBody subject strays r, h => by
    obtain ⟨h₁, h₂⟩ := Bool.and_eq_true_iff.mp h
    -- Nothing is to be shown: a switch without a body is an error.
    exact tells_inBlock fun _ => .behind (Expr.tells_demands _ _ subject h₂).reports fun _ =>
      .behind (tells_reportStrays .switch strays).reports fun _ => (tells_error r.line (eq_of_beq h₁)).mono False.elim
  | .whileLoop test strays body, h => by
    obtain ⟨h, h₃⟩ := Bool.and_eq_true_iff.mp h
    obtain ⟨h₁, h₂⟩ := Bool.and_eq_true_iff.mp h
    exact (tells_whileLoop (Expr.tells_demands _ _ test h₂) strays (Stmt.tells_demands body h₃)).mono
      fun ⟨⟨readable, met⟩, whole, body⟩ => .cons ⟨Expr.isMet_of_readable readable fun _ =>
        Expr.isMissing_of_explained h₁ whole, .append ⟨met, body⟩⟩
  | .doLoop body test strays, h => by
    obtain ⟨h, h₃⟩ := Bool.and_eq_true_iff.mp h
    obtain ⟨h₁, h₂⟩ := Bool.and_eq_true_iff.mp h
    exact (tells_doLoop (Stmt.tells_demands body h₂) (Expr.tells_demands _ _ test h₃) strays).mono
      fun ⟨body, ⟨readable, met⟩, whole⟩ => .cons ⟨Expr.isMet_of_readable readable fun _ =>
        Expr.isMissing_of_explained h₁ whole, .append ⟨body, met⟩⟩
  | .doWithoutTest body r, h => tells_doWithoutTest (Stmt.tells_demands body h) r
  | .forLoop line init test afterTest body post afterPost, h => by
    obtain ⟨h, h₄⟩ := Bool.and_eq_true_iff.mp h
    obtain ⟨h, h₃⟩ := Bool.and_eq_true_iff.mp h
    obtain ⟨h₁, h₂⟩ := Bool.and_eq_true_iff.mp h
    exact (tells_forLoop line (Stmt.tells_demands init h₁) _ (Expr.tells_demands _ _ test h₂) afterTest
      (Stmt.tells_demands body h₃) _ (Expr.tells_demands _ _ post h₄) afterPost).mono
      fun ⟨init, test, body, post⟩ => .append ⟨init, .append ⟨test.2, .append ⟨body, post.2⟩⟩⟩
  | .foreach line source strays head, h => by
    obtain ⟨h, h₃⟩ := Bool.and_eq_true_iff.mp h
    obtain ⟨h₁, h₂⟩ := Bool.and_eq_true_iff.mp h
    exact (tells_foreach (Expr.tells_demands _ _ source h₂) strays fun id =>
      ForeachHead.tells_demands id line none head h₃).mono fun ⟨⟨readable, met⟩, whole, head⟩ =>
        .cons ⟨Expr.isMet_of_readable readable fun _ => Expr.isMissing_of_explained h₁ whole, .append ⟨met, head⟩⟩
  | .tryCatch body clauses fault, h => by
    obtain ⟨h₁, h₂⟩ := Bool.and_eq_true_iff.mp h
    exact (tells_tryCatch (Stmt.tells_demands body h₁) (fun table => CatchClause.tells_allDemands table clauses h₂) fault).mono Met.append
  | .throw line value, h =>
    (tells_throw_present line _ (Expr.tells_demands _ _ value h)).mono fun ⟨⟨readable, met⟩, present⟩ =>
      .cons ⟨Expr.isMet_of_readable readable fun _ => Expr.isMissing_of_isPresent present, met⟩
  | .loopJump jump line level unterminated, _ =>
    (Tells.nothing (flows_loopJump jump line level unterminated).goes.logs).mono fun _ => .nil
  | .return_ value, h => ((Expr.tells_demands _ _ value h).mono And.right).before fun _ => logs_put
  | .exit value, h => ((Expr.tells_demands _ _ value h).mono And.right).before fun _ => logs_put
  | .constant name line value, h =>
    (tells_constant name line _ (Expr.tells_demands _ _ value h)).mono fun ⟨readable, met⟩ =>
      .cons ⟨Expr.isMet_of_readable readable nofun, met⟩
  | .declaration type items fault, h =>
    (Declarator.tells_allDemands type items h).before fun _ => logs_reportFault fault
  | .namespace_ line items, h => .behind (valued_noteNamespaces line).logs fun _ => Stmt.tells_allDemands items h
  | .using_ line, _ => (Tells.nothing (valued_noteNamespaces line).logs).mono fun _ => .nil
  | .function head params fault body, h => by
    obtain ⟨h₁, h₂⟩ := Bool.and_eq_true_iff.mp h
    exact (tells_function head (Parameter.tells_allDemands params h₁) fault (Stmt.tells_demands body h₂)).mono Met.append
  | .class_ head members fault, h => tells_class_ head (Member.tells_allDemands members h) fault

theorem Stmt.tells_allDemands :
    (ss : List Stmt) → Stmt.allMeet .read ss = true → Tells (Met (Stmt.allDemands ss)) (Stmt.genAll ss)
  | [], _ => .pure () .nil
  | s :: ss, h => by
    obtain ⟨h₁, h₂⟩ := Bool.and_eq_true_iff.mp h
    exact (Stmt.tells_demands s h₁).append fun _ => Stmt.tells_allDemands ss h₂

end

/-- So does code of a whole script. -/
theorem Script.tells_demands (script : Script) (h : script.meets .read = true) : Tells (Met script.demands) script.gen := by
  cases script with
  | statements items => exact (Stmt.tells_allDemands items h).before fun _ => logs_settle.bind fun _ => logs_put
  | expression value stray =>
      exact ((Expr.tells_demands {} none value h).mono And.right).before fun _ =>
        (logs_reportFault _).bind fun _ => logs_put

/-! ### What the reader looks for -/

namespace Scan

variable {tokens : Array Token} {change : Token → Int} {p : Token → Int → Bool} {n i j : Nat} {depth : Int}

/-- A search that does not stop at its first token stops behind it. -/
theorem findAtDepth_behind (hi : ∀ t, tokens[i]? = some t → p t depth = false)
    (h : findAtDepth tokens change p n i depth = some j) : i < j := by
  cases n with
  | zero => cases h
  | succ n =>
      rw [findAtDepth] at h
      split at h
      · cases h
      · rename_i t ht
        rw [hi t ht, if_neg Bool.false_ne_true] at h
        have := findAtDepth_bounds h
        omega

/-- A search that stops behind its first token passes it by. -/
theorem findAtDepth_passes {last : Nat} (hn : 0 < n) (h : i < (findAtDepth tokens change p n i depth).getD last) :
    ∀ t, tokens[i]? = some t → p t depth = false := by
  intro t ht
  obtain ⟨n, rfl⟩ : ∃ m, n = m + 1 := ⟨n - 1, by omega⟩
  by_contra hp
  rw [findAtDepth, ht] at h
  simp [hp] at h

end Scan

/-- Where something stands, the readers miss no expression. -/
def Readers.Attentive (r : Readers) : Prop :=
  ∀ (s : TokenStream) (atComma : Bool), s.Bounded → s.pos < s.exprEnd s.pos atComma →
    ((r.expr atComma).run s).1.isMissing = false

namespace Parse

variable {s : TokenStream} {r : Readers}

/-- Reading an expression misses none that is there, whatever is made of its leaves. -/
theorem expr_present (r : Readers) (hs : s.Bounded) {atComma : Bool} (h : s.pos < s.exprEnd s.pos atComma) :
    ((Parse.expr r atComma).run s).1.isMissing = false := by
  have inside : s.exprEnd s.pos atComma ≤ s.tokens.size := by
    have short : s.exprEnd s.pos atComma ≤ s.exprEnd s.pos false := by
      cases atComma with
      | true => exact s.exprEnd_comma_le
      | false => exact Nat.le_refl _
    have := s.exprEnd_le
    have : s.stop ≤ s.tokens.size := hs
    omega
  have built := Node.build_ne_none h inside
  show ((if s.exprEnd s.pos atComma ≤ s.pos then _ else _ : Parse Expr).run s).1.isMissing = false
  rw [if_neg (Nat.not_le.mpr h)]
  rw [StateT.run_bind]
  cases hbuild : Node.build s.tokens s.pos (s.exprEnd s.pos atComma) with
  | error error => rfl
  | ok root =>
      cases root with
      | none => exact absurd hbuild built
      | some root => rfl

/-- The readers without a bound on the depth miss no expression. -/
theorem attentive_unbounded : unbounded.Attentive := by
  intro s atComma hs h
  rw [expr_unbounded, expr_readers]
  exact expr_present _ hs h

/-- An expression that is read in a window of its own is there when no semicolon is its first token. -/
theorem within_present (hr : r.Attentive) (hs : s.Bounded) {stop : Nat} (hstop : s.pos < stop)
    (hle : stop ≤ s.stop) (hfirst : ∀ i, Scan.semicolon? s.tokens s.pos stop = some i → s.pos < i) :
    ((within s.pos stop (r.expr false)).run s).1.isMissing = false := by
  have hsize : s.stop ≤ s.tokens.size := hs
  have hwindow : s.window s.pos stop = { s with stop := stop } := by
    unfold TokenStream.window TokenStream.setStop TokenStream.setPos
    simp
    omega
  show ((r.expr false).run (s.window s.pos stop)).1.isMissing = false
  rw [hwindow]
  refine hr _ false (Nat.le_trans hle hs) ?_
  show s.pos < (Scan.semicolon? s.tokens s.pos stop).getD (max s.pos stop)
  cases h : Scan.semicolon? s.tokens s.pos stop with
  | none => exact Nat.lt_of_lt_of_le hstop (Nat.le_max_right _ _)
  | some i => exact hfirst i h

/-- A label without a guard is noticed when it is read. -/
theorem caseGuard?_present (hr : r.Attentive) (hs : s.Bounded) {guard : Nat × Expr}
    (h : ((caseGuard? r).run s).1 = some guard) : guard.2.isMissing = false := by
  -- Up to where the guard goes.
  let stop := (Scan.findAtDepth s.tokens (Scan.depthChange [.openParen] [.closeParen])
    (fun t depth => t.isAny [.semicolon, .colon] && depth < 1) s.remaining s.pos 0).getD s.stop
  have run : ((caseGuard? r).run s).1 =
      if stop ≤ s.pos then none else some (s.line, ((within s.pos stop (r.expr false)).run s).1) := by
    show ((if stop ≤ s.pos then _ else _ : Parse (Option (Nat × Expr))).run s).1 = _
    by_cases hstop : stop ≤ s.pos
    · rw [if_pos hstop, if_pos hstop]
      rfl
    · rw [if_neg hstop, if_neg hstop]
      rfl
  rw [run] at h
  by_cases hstop : stop ≤ s.pos
  · rw [if_pos hstop] at h
    cases h
  · rw [if_neg hstop] at h
    cases h
    have hlt : s.pos < stop := Nat.lt_of_not_le hstop
    have hle : stop ≤ s.stop := by
      show (Option.getD _ s.stop) ≤ s.stop
      cases hfound : Scan.findAtDepth s.tokens (Scan.depthChange [.openParen] [.closeParen])
          (fun t depth => t.isAny [.semicolon, .colon] && depth < 1) s.remaining s.pos 0 with
      | none => exact Nat.le_refl _
      | some i =>
          have := Scan.findAtDepth_bounds hfound
          simp only [TokenStream.remaining] at this
          simp only [Option.getD_some]
          omega
    refine within_present hr hs hlt hle fun i hi => Scan.findAtDepth_behind ?_ hi
    intro t ht
    have hpassed := Scan.findAtDepth_passes (by unfold TokenStream.remaining; omega) hlt t ht
    simp [Token.isAny] at hpassed
    simp [hpassed.1]

/-- So is an argument without the default value that is announced. -/
theorem argumentDefault_present (hr : r.Attentive) (hs : s.Bounded) {line : Nat} {default : Nat × Expr}
    (h : ((argumentDefault r line).run s).1 = .ok default) : default.2.isMissing = false := by
  have run : ((argumentDefault r line).run s).1 =
      if s.exprEnd s.pos true ≤ s.pos then .error ⟨line, .missingArgumentDefault⟩
      else .ok (s.line, ((within s.pos (s.exprEnd s.pos true) (r.expr false)).run s).1) := by
    show ((if s.exprEnd s.pos true ≤ s.pos then _ else _ : Parse (Except Report (Nat × Expr))).run s).1 = _
    by_cases hstop : s.exprEnd s.pos true ≤ s.pos
    · rw [if_pos hstop, if_pos hstop]
      rfl
    · rw [if_neg hstop, if_neg hstop]
      rfl
  rw [run] at h
  by_cases hstop : s.exprEnd s.pos true ≤ s.pos
  · rw [if_pos hstop] at h
    cases h
  · rw [if_neg hstop] at h
    cases h
    have short := s.exprEnd_comma_le
    have := s.exprEnd_le
    refine within_present hr hs (Nat.lt_of_not_le hstop) (by omega) fun i hi => ?_
    -- No semicolon stands before the end of the expression.
    rw [TokenStream.semicolon?_exprEnd short] at hi
    cases hi

end Parse

/-! ### Groups and arguments -/

namespace Placed

variable {tokens : Array Token} {low high : Nat} {is : List Nat}

/-- Between two neighbours among the brackets and commas of a call there is an argument. -/
theorem separated_filled {s : Sign} {xs : List Node} (hxs : xs ≠ []) {i : Nat} (hi : i < low)
    (h : Placed tokens low (Tree.separated xs ++ [.sign s]) is high) : (i :: is).IsChain fun j k => j + 1 < k := by
  induction xs generalizing i low is with
  | nil => exact absurd rfl hxs
  | cons x xs ih =>
      cases xs with
      | nil =>
          obtain _ | _ | ⟨hlow, hfilled, h⟩ := h
          obtain _ | ⟨hnext, -, -, h⟩ := h
          cases h
          simp only [List.isChain_cons_cons, List.isChain_singleton, and_true]
          omega
      | cons y ys =>
          rw [Tree.separated_cons_cons] at h
          obtain _ | _ | ⟨hlow, hfilled, h⟩ := h
          obtain _ | ⟨hnext, -, -, h⟩ := h
          have rest := ih (List.cons_ne_nil y ys) (Nat.lt_succ_self _) h
          refine List.isChain_cons_cons.mpr ⟨?_, rest⟩
          omega

end Placed

/-- Every node of a tree takes a token. -/
theorem Node.Accounts.filled {tokens : Array Token} {low high : Nat} {t x : Node} (h : t.Accounts tokens low high)
    (hx : x ∈ t.nodes) : x.place.start < x.place.stop := by
  cases hop : x.op?.isSome with
  | false =>
      cases x with
      | leaf p kind => exact (h.leaves p kind hx).2.1
      | _ => cases hop
  | true =>
      obtain ⟨signs, groups, owned⟩ := h.owned
      have hmem : x ∈ signs.map Prod.fst := by
        rw [owned.listed]
        exact List.mem_filter.mpr ⟨hx, hop⟩
      obtain ⟨e, he, rfl⟩ := List.mem_map.mp hmem
      exact Placed.lt (owned.signed e he) (Tree.elements_ne_nil hop)

/-- Of a range of tokens that forms an expression every token is held by a leaf, or is a sign of an operator, or a
parenthesis of a group; there is something in every group, and where a call has arguments at all, there is one
between any two neighbours among its brackets and commas. -/
theorem Node.operands_filled {tokens : Array Token} {start stop : Nat} {t : Node}
    (h : Node.build tokens start stop = .ok (some t)) :
    ∃ signs groups,
      Owned tokens (min start (min stop tokens.size)) (min stop tokens.size) t.nodes [] signs groups ∧
      (∀ g ∈ groups, g.1 + 1 < g.2) ∧
      ∀ p f xs is, (.call p f xs, is) ∈ signs → xs ≠ [] → is.IsChain fun i j => i + 1 < j := by
  have accounts := (Node.covers_of_build h).accounts
  obtain ⟨signs, groups, owned⟩ := accounts.owned
  refine ⟨signs, groups, owned, ?_, ?_⟩
  · intro g hg
    obtain ⟨-, x, hx, hstart, hstop⟩ := owned.grouped g hg
    have := accounts.filled hx
    omega
  · intro p f xs is he hxs
    have signed : Placed tokens _ (Tree.elements _) is _ := owned.signed _ he
    obtain _ | _ | ⟨-, -, signed⟩ := signed
    obtain _ | ⟨-, -, -, signed⟩ := signed
    exact Placed.separated_filled hxs (Nat.lt_succ_self _) signed

/-! ### A whole compilation -/

namespace Config

/-- Of a source without errors every expression that has to be there is there, but for the conditions of an `if`, the
values of constants and what entries of arrays refer to, where nobody looks.  Guards and default values are looked for
by the reader: the script is what the readers without a bound make of its tokens, and those go on from no empty guard
and no empty default value.  In a range that forms an expression nothing is missing between parentheses, nor between
the arguments of a call. -/
theorem demands_met (config : Config) (source : String) (c : Compilation) (read : Tokens)
    (h : (config.compile source).result = .ok c) (he : c.errors = 0) (hread : config.tokens? source = some read) :
    (∀ d ∈ (Script.read config.mode source.utf8ByteSize read.tokens).demands,
      d.value.isPresent = true ∨ d.value.isMissing = true ∧ d.role.isReported = false) ∧
    (Script.read config.mode source.utf8ByteSize read.tokens =
        ((Parse.source Parse.unbounded config.mode).run (TokenStream.ofList read.tokens)).1 ∧
      ∀ s : TokenStream, s.Bounded → ∀ place : Nat × Expr,
        (((Parse.caseGuard? Parse.unbounded).run s).1 = some place → place.2.isMissing = false) ∧
        ∀ line, ((Parse.argumentDefault Parse.unbounded line).run s).1 = .ok place → place.2.isMissing = false) ∧
    ∀ tokens start stop t, Node.build tokens start stop = .ok (some t) →
      ∃ signs groups,
        Owned tokens (min start (min stop tokens.size)) (min stop tokens.size) t.nodes [] signs groups ∧
        (∀ g ∈ groups, g.1 + 1 < g.2) ∧
        ∀ p f xs is, (.call p f xs, is) ∈ signs → xs ≠ [] → is.IsChain fun i j => i + 1 < j := by
  obtain ⟨read', hread', -, herrors⟩ := compile_ok h
  obtain rfl : read' = read := Option.some.inj (hread'.symm.trans hread)
  refine ⟨?_, ⟨Script.read_unbounded hread, fun s hs place => ⟨?_, fun line => ?_⟩⟩, fun tokens start stop t => ?_⟩
  · have tells := (Script.read config.mode source.utf8ByteSize read'.tokens).tells_demands
      (Script.read_meets config.mode source.utf8ByteSize read'.tokens)
    have met := (Gen.Tells.behind (Gen.logs_reportAll (Gen.lexReports read'.errors)) fun _ => tells).told
      (GenState.initial config) (herrors.symm.trans he)
    intro d hd
    have := met d hd
    simpa [Demand.isMet] using this
  · exact Parse.caseGuard?_present Parse.attentive_unbounded hs
  · exact Parse.argumentDefault_present Parse.attentive_unbounded hs
  · exact Node.operands_filled

/-- A source with an empty condition, an empty constant and a reference to nothing, beside a loop and a function that
have what they need.  There are no errors. -/
theorem demands_met_if :
    ∃ source c read, source = "if () { } const A = ; $a = [&]; while ($a) { } function f($b = 1) { }" ∧
      (({} : Config).compile source).result = .ok c ∧ c.errors = 0 ∧ ({} : Config).tokens? source = some read ∧
      (Script.read .script source.utf8ByteSize read.tokens).demands.map (fun d => (d.role, d.value.isPresent)) =
        [(.branch, false), (.constant, false), (.reference, false), (.test, true), (.default_, true)] ∧
      ∀ d ∈ (Script.read .script source.utf8ByteSize read.tokens).demands,
        d.value.isPresent = true ∨ d.value.isMissing = true ∧ d.role.isReported = false := by
  let source := "if () { } const A = ; $a = [&]; while ($a) { } function f($b = 1) { }"
  have compiled : ((({} : Config).tokens? source).bind fun read =>
      (({} : Config).deliver (({} : Config).generate source.utf8ByteSize read)).result.toOption.map fun c =>
        (c.errors, (Script.read .script source.utf8ByteSize read.tokens).demands.map fun d => (d.role, d.value.isPresent))) =
      some (0, [(.branch, false), (.constant, false), (.reference, false), (.test, true), (.default_, true)]) := by
    rw [tokens?_ofList rfl rfl]
    decide +kernel
  refine ⟨source, ?_⟩
  obtain ⟨read, c, hread, hr, told⟩ := ok_of_bind compiled
  obtain ⟨errors, demands⟩ := Prod.mk.inj told
  exact ⟨c, read, rfl, hr, errors, hread, demands, (demands_met _ _ c read hr errors hread).1⟩

end Config

end StackScript
