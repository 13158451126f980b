/-
Bodies that fill containers of their own.

The body of a function, of a method, of an anonymous function or of a catch clause is compiled apart from the
code around it, wherever in a script it stands.  `bodies` lists them all, and `Stmt.Fills` says of a container
that it holds the code of such a body and nothing else.  Whatever comes before it, a body is generated like the
statements of the script itself: into a container that starts empty, on a block on which nothing waits yet
(`Block.Opens`).
-/
import StackScript.Proofs.Placement

namespace StackScript

open Gen

mutual

/-- The bodies inside an expression that fill containers of their own. -/
def Expr.bodies : Expr → List Stmt
  | .tree root => Leaf.treeBodies root
  | _ => []

def Leaf.treeBodies : Tree Leaf → List Stmt
  | .leaf _ content => content.bodies
  | .prefixed _ _ x | .postfixed _ _ x | .append _ x => Leaf.treeBodies x
  | .binary _ _ x y | .assign _ _ x y | .index _ x y => Leaf.treeBodies x ++ Leaf.treeBodies y
  | .ternary _ c x y => Leaf.treeBodies c ++ (Leaf.treeBodies x ++ Leaf.treeBodies y)
  | .call _ f xs => Leaf.treeBodies f ++ Leaf.treesBodies xs

def Leaf.treesBodies : List (Tree Leaf) → List Stmt
  | [] => []
  | t :: ts => Leaf.treeBodies t ++ Leaf.treesBodies ts

def Leaf.bodies : Leaf → List Stmt
  | .template first rest => first.bodies ++ Piece.allBodies rest
  | .computedVariable _ _ name _ _ => name.bodies
  | .array entries _ => Entry.allBodies entries
  | .list targets => Expr.allBodies targets
  | .closure _ _ params _ _ body => Parameter.allBodies params ++ body :: body.bodies
  | .construct _ argument => argument.bodies
  | _ => []

def Piece.bodies : Piece → List Stmt
  | .value _ root => Leaf.treeBodies root
  | _ => []

def Piece.allBodies : List Piece → List Stmt
  | [] => []
  | p :: ps => p.bodies ++ Piece.allBodies ps

def Entry.bodies : Entry → List Stmt
  | .plain _ value _ | .unkeyed _ value _ => value.bodies
  | .keyed _ key _ value _ => key.bodies ++ value.bodies

def Entry.allBodies : List Entry → List Stmt
  | [] => []
  | e :: es => e.bodies ++ Entry.allBodies es

def Expr.allBodies : List Expr → List Stmt
  | [] => []
  | e :: es => e.bodies ++ Expr.allBodies es

def Parameter.bodies : Parameter → List Stmt
  | .required _ _ _ => []
  | .optional _ _ _ _ value => value.bodies

def Parameter.allBodies : List Parameter → List Stmt
  | [] => []
  | p :: ps => p.bodies ++ Parameter.allBodies ps

def Chain.bodies : Chain → List Stmt
  | .branch test _ body rest => test.bodies ++ (body.bodies ++ rest.bodies)
  | .otherwise body => body.bodies
  | _ => []

def Section.bodies : Section → List Stmt
  | .case_ _ guard _ body => guard.bodies ++ Stmt.allBodies body
  | .default_ _ _ body => Stmt.allBodies body

def Section.allBodies : List Section → List Stmt
  | [] => []
  | s :: ss => s.bodies ++ Section.allBodies ss

def ForeachHead.bodies : ForeachHead → List Stmt
  | .malformed _ => []
  | .unbound _ binding => binding.bodies
  | .key _ binding rest => binding.bodies ++ rest.bodies
  | .value _ _ binding body => binding.bodies ++ body.bodies

def CatchClause.bodies : CatchClause → List Stmt
  | .malformed _ => []
  | .clause _ _ body => body :: body.bodies

def CatchClause.allBodies : List CatchClause → List Stmt
  | [] => []
  | c :: cs => c.bodies ++ CatchClause.allBodies cs

def Declarator.bodies : Declarator → List Stmt
  | .assigned _ _ assignment => assignment.bodies
  | .staticValue _ _ _ value => value.bodies
  | _ => []

def Declarator.allBodies : List Declarator → List Stmt
  | [] => []
  | d :: ds => d.bodies ++ Declarator.allBodies ds

def Member.bodies : Member → List Stmt
  | .constant _ _ value | .attributeValue _ _ _ value => value.bodies
  | .signature _ _ params _ => Parameter.allBodies params
  | .method _ _ params _ body => Parameter.allBodies params ++ body :: body.bodies
  | _ => []

def Member.allBodies : List Member → List Stmt
  | [] => []
  | m :: ms => m.bodies ++ Member.allBodies ms

/-- The bodies inside a statement that fill containers of their own. -/
def Stmt.bodies : Stmt → List Stmt
  | .sequence items | .block items _ | .namespace_ _ items => Stmt.allBodies items
  | .onLine _ body | .doWithoutTest body _ => body.bodies
  | .expression value | .return_ value | .exit value | .throw _ value | .constant _ _ value => value.bodies
  | .conditional chain => chain.bodies
  | .switch subject _ sections _ => subject.bodies ++ Section.allBodies sections
  | .switchWithoutBody subject _ _ => subject.bodies
  | .whileLoop test _ body => test.bodies ++ body.bodies
  | .doLoop body test _ => body.bodies ++ test.bodies
  | .forLoop _ init test _ body post _ => init.bodies ++ (test.bodies ++ (body.bodies ++ post.bodies))
  | .foreach _ source _ head => source.bodies ++ head.bodies
  | .tryCatch body clauses _ => body.bodies ++ CatchClause.allBodies clauses
  | .declaration _ items _ => Declarator.allBodies items
  | .function _ params _ body => Parameter.allBodies params ++ body :: body.bodies
  | .class_ _ members _ => Member.allBodies members
  | .empty | .report _ | .raw _ | .loopJump _ _ _ _ | .using_ _ => []

def Stmt.allBodies : List Stmt → List Stmt
  | [] => []
  | s :: ss => s.bodies ++ Stmt.allBodies ss

end

/-- The bodies anywhere in a script that fill containers of their own. -/
def Script.bodies : Script → List Stmt
  | .statements items => Stmt.allBodies items
  | .expression value _ => value.bodies

/-- A container holds the code of a statement, which no jump leaves, and the end of the container. -/
def Stmt.Fills (p : Program) (F : Code) (s : Stmt) : Prop :=
  ∃ n, s.Occupies p F (fun _ _ => none) 0 n ∧ F.JumpsAt .done .none n 0 ∧ F.size = n + 1

/-! ### The first block of a container -/

/-- A container can start on the block: nothing waits on it, and the jumps that statements may leave on it are
those that are filled in at the end. -/
structure Block.Opens (b : Block) (op : Option Opcode) : Prop where
  pending : b.pending = []
  deferred : b.deferred = none
  plain : b.hasAny [.loop, .conditional] = false
  settles : op = none ∨ op = some .throw ∧ b.hasAny [.exception] = false

/-- The block of a body is such a block. -/
theorem IsBody.opens {b : Block} {op : Option Opcode} (h : IsBody b op) : b.Opens op := by
  refine ⟨h.pending, h.deferred, ?_, ?_⟩
  · rcases h.tags with ⟨htags, -⟩ | ⟨htags, -⟩ <;> rw [Block.hasAny, htags] <;> rfl
  · rcases h.tags with ⟨htags, rfl⟩ | ⟨htags, rfl⟩
    · refine .inr ⟨rfl, ?_⟩
      rw [Block.hasAny, htags]
      rfl
    · exact .inl rfl

namespace Block.Opens

variable {s t : GenState} {k : Nat} {b : Block} {op : Option Opcode}

theorem not_loop (h : b.Opens op) : b.hasAny [.loop] = false := hasAny_anti (by decide) h.plain

/-- Nothing waits inside a container that starts on the block. -/
theorem tidy (h : b.Opens op) (hb : s.blocks.Innermost k b) : Tidy (s.cleared k) := by
  have nothing : ∀ id kind i, ¬(s.cleared k).blocks.Awaits id kind i := by
    intro id kind i hawaits
    obtain ⟨hk, c, hc, ha⟩ := (BlockStack.awaits_cleared ..).mp hawaits
    have hlt : id < s.blocks.blocks.size := (Array.getElem?_eq_some_iff.mp hc).1
    have hsize := hb.size
    obtain rfl : id = k := by omega
    obtain rfl : c = b := Option.some.inj (hc.symm.trans hb.block)
    cases kind <;> simp [Block.Awaits, h.pending, h.deferred] at ha
  refine ⟨?_, fun id kind i ha => absurd ha (nothing id kind i), fun id _ kind _ i ha => absurd ha (nothing id kind i)⟩
  have hsize := hb.size
  rw [GenState.blocks_cleared, BlockStack.size_cleared]
  omega

/-- No jump leads out of the container. -/
theorem exits (h : b.Opens op) (hb : s.blocks.Innermost k b) (hf : s.blocks.Floor k) (A : Aims) :
    A.exits s.blocks = fun _ _ => none := by
  funext jump level
  have hnone : s.blocks.enclosing? [.loop] level = none := by
    unfold BlockStack.enclosing?
    rw [hb.size, BlockStack.enclosingFrom, hb.block]
    dsimp only
    rw [h.not_loop]
    simp only [Bool.false_and, Bool.false_eq_true, if_false]
    rcases hf.base with rfl | ⟨c, hc, hboundary, -⟩
    · split <;> rfl
    · obtain rfl : c = b := Option.some.inj (hc.symm.trans hb.block)
      rw [hboundary]
      rfl
  rw [Aims.exits, hnone]
  rfl

/-- Behind statements on the block, everything that waits on it is filled in at the end. -/
theorem settled (h : b.Opens op) (hb : s.blocks.Innermost k b) (ht : Touches s t) :
    ∃ c, (after (settle k op) t).blocks.Innermost k c ∧ c.shape = b.shape ∧ ∀ kind i, ¬c.Awaits kind i := by
  obtain ⟨c, hc, hshape⟩ := ht.frame.innermost hb
  have gains := ht.gains k b c hb.block hc.block
  have hnone : (c.pending.filter fun j => !BlockStack.settles op t.code j) = [] := by
    refine List.filter_eq_nil_iff.mpr fun j hj => ?_
    rcases gains.pending j hj with hj | ⟨-, hlt, hthrow⟩
    · rw [h.pending] at hj
      exact absurd hj List.not_mem_nil
    · rcases h.settles with rfl | ⟨rfl, hany⟩
      · simp [BlockStack.settles, hlt]
      · have hothers : b.hasAny [.loop, .conditional, .exception] = false := by
          have hplain := h.plain
          simp only [hasAny, List.any_cons, List.any_nil, Bool.or_false, Bool.or_eq_false_iff] at hplain hany ⊢
          exact ⟨hplain.1, hplain.2, hany⟩
        rw [hothers] at hthrow
        simp [BlockStack.settles, hlt, hthrow.resolve_right (by decide)]
  refine ⟨_, hc.settle op, hshape, fun kind i ha => ?_⟩
  have hdeferred : c.deferred = none := Block.undeferred_congr hshape h.deferred
  cases kind with
  | none => simp [Block.Awaits, hdeferred] at ha
  | some op' =>
      unfold Block.Awaits at ha
      rw [hnone] at ha
      exact absurd ha List.not_mem_nil

/-- What fills a container lies there as it is placed, in front of its end.  The throws on its block go there. -/
theorem fills {R : Aims → Aims → Nat → Nat → Prop} {P : Program → Code → Aims → Nat → Nat → Prop} (h : b.Opens op)
    (hb : s.blocks.Innermost k b) (hf : s.blocks.Floor k) (hcode : s.code = #[]) (ht : Touches s t) (placed : Placing k R P s t)
    (hR : ∀ A B i j, R A B i j → B k = A k) {p : Program} (hc : p.Completes s t) :
    ∃ A n, A k (some .throw) = n ∧ P p (after (put .done 0 0 .none) (after (settle k op) t)).code A 0 n ∧
      (after (put .done 0 0 .none) (after (settle k op) t)).code.JumpsAt .done .none n 0 ∧
      (after (put .done 0 0 .none) (after (settle k op) t)).code.size = n + 1 := by
  have hsize := hb.size
  have hroot : 0 < s.blocks.blocks.size := by omega
  have htarget : k = 0 ∨ b.isTarget = true := by
    refine hf.base.imp_right ?_
    rintro ⟨c, hc, -, hany⟩
    obtain rfl : c = b := Option.some.inj (hc.symm.trans hb.block)
    exact hasAny_mono (by decide) hany
  have hthrow : Filling.kindsOf op (some .throw) = true := by rcases h.settles with rfl | ⟨rfl, -⟩ <;> rfl
  have settled := (places_settle (Nat.le_refl k) hb.block htarget op).placed _ (placed.builds.frame.shapes hroot) placed.tidy rfl
  have done := (places_put (k := k) .done 0 .none).placed _ rfl settled.tidy rfl
  have all := (placed.seq settled hroot).seq done hroot
  obtain ⟨c, hc', -, hnone⟩ := h.settled hb ht
  have completes : p.Completes s (after (put .done 0 0 .none) (after (settle k op) t)) := ⟨hc.switches, hc.foreachs⟩
  generalize hu : after (put .done 0 0 .none) (after (settle k op) t) = u at all completes ⊢
  have innermost : u.blocks.Innermost k c := by
    rw [← hu]
    exact hc'
  -- Nothing waits any more, so the jumps in the container have their targets.
  have nothing : ∀ id kind i, ¬(u.cleared k).blocks.Awaits id kind i := by
    intro id kind i hawaits
    obtain ⟨hk, d, hd, ha⟩ := (BlockStack.awaits_cleared ..).mp hawaits
    have hlt : id < u.blocks.blocks.size := (Array.getElem?_eq_some_iff.mp hd).1
    have hsize := innermost.size
    obtain rfl : id = k := by omega
    obtain rfl : d = c := Option.some.inj (hd.symm.trans innermost.block)
    exact hnone kind i ha
  have leads : Leads u.code (fun id _ => (((u.cleared k).blocks.get? id).map Block.first).getD 0) (u.cleared k) := by
    refine ⟨fun i x hx => ⟨x.p2, hx, .inl rfl⟩, fun id kind i _ ha => absurd ha (nothing id kind i), fun id d hd _ _ => ?_⟩
    rw [hd]
    rfl
  obtain ⟨A, -, -, n, B, ⟨_, D, rfl, htargets⟩, ⟨_, C, -, hP, rfl⟩, hdone, hend⟩ := all.leads p _ _ completes leads
  rw [hcode] at hP
  refine ⟨A, n, ?_, hP, hdone, hend⟩
  rw [hR _ _ _ _ htargets]
  exact if_pos ⟨rfl, hthrow⟩

/-- So a statement fills the container. -/
theorem stmt_fills (h : b.Opens op) (hb : s.blocks.Innermost k b) (hf : s.blocks.Floor k) (hcode : s.code = #[]) (body : Stmt)
    (he : (after body.gen s).errors = s.errors) {p : Program} (hc : p.Completes s (after body.gen s)) :
    body.Fills p (after (put .done 0 0 .none) (after (settle k op) (after body.gen s))).code := by
  have hroot : 0 < s.blocks.blocks.size := by
    rw [hb.size]
    exact Nat.succ_pos k
  have placed := (Stmt.placed body k _ hf hroot).placed s rfl (h.tidy hb) he
  obtain ⟨A, n, -, hbody, hend⟩ := h.fills hb hf hcode ((Stmt.flows_gen body s).spares hroot) placed (fun _ _ _ _ h => h ▸ rfl) hc
  rw [h.exits hb hf A] at hbody
  exact ⟨n, hbody, hend⟩

end Block.Opens

end StackScript
