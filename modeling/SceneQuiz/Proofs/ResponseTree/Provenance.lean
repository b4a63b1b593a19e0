import SceneQuiz.Proofs.Diagnostic.Reported
import SceneQuiz.ResponseTree.Code
/-!
Where the code of a response tree comes from.  The plan of a tree that is
accepted holds what was read from the texts of the tree: statements, scores, the
arguments of tests and feedback, each in its place, and its branches leave for
scenes that there are.
-/

namespace SceneQuiz

theorem NameMap.exists_entry {α : Type} {map : NameMap α} {name : String} {value : α}
    (h : map.get? name = some value) : ∃ entry ∈ map.entries, entry.2 = value := by
  unfold get? at h
  generalize map.entries = entries at h
  induction entries with
  | nil => cases h
  | cons entry rest ih =>
      unfold lookup at h
      split at h
      · exact ⟨entry, List.mem_cons_self, Option.some.inj h⟩
      · obtain ⟨found, hfound, hvalue⟩ := ih h
        exact ⟨found, List.mem_cons_of_mem entry hfound, hvalue⟩

theorem Registry.exists_entry {registry : Registry} {codename : String} {test : AnswerTest}
    (h : registry.find codename = .ok test) : ∃ entry ∈ registry.entries, entry.2 = test := by
  unfold find at h
  split at h
  · next found hfound =>
      cases h
      exact NameMap.exists_entry hfound
  · cases h

theorem AnswerTest.eq_invocation {test : AnswerTest} {call : TestCall} {e : Expr}
    (h : test.code call = .ok e) : e = test.invocation call := by
  unfold code at h
  split at h
  · cases h
    rfl
  · cases h

namespace ResponseTree

open Logged (Accepts)

/-- The change of a score, as it was read from a text. -/
def ScoreFrom (source : Option String) (change : ScoreChange) (accumulator : String)
    (e : Expr) : Prop :=
  ∃ text ∈ source, ∃ value, Expr.parse text = .ok value ∧
    e = changedScore change accumulator value

/-- The call of a registered test with the arguments that a node gives. -/
def TestFrom (ctx : TreeContext) (node : Node) (e : Expr) : Prop :=
  ∃ entry ∈ ctx.registry.entries, ∃ call : TestCall, e = entry.2.invocation call ∧
    Expr.parse node.studentAnswer = .ok call.studentAnswer ∧
      (∀ teacher ∈ call.teacherAnswer, Expr.parse node.teacherAnswer = .ok teacher) ∧
        ∀ options ∈ call.options, Expr.parse node.options = .ok options

/-- The plan of a branch is what was read from it. -/
structure BranchPlan.From (ctx : TreeContext) (branch : Branch) (plan : BranchPlan) :
    Prop where
  score : ∀ e ∈ plan.score, ScoreFrom branch.score branch.scoreChange Vars.score e
  penalty : ∀ e ∈ plan.penalty, ScoreFrom branch.penalty branch.penaltyChange Vars.penalty e
  code : ∀ transition ∈ plan.transition,
    Fragment.parse branch.transitionCode = .ok transition.code
  target : ∀ transition ∈ plan.transition, transition.target ∈ ctx.scene :: ctx.sceneNames
  feedback : ∀ e ∈ plan.feedback, ∃ compiled,
    branch.feedback.compile ctx.templates = .ok compiled ∧ e = compiled.expr

/-- The plan of a node is what was read from it. -/
structure NodePlan.From (ctx : TreeContext) (node : Node) (plan : NodePlan) : Prop where
  name : plan.name = node.name
  test : plan.test = .list [] ∨ TestFrom ctx node plan.test
  branch : ∀ outcome, (plan.branch outcome).From ctx (node.branch outcome)

/-- The plan of a tree is what was read from it. -/
structure Plan.From (tree : ResponseTree) (ctx : TreeContext) (plan : Plan) : Prop where
  setup : Fragment.parse tree.feedbackVariables = .ok plan.setup
  nodes : ∀ found ∈ plan.nodes, ∃ node ∈ tree.nodes, found.From ctx node

variable {tree : ResponseTree} {ctx : TreeContext}

theorem accepts_planScore (source : Option String) (change : ScoreChange) (accumulator : String)
    (path : Locator) :
    Accepts (planScore source change accumulator path) fun found =>
      ∀ e ∈ found, ScoreFrom source change accumulator e := by
  cases source with
  | none => exact .of_pure nofun
  | some source =>
      refine (Logged.accepts_optionalExpr? source path).bind fun value => ?_
      refine .of_pure fun hvalue e he => ?_
      obtain ⟨before, hbefore, rfl⟩ := Option.map_eq_some_iff.mp he
      exact ⟨source, rfl, before, hvalue before hbefore, rfl⟩

theorem accepts_planTest (node : Node) (path : Locator) :
    Accepts (planTest ctx node path) fun test => test = .list [] ∨ TestFrom ctx node test := by
  refine (Logged.accepts_expr? _ _).bind fun student => ?_
  refine (Logged.accepts_optionalExpr? _ _).bind fun teacher => ?_
  refine (Logged.accepts_optionalExpr? _ _).bind fun options => ?_
  split
  · exact (Logged.accepts_errors _).bind fun _ => .of_pure fun _ _ _ _ => .inl rfl
  · next test htest =>
      obtain ⟨entry, hentry, rfl⟩ := Registry.exists_entry htest
      split
      · exact .of_pure fun _ _ _ => .inl rfl
      · next answer =>
          split
          · next call hcall =>
              refine .of_pure fun hoptions hteacher hstudent => .inr ?_
              exact ⟨entry, hentry, _, AnswerTest.eq_invocation hcall, hstudent answer rfl,
                hteacher, hoptions⟩
          · exact (Logged.accepts_errors _).bind fun _ => .of_pure fun _ _ _ _ => .inl rfl

theorem accepts_planExit (node : Node) (branch : Branch) (path : Locator) :
    Accepts (planExit ctx node branch path) fun found => ∀ transition ∈ found,
      Fragment.parse branch.transitionCode = .ok transition.code ∧
        transition.target ∈ ctx.scene :: ctx.sceneNames := by
  have hleave : ∀ target : String, Accepts (do
      let code ← Logged.fragment? branch.transitionCode (path ++ [Segment.field "variables"])
      return some (Transition.mk target (code.getD [])) : Logged (Option Transition))
      fun found => ∀ transition ∈ found,
        Fragment.parse branch.transitionCode = .ok transition.code ∧
          transition.target = target := by
    intro target
    refine (Logged.accepts_fragment? _ _).bind fun code => .of_pure ?_
    rintro ⟨statements, hstatements, hparse⟩ _ ⟨⟩
    rw [Option.mem_def.mp hstatements]
    exact ⟨hparse, rfl⟩
  unfold planExit
  dsimp only
  split
  · next target _ =>
      split
      · exact (Logged.accepts_error _).bind fun _ log hlog =>
          ⟨(hleave target log hlog).1, False.elim⟩
      · next hknown =>
          intro log hlog
          obtain ⟨hbefore, hfound⟩ := hleave target log hlog
          refine ⟨hbefore, fun transition htransition => ?_⟩
          obtain ⟨hparse, rfl⟩ := hfound transition htransition
          exact ⟨hparse, List.mem_cons_of_mem _ (Decidable.not_not.mp hknown)⟩
  · intro log hlog
    obtain ⟨hbefore, hfound⟩ := hleave ctx.scene log hlog
    refine ⟨hbefore, fun transition htransition => ?_⟩
    obtain ⟨hparse, htarget⟩ := hfound transition htransition
    exact ⟨hparse, htarget ▸ List.mem_cons_self⟩
  · split
    · exact (Logged.accepts_warning _).bind fun _ => .of_pure fun _ => nofun
    · exact .of_pure nofun
  · split
    · exact (Logged.accepts_warning _).bind fun _ => .of_pure fun _ => nofun
    · exact .of_pure nofun

theorem accepts_planFeedback (feedback : Template) (path : Locator) :
    Accepts (planFeedback ctx feedback path) fun found => ∀ e ∈ found, ∃ compiled,
      feedback.compile ctx.templates = .ok compiled ∧ e = compiled.expr := by
  unfold planFeedback
  split
  · exact .of_pure nofun
  · split
    · next compiled hcompiled =>
        apply Accepts.of_pure
        rintro _ ⟨⟩
        exact ⟨compiled, hcompiled, rfl⟩
    · exact (Logged.accepts_absorb _ _).bind fun _ => .of_pure fun _ => nofun

theorem accepts_planBranch (node : Node) (outcome : Bool) (path : Locator) :
    Accepts (planBranch tree ctx node outcome path)
      (BranchPlan.From ctx (node.branch outcome)) := by
  have hrest : ∀ score penalty : Option Expr, Accepts (do
      let transition ← planExit ctx node (node.branch outcome) (path ++ [Segment.branch outcome])
      let feedback ← planFeedback ctx (node.branch outcome).feedback
        (path ++ [Segment.branch outcome] ++ [Segment.field "feedback"])
      return (⟨score, penalty, transition, feedback⟩ : BranchPlan)) fun plan =>
        (∀ e ∈ penalty, ScoreFrom (node.branch outcome).penalty
          (node.branch outcome).penaltyChange Vars.penalty e) →
        (∀ e ∈ score, ScoreFrom (node.branch outcome).score
          (node.branch outcome).scoreChange Vars.score e) →
        plan.From ctx (node.branch outcome) := by
    intro score penalty
    refine (accepts_planExit node _ _).bind fun transition => ?_
    refine (accepts_planFeedback _ _).bind fun feedback => .of_pure ?_
    intro hfeedback hexit hpenalty hscore
    exact ⟨hscore, hpenalty, fun found hfound => (hexit found hfound).1,
      fun found hfound => (hexit found hfound).2, hfeedback⟩
  have hnone : ∀ (source : Option String) (change : ScoreChange) (accumulator : String),
      Accepts (pure none : Logged (Option Expr)) fun found =>
        ∀ e ∈ found, ScoreFrom source change accumulator e := fun _ _ _ => .of_pure nofun
  unfold planBranch
  dsimp only
  cases tree.isScored with
  | true =>
      exact (accepts_planScore _ _ Vars.score _).bind fun score =>
        (accepts_planScore _ _ Vars.penalty _).bind fun penalty => hrest score penalty
  | false =>
      exact (hnone _ _ _).bind fun score =>
        (hnone _ _ _).bind fun penalty => hrest score penalty

theorem accepts_planNode (traversal : Traversal) (index : Nat) (node : Node) :
    Accepts (planNode tree ctx traversal index node) (NodePlan.From ctx node) := by
  refine (accepts_planTest node _).bind fun test => ?_
  refine (accepts_planBranch node true _).bind fun onTrue => ?_
  refine (accepts_planBranch node false _).bind fun onFalse => .of_pure ?_
  intro hfalse htrue htest
  refine ⟨rfl, htest, fun outcome => ?_⟩
  cases outcome with
  | true => exact htrue
  | false => exact hfalse

theorem accepts_planNodes (traversal : Traversal) (order : List Nat) :
    Accepts (planNodes tree ctx traversal order) fun plans =>
      ∀ found ∈ plans, ∃ node ∈ tree.nodes, found.From ctx node := by
  induction order with
  | nil => exact .of_pure (List.forall_mem_nil _)
  | cons index rest ih =>
      unfold planNodes
      split
      · exact ih
      · next node hfound =>
          refine (accepts_planNode traversal index node).bind fun plan => ?_
          refine ih.bind fun others => .of_pure fun hothers hplan => ?_
          exact List.forall_mem_cons.mpr
            ⟨⟨node, List.mem_of_getElem? hfound, hplan⟩, hothers⟩

theorem accepts_plan (traversal : Traversal) :
    Accepts (tree.plan ctx traversal) (Plan.From tree ctx) := by
  refine (Logged.accepts_fragment? _ _).bind fun setup => ?_
  refine (accepts_planNodes traversal _).bind fun nodes => .of_pure ?_
  rintro hnodes ⟨statements, hstatements, hparse⟩
  rw [Option.mem_def.mp hstatements]
  exact ⟨hparse, hnodes⟩

/-- What compilation reads of a tree that can be walked. -/
def readPlan (tree : ResponseTree) (ctx : TreeContext) (traversal : Traversal) : Plan :=
  ((tree.plan ctx traversal).run
    ((tree.orphanWarnings traversal).foldl Log.pushWarning .empty)).1

/-- The function of an accepted tree is assembled from what was read. -/
theorem exists_readPlan {compiled : Compiled} (h : (tree.compile ctx).1 = some compiled) :
    ∃ traversal, tree.walk = .ok traversal ∧ (tree.readPlan ctx traversal).From tree ctx ∧
      compiled = tree.assemble ctx traversal (tree.readPlan ctx traversal) := by
  unfold compile at h
  cases hwalk : tree.walk with
  | error fault =>
      rw [hwalk] at h
      cases h
  | ok traversal =>
      have hplan := @accepts_plan tree ctx traversal
        ((tree.orphanWarnings traversal).foldl Log.pushWarning .empty)
      refine ⟨traversal, rfl, ?_⟩
      unfold readPlan
      cases hrun : (tree.plan ctx traversal).run
        ((tree.orphanWarnings traversal).foldl Log.pushWarning .empty) with
      | mk plan log =>
          rw [hrun] at hplan
          simp only [hwalk, hrun] at h
          split at h
          · cases h
          · next haccepted =>
              cases h
              exact ⟨(hplan (by simpa using haccepted)).2, rfl⟩

/-- The function of a tree is made of what was read from it. -/
theorem exists_plan_from {compiled : Compiled} (h : (tree.compile ctx).1 = some compiled) :
    ∃ traversal plan, plan.From tree ctx ∧ compiled = tree.assemble ctx traversal plan := by
  obtain ⟨traversal, -, hplan, hcompiled⟩ := exists_readPlan h
  exact ⟨traversal, _, hplan, hcompiled⟩

end ResponseTree

end SceneQuiz
