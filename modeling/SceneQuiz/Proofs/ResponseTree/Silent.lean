import SceneQuiz.ResponseTree.Code
/-!
Silent response trees: their branches lead on, and do nothing else.  What is
read of such a tree does not depend on what was reported before, so its plan
can be written down, and the plan writes no variable of the question.
-/

namespace SceneQuiz

namespace Logged

variable {α β : Type}

/-- The work has this value whatever was reported before it. -/
def Gives (work : Logged α) (value : α) : Prop :=
  ∀ log, (work.run log).1 = value

theorem Gives.of_pure (value : α) : Gives (pure value) value :=
  fun _ => rfl

theorem Gives.bind {work : Logged α} {next : α → Logged β} {value : α}
    {result : β} (hwork : Gives work value) (hnext : Gives (next value) result) :
    Gives (work >>= next) result := by
  intro log
  change ((next (work.run log).1).run (work.run log).2).1 = result
  rw [hwork log]
  exact hnext _

/-- Reports have no value of interest. -/
theorem Gives.of_modify (change : Log → Log) :
    Gives (modify change : Logged Unit) () :=
  fun _ => rfl

theorem gives_expr? (source : String) (path : Locator) :
    Gives (expr? source path) (Expr.parse source).toOption := by
  unfold expr?
  cases Expr.parse source with
  | ok e => exact .of_pure _
  | error issues => exact (Gives.of_modify _).bind (.of_pure _)

/-- The expression that a text stands for, if it is not blank. -/
def optional (source : String) : Option Expr :=
  if Text.isBlankText source then none else (Expr.parse source).toOption

theorem gives_optionalExpr? (source : String) (path : Locator) :
    Gives (optionalExpr? source path) (optional source) := by
  unfold optionalExpr? optional
  split
  · exact .of_pure _
  · exact gives_expr? source path

end Logged

/-- The scene that an exit leaves for, seen from a scene. -/
def Exit.leavesFor? (scene : String) : Exit → Option String
  | .scene target => some target
  | .stateTransition => some scene
  | .finish | .node _ => none

namespace ResponseTree

open Logged (Gives)

/-- A branch without scores, feedback and code of its own. -/
structure Branch.Silent (branch : Branch) : Prop where
  score : ∀ source, branch.score = some source → Text.isBlankText source = true
  penalty :
    ∀ source, branch.penalty = some source → Text.isBlankText source = true
  feedback : branch.feedback.isEmpty = true
  code : Fragment.parse branch.transitionCode = .ok []

/-- A tree whose branches are silent, and that runs nothing before its first
test. -/
structure Silent (tree : ResponseTree) : Prop where
  setup : Fragment.parse tree.feedbackVariables = .ok []
  branches : ∀ node ∈ tree.nodes, ∀ outcome, (node.branch outcome).Silent

/-- The call that runs the test of a node. -/
def Node.testCall (ctx : TreeContext) (node : Node) : Expr :=
  match ctx.registry.find node.test with
  | .error _ => .list []
  | .ok test =>
      match (Expr.parse node.studentAnswer).toOption with
      | none => .list []
      | some student =>
          (test.code ⟨student, Logged.optional node.teacherAnswer,
            Logged.optional node.options, ctx.inputs⟩).toOption.getD (.list [])

/-- What is read of a silent branch. -/
def Branch.silentPlan (ctx : TreeContext) (branch : Branch) : BranchPlan :=
  ⟨none, none, (branch.exit.leavesFor? ctx.scene).map fun target => ⟨target, []⟩,
    none⟩

/-- What is read of a node whose branches are silent. -/
def Node.silentPlan (tree : ResponseTree) (ctx : TreeContext)
    (traversal : Traversal) (index : Nat) (node : Node) : NodePlan where
  index := index
  name := node.name
  isRoot := traversal.root? == some index
  entries := traversal.entries tree index
  quiet := node.quiet
  test := node.testCall ctx
  onTrue := node.onTrue.silentPlan ctx
  onFalse := node.onFalse.silentPlan ctx

/-- What is read of a silent tree. -/
def silentPlan (tree : ResponseTree) (ctx : TreeContext)
    (traversal : Traversal) : Plan where
  setup := []
  nodes := traversal.order.filterMap fun index =>
    tree.nodes[index]?.map (Node.silentPlan tree ctx traversal index)

variable {tree : ResponseTree} {ctx : TreeContext} {traversal : Traversal}

theorem gives_planTest (node : Node) (path : Locator) :
    Gives (planTest ctx node path) (node.testCall ctx) := by
  unfold planTest
  refine (Logged.gives_expr? _ _).bind ((Logged.gives_optionalExpr? _ _).bind
    ((Logged.gives_optionalExpr? _ _).bind ?_))
  unfold Node.testCall
  cases ctx.registry.find node.test with
  | error fault => exact (Gives.of_modify _).bind (.of_pure _)
  | ok test =>
      cases (Expr.parse node.studentAnswer).toOption with
      | none => exact .of_pure _
      | some student =>
          dsimp only
          cases test.code ⟨student, Logged.optional node.teacherAnswer,
            Logged.optional node.options, ctx.inputs⟩ with
          | error fault => exact (Gives.of_modify _).bind (.of_pure _)
          | ok call => exact .of_pure _

theorem gives_planScore (source : Option String) (change : ScoreChange)
    (accumulator : String) (path : Locator) :
    Gives (planScore source change accumulator path)
      ((source.bind Logged.optional).map (changedScore change accumulator)) := by
  cases source with
  | none => exact .of_pure _
  | some text => exact (Logged.gives_optionalExpr? text path).bind (.of_pure _)

theorem gives_planExit {node : Node} {branch : Branch} (path : Locator)
    (h : Fragment.parse branch.transitionCode = .ok []) :
    Gives (planExit ctx node branch path)
      ((branch.exit.leavesFor? ctx.scene).map fun target => ⟨target, []⟩) := by
  have hcode : ∀ below, Gives (Logged.fragment? branch.transitionCode below)
      (some []) := by
    intro below
    unfold Logged.fragment?
    rw [h]
    exact .of_pure _
  unfold planExit
  cases branch.exit with
  | scene target =>
      dsimp only
      split
      · exact (Gives.of_modify _).bind ((hcode _).bind (.of_pure _))
      · exact (hcode _).bind (.of_pure _)
  | stateTransition => exact (hcode _).bind (.of_pure _)
  | finish =>
      dsimp only
      split
      · exact (Gives.of_modify _).bind (.of_pure _)
      · exact (Gives.of_pure _).bind (.of_pure _)
  | node target =>
      dsimp only
      split
      · exact (Gives.of_modify _).bind (.of_pure _)
      · exact (Gives.of_pure _).bind (.of_pure _)

theorem gives_planBranch {node : Node} (outcome : Bool) (path : Locator)
    (h : (node.branch outcome).Silent) :
    Gives (planBranch tree ctx node outcome path)
      ((node.branch outcome).silentPlan ctx) := by
  have hscore : ∀ {source : Option String} (change accumulator below)
      {next : Option Expr → Logged BranchPlan} {plan : BranchPlan},
      (∀ text, source = some text → Text.isBlankText text = true) →
        Gives (next none) plan →
          Gives (if tree.isScored
            then planScore source change accumulator below >>= next
            else pure none >>= next) plan := by
    intro source change accumulator below next plan hblank hnext
    have hnothing : source.bind Logged.optional = none := by
      rw [Option.bind_eq_none_iff]
      intro text htext
      rw [Logged.optional, if_pos (hblank text htext)]
    have hread := gives_planScore source change accumulator below
    rw [hnothing] at hread
    split
    · exact hread.bind hnext
    · exact (Gives.of_pure none).bind hnext
  refine hscore _ _ _ h.score (hscore _ _ _ h.penalty
    ((gives_planExit _ h.code).bind ?_))
  unfold planFeedback
  rw [if_pos h.feedback]
  exact (Gives.of_pure none).bind (.of_pure _)

theorem gives_planNode {node : Node} (index : Nat)
    (h : ∀ outcome, (node.branch outcome).Silent) :
    Gives (planNode tree ctx traversal index node)
      (node.silentPlan tree ctx traversal index) :=
  (gives_planTest node _).bind ((gives_planBranch true _ (h true)).bind
    ((gives_planBranch false _ (h false)).bind (.of_pure _)))

/-- Nodes are read one after the other, whatever is read of each. -/
theorem gives_planNodes {read : Nat → Node → NodePlan}
    (hread : ∀ index, ∀ node ∈ tree.nodes,
      Gives (planNode tree ctx traversal index node) (read index node))
    (indices : List Nat) :
    Gives (planNodes tree ctx traversal indices)
      (indices.filterMap fun index => tree.nodes[index]?.map (read index)) := by
  induction indices with
  | nil => exact .of_pure _
  | cons index rest ih =>
      unfold planNodes
      cases hnode : tree.nodes[index]? with
      | none =>
          rw [List.filterMap_cons_none (by simp [hnode])]
          exact ih
      | some node =>
          rw [List.filterMap_cons_some (by rw [hnode]; rfl)]
          exact (hread index node (List.mem_of_getElem? hnode)).bind
            (ih.bind (.of_pure _))

/-- A tree that runs nothing before its first test is read node by node. -/
theorem gives_plan_of_nodes {read : Nat → Node → NodePlan}
    (hsetup : Fragment.parse tree.feedbackVariables = .ok [])
    (hread : ∀ index, ∀ node ∈ tree.nodes,
      Gives (planNode tree ctx traversal index node) (read index node)) :
    Gives (tree.plan ctx traversal)
      ⟨[], traversal.order.filterMap fun index =>
        tree.nodes[index]?.map (read index)⟩ := by
  have hnothing : ∀ path, Gives (Logged.fragment? tree.feedbackVariables path)
      (some []) := by
    intro path
    unfold Logged.fragment?
    rw [hsetup]
    exact .of_pure _
  exact (hnothing _).bind ((gives_planNodes hread _).bind (.of_pure _))

theorem gives_plan (hsilent : tree.Silent) :
    Gives (tree.plan ctx traversal) (tree.silentPlan ctx traversal) :=
  gives_plan_of_nodes hsilent.setup fun index node hnode =>
    gives_planNode index (hsilent.branches node hnode)

/-- A tree that compiles is assembled from what is read of it. -/
theorem compile_of_gives {plan : Traversal → Plan}
    (hplan : ∀ traversal, Gives (tree.plan ctx traversal) (plan traversal))
    {compiled : Compiled} {log : Log}
    (h : tree.compile ctx = (some compiled, log)) :
    ∃ traversal, tree.walk = .ok traversal ∧
      compiled = tree.assemble ctx traversal (plan traversal) := by
  unfold compile at h
  cases hwalk : tree.walk with
  | error fault => simp [hwalk] at h
  | ok traversal =>
      refine ⟨traversal, rfl, ?_⟩
      simp only [hwalk] at h
      split at h
      next read after hrun =>
        have hread : ((tree.plan ctx traversal).run
            ((tree.orphanWarnings traversal).foldl Log.pushWarning .empty)).1 =
              plan traversal := hplan traversal _
        rw [hrun] at hread
        split at h
        · cases h
        · cases h
          exact congrArg (tree.assemble ctx traversal) hread

/-- A silent tree that compiles is assembled from its plan. -/
theorem compile_silent (hsilent : tree.Silent) {compiled : Compiled} {log : Log}
    (h : tree.compile ctx = (some compiled, log)) :
    ∃ traversal, tree.walk = .ok traversal ∧
      compiled =
        tree.assemble ctx traversal (tree.silentPlan ctx traversal) :=
  compile_of_gives (fun _ => gives_plan hsilent) h

/-- Nothing runs before the first test, and no branch runs code of its own. -/
structure Plan.Codeless (plan : Plan) : Prop where
  setup : plan.setup = []
  transitions : ∀ code ∈ plan.transitions, code = []

namespace Plan.Codeless

variable {plan : Plan}

/-- Branches that leave for a scene, if they leave at all, and run nothing
before. -/
theorem of_branches (hsetup : plan.setup = [])
    (hbranch : ∀ node ∈ plan.nodes, ∀ outcome transition,
      (node.branch outcome).transition = some transition →
        transition.code = []) : plan.Codeless where
  setup := hsetup
  transitions := by
    intro code hcode
    simp only [Plan.transitions, List.mem_flatMap, List.mem_filterMap,
      List.mem_map] at hcode
    obtain ⟨node, hnode, transition, ⟨outcome, _, htaken⟩, rfl⟩ := hcode
    exact hbranch node hnode outcome transition htaken

theorem transitionWrites (h : plan.Codeless) : plan.transitionWrites = ∅ := by
  have hfold : ∀ codes : List Fragment, (∀ code ∈ codes, code = []) →
      codes.foldl (fun names code => names ∪ (Fragment.usage code).write)
        (∅ : NameSet) = ∅ := by
    intro codes hcodes
    induction codes with
    | nil => rfl
    | cons code rest ih =>
        rw [List.foldl_cons, hcodes code List.mem_cons_self]
        exact ih fun other hmem => hcodes other (List.mem_cons_of_mem code hmem)
  exact hfold _ h.transitions

/-- The function needs no local but its own variables. -/
theorem locals (h : plan.Codeless) :
    Emit.locals plan.writes = Emit.accumulators := by
  have hwrites : plan.writes = ∅ := by
    unfold Plan.writes
    rw [h.transitionWrites, h.setup]
    rfl
  rw [hwrites]
  rfl

/-- The body of the function: the nodes, the rounding of the scores and the
result. -/
theorem body (h : plan.Codeless) (isScored : Bool) (ctx : TreeContext) :
    plan.body isScored ctx =
      plan.nodes.map (fun node => Emit.node node ctx.options.nodeErrorLimit) ++
      ((if isScored then
        [Emit.rounded Vars.score ctx.options.scoreScale,
          Emit.rounded Vars.penalty ctx.options.scoreScale]
      else []) ++ [Emit.result]) := by
  have hupdates : Emit.updates ctx.stateVariables ∅ = [] := by
    have hnone : ctx.stateVariables.filter
        (fun slot => decide (slot.name ∈ (∅ : NameSet))) = [] := by
      rw [List.filter_eq_nil_iff]
      intro slot _
      exact fun hmem => NameSet.not_mem_empty slot.name (of_decide_eq_true hmem)
    unfold Emit.updates
    rw [hnone]
    rfl
  unfold Plan.body
  rw [h.transitionWrites, hupdates, h.setup]
  simp

end Plan.Codeless

theorem codeless_silentPlan : (tree.silentPlan ctx traversal).Codeless := by
  refine .of_branches rfl ?_
  intro plan hplan outcome transition htaken
  simp only [silentPlan, List.mem_filterMap, Option.map_eq_some_iff] at hplan
  obtain ⟨index, _, node, _, rfl⟩ := hplan
  have hbranch : (node.silentPlan tree ctx traversal index).branch outcome =
      (node.branch outcome).silentPlan ctx := by
    cases outcome <;> rfl
  rw [hbranch] at htaken
  obtain ⟨target, _, rfl⟩ := Option.map_eq_some_iff.mp htaken
  rfl

/-- A silent tree needs no local but the variables of the function. -/
theorem locals_silentPlan :
    Emit.locals (tree.silentPlan ctx traversal).writes = Emit.accumulators :=
  codeless_silentPlan.locals

/-- The body of the function of a silent tree: the nodes, the rounding of the
scores and the result. -/
theorem body_silentPlan :
    (tree.silentPlan ctx traversal).body tree.isScored ctx =
      (tree.silentPlan ctx traversal).nodes.map
        (fun node => Emit.node node ctx.options.nodeErrorLimit) ++
      ((if tree.isScored then
        [Emit.rounded Vars.score ctx.options.scoreScale,
          Emit.rounded Vars.penalty ctx.options.scoreScale]
      else []) ++ [Emit.result]) :=
  codeless_silentPlan.body tree.isScored ctx

end ResponseTree

end SceneQuiz
