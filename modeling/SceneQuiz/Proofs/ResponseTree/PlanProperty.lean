import SceneQuiz.Proofs.ResponseTree.Provenance
/-!
Properties of the code of a plan.  A plan holds code that was read from the tree
and feedback that was compiled, with little around it.  A property of what was
read that is kept on the way to the plan is therefore one of the whole plan.
-/

namespace SceneQuiz

namespace ResponseTree

/-- The texts of a node that are read as expressions. -/
def Node.expressions (node : Node) : List String :=
  [node.studentAnswer, node.teacherAnswer, node.options] ++
    outcomes.flatMap fun outcome =>
      (node.branch outcome).score.toList ++ (node.branch outcome).penalty.toList

/-- The texts of a tree that are read as expressions. -/
def expressions (tree : ResponseTree) : List String := tree.nodes.flatMap Node.expressions

/-- The texts of a tree that are read as statements. -/
def fragments (tree : ResponseTree) : List String :=
  tree.feedbackVariables ::
    tree.nodes.flatMap fun node =>
      outcomes.map fun outcome => (node.branch outcome).transitionCode

/-- The templates of a tree. -/
def feedbacks (tree : ResponseTree) : List Template :=
  tree.nodes.flatMap fun node => outcomes.map fun outcome => (node.branch outcome).feedback

theorem mem_outcomes (outcome : Bool) : outcome ∈ outcomes := by
  cases outcome <;> decide

/-- Properties of expressions, of statements and of compiled feedback. -/
structure PlanProperty where
  expr : Expr → Prop
  code : Fragment → Prop
  feedback : Expr → Prop

/-- One property for all code of a plan. -/
def PlanProperty.throughout (good : Expr → Prop) : PlanProperty :=
  ⟨good, fun code => ∀ statement ∈ code, good statement.expr, good⟩

structure BranchPlan.Has (P : PlanProperty) (plan : BranchPlan) : Prop where
  score : ∀ e ∈ plan.score, P.expr e
  penalty : ∀ e ∈ plan.penalty, P.expr e
  transition : ∀ found ∈ plan.transition, P.code found.code
  feedback : ∀ e ∈ plan.feedback, P.feedback e

structure NodePlan.Has (P : PlanProperty) (plan : NodePlan) : Prop where
  test : P.expr plan.test
  branch : ∀ outcome, (plan.branch outcome).Has P

structure Plan.Has (P : PlanProperty) (plan : Plan) : Prop where
  setup : P.code plan.setup
  nodes : ∀ node ∈ plan.nodes, node.Has P

namespace Plan

theorem mem_transitions {plan : Plan} {code : Fragment} :
    code ∈ plan.transitions ↔ ∃ node ∈ plan.nodes, ∃ outcome,
      ∃ transition ∈ (node.branch outcome).transition, transition.code = code := by
  unfold transitions
  simp only [List.mem_flatMap, List.mem_map, List.mem_filterMap]
  constructor
  · rintro ⟨node, hnode, transition, ⟨outcome, -, hfound⟩, hcode⟩
    exact ⟨node, hnode, outcome, transition, hfound, hcode⟩
  · rintro ⟨node, hnode, outcome, transition, hfound, hcode⟩
    exact ⟨node, hnode, transition, ⟨outcome, mem_outcomes outcome, hfound⟩, hcode⟩

theorem mem_transitionWrites {plan : Plan} {name : String} :
    name ∈ plan.transitionWrites ↔
      ∃ code ∈ plan.transitions, name ∈ (Fragment.usage code).write := by
  have hfold : ∀ (codes : List Fragment) (names : NameSet),
      name ∈ codes.foldl (fun names code => names ∪ (Fragment.usage code).write) names ↔
        name ∈ names ∨ ∃ code ∈ codes, name ∈ (Fragment.usage code).write := by
    intro codes
    induction codes with
    | nil => simp
    | cons code rest ih =>
        intro names
        rw [List.foldl_cons, ih, NameSet.mem_union]
        simp [or_assoc]
  rw [transitionWrites, hfold]
  exact or_iff_right (NameSet.not_mem_empty name)

/-- From one property to another, for the code of one plan. -/
theorem Has.imp {P R : PlanProperty} {plan : Plan} (h : plan.Has P)
    (hexpr : ∀ e, P.expr e → R.expr e)
    (hcode : ∀ code ∈ plan.setup :: plan.transitions, P.code code → R.code code)
    (hfeedback : ∀ e, P.feedback e → R.feedback e) : plan.Has R := by
  refine ⟨hcode _ List.mem_cons_self h.setup, fun node hnode => ?_⟩
  have hplan := h.nodes node hnode
  refine ⟨hexpr _ hplan.test, fun outcome => ?_⟩
  have hbranch := hplan.branch outcome
  constructor
  · exact fun e he => hexpr e (hbranch.score e he)
  · exact fun e he => hexpr e (hbranch.penalty e he)
  · intro found hfound
    have hmem := mem_transitions.mpr ⟨node, hnode, outcome, found, hfound, rfl⟩
    exact hcode found.code (List.mem_cons_of_mem _ hmem) (hbranch.transition found hfound)
  · exact fun e he => hfeedback e (hbranch.feedback e he)

theorem Has.transitions {P : PlanProperty} {plan : Plan} (h : plan.Has P) :
    ∀ code ∈ plan.transitions, P.code code := by
  intro code hcode
  obtain ⟨node, hnode, outcome, transition, hfound, rfl⟩ := mem_transitions.mp hcode
  exact ((h.nodes node hnode).branch outcome).transition transition hfound

end Plan

/-- What is read from a tree has the properties, and planning keeps them. -/
structure PlanProperty.Offered (P : PlanProperty) (tree : ResponseTree) (ctx : TreeContext) :
    Prop where
  expressions : ∀ source ∈ tree.expressions, ∀ e, Expr.parse source = .ok e → P.expr e
  fragments : ∀ source ∈ tree.fragments, ∀ code, Fragment.parse source = .ok code → P.code code
  feedbacks : ∀ feedback ∈ tree.feedbacks, ∀ compiled,
    feedback.compile ctx.templates = .ok compiled → P.feedback compiled.expr
  noTest : P.expr (.list [])
  changed : ∀ change, ∀ accumulator ∈ [Vars.score, Vars.penalty], ∀ value, P.expr value →
    P.expr (changedScore change accumulator value)
  invoked : ∀ entry ∈ ctx.registry.entries, ∀ call : TestCall, P.expr call.studentAnswer →
    (∀ e ∈ call.teacherAnswer, P.expr e) → (∀ e ∈ call.options, P.expr e) →
      P.expr (entry.2.invocation call)

variable {P : PlanProperty} {tree : ResponseTree} {ctx : TreeContext}

section Planning

variable (hP : P.Offered tree ctx) {node : Node} (hnode : node ∈ tree.nodes)

include hP hnode

theorem TestFrom.has {e : Expr} (h : TestFrom ctx node e) : P.expr e := by
  have hread : ∀ source ∈ [node.studentAnswer, node.teacherAnswer, node.options],
      ∀ e, Expr.parse source = .ok e → P.expr e := fun source hsource =>
    hP.expressions source (List.mem_flatMap.mpr
      ⟨node, hnode, List.mem_append_left _ hsource⟩)
  obtain ⟨entry, hentry, call, rfl, hstudent, hteacher, hoptions⟩ := h
  apply hP.invoked entry hentry
  · exact hread node.studentAnswer (by simp) _ hstudent
  · exact fun e he => hread node.teacherAnswer (by simp) e (hteacher e he)
  · exact fun e he => hread node.options (by simp) e (hoptions e he)

theorem BranchPlan.From.has {outcome : Bool} {plan : BranchPlan}
    (h : plan.From ctx (node.branch outcome)) : plan.Has P := by
  have hscore : ∀ {source change accumulator e},
      (∀ text ∈ source, text ∈ (node.branch outcome).score.toList ++
        (node.branch outcome).penalty.toList) → accumulator ∈ [Vars.score, Vars.penalty] →
      ScoreFrom source change accumulator e → P.expr e := by
    rintro source change accumulator e hsource haccumulator ⟨text, htext, value, hvalue, rfl⟩
    have hmem : text ∈ tree.expressions := List.mem_flatMap.mpr ⟨node, hnode,
      List.mem_append_right _ (List.mem_flatMap.mpr
        ⟨outcome, mem_outcomes outcome, hsource text htext⟩)⟩
    exact hP.changed change accumulator haccumulator value (hP.expressions text hmem value hvalue)
  constructor
  · refine fun e he => hscore (fun text htext => ?_) (by simp) (h.score e he)
    exact List.mem_append_left _ (Option.mem_toList.mpr htext)
  · refine fun e he => hscore (fun text htext => ?_) (by simp) (h.penalty e he)
    exact List.mem_append_right _ (Option.mem_toList.mpr htext)
  · intro transition htransition
    refine hP.fragments _ (List.mem_cons_of_mem _ ?_) _ (h.code transition htransition)
    exact List.mem_flatMap.mpr
      ⟨node, hnode, List.mem_map.mpr ⟨outcome, mem_outcomes outcome, rfl⟩⟩
  · intro e he
    obtain ⟨compiled, hcompiled, rfl⟩ := h.feedback e he
    refine hP.feedbacks _ ?_ compiled hcompiled
    exact List.mem_flatMap.mpr
      ⟨node, hnode, List.mem_map.mpr ⟨outcome, mem_outcomes outcome, rfl⟩⟩

end Planning

theorem Plan.From.has {plan : Plan} (h : plan.From tree ctx) (hP : P.Offered tree ctx) :
    plan.Has P := by
  refine ⟨hP.fragments _ List.mem_cons_self _ h.setup, fun found hfound => ?_⟩
  obtain ⟨node, hnode, hfrom⟩ := h.nodes found hfound
  refine ⟨?_, fun outcome => (hfrom.branch outcome).has hP hnode⟩
  rcases hfrom.test with hnone | htest
  · rw [hnone]
    exact hP.noTest
  · exact htest.has hP hnode

/-- The function of a tree comes from a plan with the properties. -/
theorem exists_plan (hP : P.Offered tree ctx) {compiled : Compiled}
    (h : (tree.compile ctx).1 = some compiled) :
    ∃ traversal plan, plan.Has P ∧ compiled = tree.assemble ctx traversal plan := by
  obtain ⟨traversal, plan, hfrom, hcompiled⟩ := exists_plan_from h
  exact ⟨traversal, plan, hfrom.has hP, hcompiled⟩

end ResponseTree

end SceneQuiz
