import SceneQuiz.Logged
import SceneQuiz.ResponseTree.AnswerTest
import SceneQuiz.ResponseTree.Walk
import SceneQuiz.Template.Compiled
/-!
Plans of response trees: their nodes in walking order, with all code read and
all templates compiled.  What is wrong with any part is reported, in the order
of the parts.
-/

namespace SceneQuiz

/-- What the compilation of a response tree may consult. -/
structure TreeContext where
  options : Options
  registry : Registry
  /-- The scene the tree belongs to. -/
  scene : String
  /-- Scenes that a branch may leave for. -/
  sceneNames : List String
  inputs : List String
  stateVariables : List StateVariable
  reader : Option TemplateReader

/-- What templates inside the tree may consult. -/
def TreeContext.templates (ctx : TreeContext) : TemplateContext :=
  ⟨ctx.options, ctx.inputs, ctx.reader⟩

namespace ResponseTree

/-- Leaving for a scene. -/
structure Transition where
  target : String
  code : Fragment

/-- A branch whose code has been read. -/
structure BranchPlan where
  /-- The new score, in terms of the old one. -/
  score : Option Expr
  penalty : Option Expr
  transition : Option Transition
  feedback : Option Expr

/-- A node whose code has been read. -/
structure NodePlan where
  index : Nat
  name : String
  isRoot : Bool
  /-- Marks of the branches that lead here. -/
  entries : List String
  quiet : Bool
  test : Expr
  onTrue : BranchPlan
  onFalse : BranchPlan

def NodePlan.branch (plan : NodePlan) (outcome : Bool) : BranchPlan :=
  if outcome then plan.onTrue else plan.onFalse

/-- A tree whose code has been read. -/
structure Plan where
  setup : Fragment
  /-- Reachable nodes in walking order. -/
  nodes : List NodePlan

namespace Vars

def score : String := "%_score"
def penalty : String := "%_penalty"
def path : String := "%_path"
def results : String := "%_results"
def feedback : String := "%_feedback"
def errors : String := "%_errors"
def nextScene : String := "%_next_scene"
def stop : String := "%_stop"
def updates : String := "%_updates"
def testResult : String := "%_at"
def outcome : String := "%_ok"
def savedSimp : String := "%_s"
def branchResult : String := "%_b"
def nodeErrors : String := "%_nerr"

end Vars

/-- A score after a change. -/
def changedScore (change : ScoreChange) (accumulator : String) (value : Expr) :
    Expr :=
  match change with
  | .set => value
  | .add => .binary .add (.ident accumulator) value
  | .subtract => .binary .sub (.ident accumulator) value

/-- Read a score; a branch without one leaves the score alone. -/
def planScore (source : Option String) (change : ScoreChange)
    (accumulator : String) (path : Locator) : Logged (Option Expr) :=
  match source with
  | none => pure none
  | some source => do
      let value ← Logged.optionalExpr? source path
      return value.map (changedScore change accumulator)

/-- Read the arguments of a test and build its call.  A teacher's answer that
could not be read is not reported as missing too. -/
def planTest (ctx : TreeContext) (node : Node) (path : Locator) :
    Logged Expr := do
  let student ← Logged.expr? node.studentAnswer (path ++ [.field "sans"])
  let teacher ← Logged.optionalExpr? node.teacherAnswer (path ++ [.field "tans"])
  let options ← Logged.optionalExpr? node.options (path ++ [.field "options"])
  match ctx.registry.find node.test with
  | .error fault =>
      Logged.errors (fault.diagnostics path)
      return .list []
  | .ok test =>
      match student with
      | none => return .list []
      | some student =>
          match test.code ⟨student, teacher, options, ctx.inputs⟩ with
          | .ok call => return call
          | .error fault =>
              Logged.errors ((fault.diagnostics path).filter fun diagnostic =>
                diagnostic.code != Code.missingTeacherAnswer ||
                  Text.isBlankText node.teacherAnswer)
              return .list []

/-- Where a branch leaves for, and what it runs before. -/
def planExit (ctx : TreeContext) (node : Node) (branch : Branch)
    (path : Locator) : Logged (Option Transition) := do
  let leaveFor (target : String) : Logged (Option Transition) := do
    let code ← Logged.fragment? branch.transitionCode (path ++ [.field "variables"])
    return some ⟨target, code.getD []⟩
  match branch.exit with
  | .scene target =>
      if target ∉ ctx.sceneNames then
        Logged.error
          ((Fault.unknownSceneTarget node.name target).diagnostic
            (path ++ [.field "exit"]))
      leaveFor target
  | .stateTransition => leaveFor ctx.scene
  | .finish | .node _ =>
      if !Text.isBlankText branch.transitionCode then
        Logged.warning
          ((Diagnostic.warning Code.transitionOnPlainExit
            "transition variables only run on scene and state transitions").under
            (path ++ [.field "variables"]))
      return none

/-- Compile the feedback of a branch. -/
def planFeedback (ctx : TreeContext) (feedback : Template) (path : Locator) :
    Logged (Option Expr) :=
  if feedback.isEmpty then pure none
  else
    match feedback.compile ctx.templates with
    | .ok compiled => pure (some compiled.expr)
    | .error log => do
        Logged.absorb log path
        return none

/-- Read one branch of a node. -/
def planBranch (tree : ResponseTree) (ctx : TreeContext) (node : Node)
    (outcome : Bool) (nodePath : Locator) : Logged BranchPlan := do
  let path := nodePath ++ [.branch outcome]
  let branch := node.branch outcome
  let score ←
    if tree.isScored then
      planScore branch.score branch.scoreChange Vars.score
        (path ++ [.field "score"])
    else pure none
  let penalty ←
    if tree.isScored then
      planScore branch.penalty branch.penaltyChange Vars.penalty
        (path ++ [.field "penalty"])
    else pure none
  let transition ← planExit ctx node branch path
  let feedback ← planFeedback ctx branch.feedback (path ++ [.field "feedback"])
  return ⟨score, penalty, transition, feedback⟩

/-- Read one node. -/
def planNode (tree : ResponseTree) (ctx : TreeContext) (traversal : Traversal)
    (index : Nat) (node : Node) : Logged NodePlan := do
  let path : Locator := [.node index]
  let test ← planTest ctx node path
  let onTrue ← planBranch tree ctx node true path
  let onFalse ← planBranch tree ctx node false path
  return {
    index := index
    name := node.name
    isRoot := traversal.root? == some index
    entries := traversal.entries tree index
    quiet := node.quiet
    test := test
    onTrue := onTrue
    onFalse := onFalse }

/-- Read the nodes at some places. -/
def planNodes (tree : ResponseTree) (ctx : TreeContext)
    (traversal : Traversal) : List Nat → Logged (List NodePlan)
  | [] => pure []
  | index :: rest => do
      match tree.nodes[index]? with
      | none => planNodes tree ctx traversal rest
      | some node =>
          let plan ← planNode tree ctx traversal index node
          let others ← planNodes tree ctx traversal rest
          return plan :: others

/-- Read all code of a tree. -/
def plan (tree : ResponseTree) (ctx : TreeContext) (traversal : Traversal) :
    Logged Plan := do
  let setup ← Logged.fragment? tree.feedbackVariables
    [.field "feedback_variables"]
  let nodes ← planNodes tree ctx traversal traversal.order
  return ⟨setup.getD [], nodes⟩

namespace Plan

/-- Code that runs when some branch leaves for a scene. -/
def transitions (plan : Plan) : List Fragment :=
  plan.nodes.flatMap fun node =>
    (outcomes.filterMap fun outcome => (node.branch outcome).transition).map
      Transition.code

/-- Names that transition code writes. -/
def transitionWrites (plan : Plan) : NameSet :=
  plan.transitions.foldl (fun names code => names ∪ (Fragment.usage code).write) ∅

/-- Names that setup and transition code write. -/
def writes (plan : Plan) : NameSet :=
  (Fragment.usage plan.setup).write ∪ plan.transitionWrites

end Plan

end ResponseTree

end SceneQuiz
