import SceneQuiz.ResponseTree.Plan
/-!
The code of a response tree: one function without arguments.  Nodes stand one
after the other in walking order, each behind a guard; a node runs if it is the
root, or if the path so far holds the mark of a branch that leads to it.  The
function returns

`[score, penalty, path, results, feedback, next scene, state updates, errors]`

or `[]` if more went wrong than is tolerated.
-/

namespace SceneQuiz

namespace ResponseTree

namespace Emit

/-- `list: endcons(item, list)` -/
def appendTo (list : String) (item : Expr) : Expr :=
  .assign list (.call "endcons" [item, .ident list])

/-- `counter: counter + 1` -/
def increment (counter : String) : Expr :=
  .assign counter (.binary .add (.ident counter) (.int 1))

/-- `e = []` -/
def isEmptyList (e : Expr) : Expr := .binary .eq e (.list [])

/-- `list[index]` -/
def nth (list : String) (index : Nat) : Expr :=
  .index (.ident list) [.int index]

/-- `return([])` -/
def giveUp : Expr := .call "return" [.list []]

/-- Run statements, and give up if one of them raises an error. -/
def orGiveUp (statements : List Expr) : Expr :=
  .ifThen (isEmptyList (.call "errcatch" (statements ++ [.bool true]))) giveUp
    none

/-- A score kept between 0 and 1 and rounded to a number of places. -/
def rounded (name : String) (scale : Nat) : Expr :=
  let clamped := Expr.call "max" [.int 0, .call "min" [.int 1, .ident name]]
  .assign name
    (.binary .div (.call "round" [.binary .mul clamped (.int scale)])
      (.int scale))

/-- When a node runs. -/
def guard (isRoot : Bool) (entries : List String) : Expr :=
  let running := Expr.not (.ident Vars.stop)
  if isRoot then running
  else
    let reached := entries.map fun token =>
      Expr.call "member" [.str token, .ident Vars.path]
    .binary .and running ((Expr.fold .or reached).getD (.bool false))

/-- Leaving for a scene. -/
def transition (transition : Transition) : List Expr :=
  [.assign Vars.nextScene (.str transition.target),
    .assign Vars.stop (.bool true)] ++ transition.code.map Statement.expr

/-- What a branch does. -/
def branchStatements (plan : BranchPlan) : List Expr :=
  (plan.score.map (Expr.assign Vars.score)).toList ++
    (plan.penalty.map (Expr.assign Vars.penalty)).toList ++
    (plan.transition.map transition).getD [] ++
    (plan.feedback.map (appendTo Vars.feedback)).toList

/-- A branch.  An error in it is recorded under its locator. -/
def branch (plan : BranchPlan) (path : Locator) : Option Expr :=
  match branchStatements plan with
  | [] => none
  | statements => some (.group [
      .assign Vars.branchResult
        (.call "errcatch" (statements ++ [.bool true])),
      .ifThen (isEmptyList (.ident Vars.branchResult))
        (.group [appendTo Vars.errors (.str path.text),
          increment Vars.nodeErrors])
        none])

/-- Run a test without simplification.  A test that raises an error counts as
failed, and is recorded. -/
def runTest (test : Expr) (path : Locator) : List Expr :=
  [.assign Vars.nodeErrors (.int 0),
    .assign Vars.savedSimp (.ident "simp"),
    .assign "simp" (.bool false),
    .assign Vars.testResult (.call "errcatch" [test]),
    .assign "simp" (.ident Vars.savedSimp),
    .ifThen (isEmptyList (.ident Vars.testResult))
      (.group [appendTo Vars.errors (.str (Locator.text (path ++ [.field "test"]))),
        increment Vars.nodeErrors,
        .assign Vars.testResult
          (.list [.bool false, .str "ATError", .str ""])])
      (some (.assign Vars.testResult
        (.call "first" [.ident Vars.testResult])))]

/-- Record the outcome of a test. -/
def recordOutcome (name : String) (quiet : Bool) : List Expr :=
  [.assign Vars.outcome (.call "is" [nth Vars.testResult 1]),
    .assign Vars.path
      (.call "cons" [
        .ifThen (.ident Vars.outcome) (.str (pathToken name true))
          (some (.str (pathToken name false))),
        .ident Vars.path]),
    appendTo Vars.results
      (.list [.str name, .ident Vars.outcome, nth Vars.testResult 2])] ++
    if quiet then [] else [appendTo Vars.feedback (nth Vars.testResult 3)]

/-- The branch of the outcome, if one of the two does anything. -/
def takeBranch (plan : NodePlan) (path : Locator) : List Expr :=
  let onTrue := branch plan.onTrue (path ++ [.branch true])
  let onFalse := branch plan.onFalse (path ++ [.branch false])
  if onTrue.isSome || onFalse.isSome then
    [.ifThen (.ident Vars.outcome) (onTrue.getD (.bool false))
      (some (onFalse.getD (.bool false)))]
  else []

/-- One node behind its guard. -/
def node (plan : NodePlan) (errorLimit : Nat) : Expr :=
  let path : Locator := [.node plan.index]
  let statements :=
    runTest plan.test path ++ recordOutcome plan.name plan.quiet ++
      takeBranch plan path ++
      [.ifThen (.binary .greater (.ident Vars.nodeErrors) (.int errorLimit))
        giveUp none]
  .ifThen (guard plan.isRoot plan.entries) (.group statements) none

/-- Report the state variables that transition code may have changed. -/
def updates (stateVariables : List StateVariable) (written : NameSet) :
    List Expr :=
  let changed := stateVariables.filter fun slot => decide (slot.name ∈ written)
  if changed.isEmpty then []
  else
    [.ifThen (.binary .notEq (.ident Vars.nextScene) (.bool false))
      (.assign Vars.updates (.list (changed.map fun slot =>
        .list [.int slot.storage, .ident slot.name])))
      none]

/-- What the function returns. -/
def result : Expr :=
  .list [.ident Vars.score, .ident Vars.penalty, .ident Vars.path,
    .ident Vars.results,
    .call "append" [.list [.str rootTag], .ident Vars.feedback],
    .ident Vars.nextScene, .ident Vars.updates, .ident Vars.errors]

/-- Variables of the function itself. -/
def accumulators : List Expr :=
  [.assign Vars.score (.int 0), .assign Vars.penalty (.int 0),
    .assign Vars.path (.list []), .assign Vars.results (.list []),
    .assign Vars.feedback (.list []), .assign Vars.errors (.list []),
    .assign Vars.nextScene (.bool false), .assign Vars.stop (.bool false),
    .assign Vars.updates (.list []), .assign Vars.nodeErrors (.int 0),
    .ident Vars.testResult, .ident Vars.outcome, .ident Vars.savedSimp,
    .ident Vars.branchResult]

/-- Locals of the function: its own variables, and every name its code writes,
which starts with the value it has outside. -/
def locals (written : NameSet) : List Expr :=
  accumulators ++
    (written.names.filter fun name => !isGlobalFlag name).map Expr.keep

end Emit

/-- The body of the function of a tree. -/
def Plan.body (plan : Plan) (isScored : Bool) (ctx : TreeContext) : List Expr :=
  (if plan.setup.isEmpty then []
    else [Emit.orGiveUp (plan.setup.map Statement.expr)]) ++
    plan.nodes.map (fun node => Emit.node node ctx.options.nodeErrorLimit) ++
    Emit.updates ctx.stateVariables plan.transitionWrites ++
    (if isScored then
      [Emit.rounded Vars.score ctx.options.scoreScale,
        Emit.rounded Vars.penalty ctx.options.scoreScale]
    else []) ++
    [Emit.result]

/-- The name of the function of a tree. -/
def functionName (scene tree : String) : String :=
  "%_prt_" ++ scene ++ "_" ++ tree

/-- A compiled response tree. -/
structure Compiled where
  name : String
  function : String
  /-- The definition of the function. -/
  expr : Expr
  /-- Inputs that the function reads, in declaration order. -/
  inputs : List String
  /-- Names of the reachable nodes in walking order. -/
  order : List String
  value : Float
deriving Repr

def Compiled.code (compiled : Compiled) : String := compiled.expr.print

/-- Inputs that code reads, as values or as raw text. -/
def readInputs (e : Expr) (inputs : List String) : List String :=
  let read := e.usage.read
  inputs.filter fun input =>
    decide (input ∈ read) || decide (rawInput input ∈ read)

/-- Where a fault of the graph is reported. -/
def faultPath (tree : ResponseTree) (fault : Fault) : Locator :=
  let nodePath (name : String) : Locator :=
    match tree.indexOf? name with
    | some index => [.node index]
    | none => [.field "nodes"]
  match fault with
  | .missingRoot _ => [.field "root"]
  | .cycle path => (path.head?.map nodePath).getD []
  | .unknownExitTarget node _ | .unknownSceneTarget node _ => nodePath node
  | .duplicateNode _ => [.field "nodes"]

/-- Warnings about nodes that are never reached. -/
def orphanWarnings (tree : ResponseTree) (traversal : Traversal) :
    List Diagnostic :=
  traversal.orphans.map fun index =>
    (Diagnostic.warning Code.orphanNode
      ("node '" ++ tree.nameOf index ++
        "' is not reachable from the root")).under [.node index]

/-- The function of a tree that has been read. -/
def assemble (tree : ResponseTree) (ctx : TreeContext) (traversal : Traversal)
    (plan : Plan) : Compiled :=
  let function := functionName ctx.scene tree.name
  let expr := Expr.defineFunction function
    (.block (Emit.locals plan.writes) (plan.body tree.isScored ctx))
  ⟨tree.name, function, expr, readInputs expr ctx.inputs,
    traversal.order.map tree.nameOf, tree.value⟩

/-- Compile a tree.  There is a function if there is no error; diagnostics are
located within the tree. -/
def compile (tree : ResponseTree) (ctx : TreeContext) : Option Compiled × Log :=
  match tree.walk with
  | .error fault =>
      (none, Log.empty.pushError (fault.diagnostic (tree.faultPath fault)))
  | .ok traversal =>
      let warned := (tree.orphanWarnings traversal).foldl Log.pushWarning .empty
      let (plan, log) := (tree.plan ctx traversal).run warned
      if log.hasErrors then (none, log)
      else (some (tree.assemble ctx traversal plan), log)

end ResponseTree

end SceneQuiz
