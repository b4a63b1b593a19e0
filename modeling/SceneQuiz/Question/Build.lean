import SceneQuiz.Question.Artifact
import SceneQuiz.Question.Layer
import SceneQuiz.Question.Structure
import SceneQuiz.ResponseTree.Code
/-!
From a question to its artifacts.  Every part is checked and compiled even if
another one fails, so that all diagnostics are reported together; only the
response trees of a scene that breaks the rules of its layers are left out.
-/

namespace SceneQuiz

/-- What the compilation of a question may consult. -/
structure BuildContext where
  options : Options
  registry : Registry
  reader : Option TemplateReader

namespace Build

/-- An artifact under its key. -/
abbrev Entry := String × Artifact

/-- The key of a part of a scene. -/
def sceneKey (scene part : String) : String := "scene-" ++ scene ++ "-" ++ part

/-- Inputs that code reads, in declaration order. -/
def readInputs (e : Expr) (inputs : List String) : List String :=
  let read := e.usage.read
  inputs.filter fun input => decide (input ∈ read)

/-- The function `name() := body`. -/
def function (name : String) (body : Expr) (inputs : List String) : Artifact :=
  let definition := Expr.defineFunction name body
  .function name definition.print (readInputs definition inputs)

/-- A statement as an expression.  Its `simp` flag is set before and taken back
after it. -/
def flagged (statement : Statement) : Expr :=
  match statement.flag? "simp" with
  | none => statement.expr
  | some flag =>
      .block [.assign "%_s" (.ident "simp")]
        [.assign "simp" (flag.value.getD (.bool true)), statement.expr,
          .assign "simp" (.ident "%_s")]

/-- Statements one after the other, and then `true`. -/
def statements (fragment : Fragment) : Expr :=
  .group (fragment.map flagged ++ [.bool true])

/-- Compile code that sets variables.  The usage is that of no code if it
cannot be read. -/
def setup (key name source : String) (inputs : List String)
    (path : Locator) : Logged (List Entry × Usage) := do
  match ← Logged.fragment? source path with
  | none => return ([], .empty)
  | some fragment =>
      return ([(key, function name (statements fragment) inputs)],
        Fragment.usage fragment)

/-- Read the initial values of state variables from the `index`-th on. -/
def initialValues (index : Nat) :
    List StateVariable → Logged (List (StateVariable × Option Expr))
  | [] => pure []
  | slot :: rest => do
      let value ← Logged.expr? slot.initialValue
        [.stateVariable index, .field "initial_value"]
      let others ← initialValues (index + 1) rest
      return (slot, value) :: others

/-- The function that lists storage numbers with initial values. -/
def stateInit (values : List (StateVariable × Option Expr)) : Entry :=
  let pairs := values.filterMap fun entry =>
    entry.2.map fun value => Expr.list [.int entry.1.storage, value]
  ("state-init", function "%_state_init" (.list pairs) [])

/-- Compile a template to a function. -/
def text (ctx : BuildContext) (key name : String) (template : Template)
    (inputs : List String) (path : Locator) : Logged (List Entry) :=
  match template.compile ⟨ctx.options, inputs, ctx.reader⟩ with
  | .ok compiled => pure [(key, function name compiled.expr inputs)]
  | .error log => do
      Logged.absorb log path
      return []

/-- Compile the texts of validation boxes from the `index`-th on. -/
def boxes (ctx : BuildContext) (scene : String) (path : Locator)
    (index : Nat) : List ValidationBox → Logged (List Entry)
  | [] => pure []
  | box :: rest => do
      let entries ← match box.text with
        | some template =>
            text ctx (sceneKey scene ("vbox-" ++ box.name))
              ("%_scene_" ++ scene ++ "_vbox_" ++ box.name) template box.inputs
              (path ++ [.validationBox index, .field "text"])
        | none => pure []
      let others ← boxes ctx scene path (index + 1) rest
      return entries ++ others

/-- Compile response trees from the `index`-th on. -/
def trees (ctx : TreeContext) (path : Locator) (index : Nat) :
    List ResponseTree → Logged (List Entry)
  | [] => pure []
  | tree :: rest => do
      let (compiled, log) := tree.compile ctx
      Logged.absorb log (path ++ [.tree index])
      let entries := compiled.toList.map fun compiled =>
        (sceneKey ctx.scene ("prt-" ++ tree.name),
          Artifact.tree compiled.function compiled.code compiled.inputs
            compiled.order compiled.value)
      let others ← trees ctx path (index + 1) rest
      return entries ++ others

/-- What response trees of a scene may consult. -/
def treeContext (ctx : BuildContext) (question : Question) (scene : Scene) :
    TreeContext where
  options := ctx.options
  registry := ctx.registry
  scene := scene.name
  sceneNames := question.sceneNames
  inputs := scene.inputNames
  stateVariables := question.stateVariables
  reader := ctx.reader

/-- Compile the `index`-th scene: its artifacts, and the names that its
variables write. -/
def scene (ctx : BuildContext) (question : Question) (layers : Layers)
    (index : Nat) (scene : Scene) : Logged (List Entry × NameSet) := do
  let path : Locator := [.scene index]
  let (code, usage) ← setup (sceneKey scene.name "variables")
    ("%_scene_" ++ scene.name ++ "_variables") scene.setup scene.inputNames
    (path ++ [.field "scene_variables"])
  let errors := layers.sceneErrors index scene usage
  Logged.errors errors
  let shown ← text ctx (sceneKey scene.name "text")
    ("%_scene_" ++ scene.name ++ "_text") scene.text scene.inputNames
    (path ++ [.field "text"])
  let boxed ← boxes ctx scene.name path 0 scene.boxes
  let judged ←
    if errors.isEmpty then
      trees (treeContext ctx question scene) path 0 scene.trees
    else pure []
  return (code ++ shown ++ boxed ++ judged, usage.write.owned)

/-- Compile scenes from the `index`-th on. -/
def scenes (ctx : BuildContext) (question : Question) (layers : Layers)
    (index : Nat) : List Scene → Logged (List Entry × NameSet)
  | [] => pure ([], ∅)
  | first :: rest => do
      let (entries, names) ← scene ctx question layers index first
      let (others, otherNames) ← scenes ctx question layers (index + 1) rest
      return (entries ++ others, names ∪ otherNames)

end Build

/-- Compile all parts of a question. -/
def Question.build (question : Question) (ctx : BuildContext) :
    Logged Artifacts := do
  Logged.errors question.structureErrors
  let (code, usage) ← Build.setup "qv" "%_qv" question.setup []
    [.field "question_variables"]
  let values ← Build.initialValues 0 question.stateVariables
  let usages := values.map fun entry => (entry.2.map Expr.usage).getD .empty
  Logged.errors (Layers.questionErrors question usage usages)
  let layers := Layers.ofQuestion question usage
  let (parts, written) ← Build.scenes ctx question layers 0 question.scenes
  let forbidden := layers.questionNames ∪ layers.stateNames ∪ written
  return .ofList (code ++ [Build.stateInit values] ++ parts ++
    [("forbiddenkeys", .keys forbidden.names)])

end SceneQuiz
