import SceneQuiz.Diagnostic.Document
import SceneQuiz.Expr.Usage
import SceneQuiz.Parse.Fragment
import SceneQuiz.Question.Basic
/-!
Which layer of code may write what.  Code runs in layers: initial values of
state, question variables, scene variables, then the code of response trees.  A
layer may read what earlier ones wrote and must not overwrite it, and no layer
writes an input.
-/

namespace SceneQuiz

/-- Names no input may have. -/
def reservedNames : List String :=
  ["true", "false", "simp", "pi", "e", "i", "inf", "minf", "und", "ind",
    "infinity", "and", "or", "not", "if", "then", "else", "elseif", "for", "in",
    "do", "thru", "step", "block", "lambda", "return", "errcatch"]

/-- A layer of code. -/
inductive Layer where
  | questionVariables
  | sceneVariables
  | feedbackVariables
  | transitionCode
deriving DecidableEq, Repr

def Layer.text : Layer → String
  | .questionVariables => "question variables"
  | .sceneVariables => "scene variables"
  | .feedbackVariables => "feedback variables"
  | .transitionCode => "transition code"

/-- A rule of the layers that code breaks. -/
inductive LayerFault where
  | prematureState (name : String)
  | overwrite (layer : Layer) (name : String)
  | inputOverwrite (layer : Layer) (name : String)
  | reservedInput (name : String)
deriving DecidableEq, Repr

namespace LayerFault

def code : LayerFault → Code
  | .prematureState _ => Code.prematureStateReference
  | .overwrite _ _ => Code.crossLayerOverwrite
  | .inputOverwrite _ _ => Code.inputOverwrite
  | .reservedInput _ => Code.forbiddenInputName

def message : LayerFault → String
  | .prematureState name =>
      "state variable '" ++ name ++ "' is referenced before state is initialized"
  | .overwrite layer name =>
      layer.text ++ " may not overwrite '" ++ name ++
        "', which an earlier layer defines"
  | .inputOverwrite layer name =>
      layer.text ++ " may not write input '" ++ name ++ "'"
  | .reservedInput name => "input name '" ++ name ++ "' is reserved"

def diagnostic (fault : LayerFault) (path : Locator) : Diagnostic :=
  (Diagnostic.error fault.code fault.message).under path

end LayerFault

/-- Names without the switches of the whole system. -/
def NameSet.owned (names : NameSet) : NameSet :=
  names.filter fun name => !isGlobalFlag name

/-- Names that the layers of a whole question define. -/
structure Layers where
  stateNames : NameSet
  /-- Names written by the question variables. -/
  questionNames : NameSet

namespace Layers

/-- What the layers of a question define, if its variables have this usage. -/
def ofQuestion (question : Question) (setup : Usage) : Layers :=
  ⟨question.stateNames, setup.write.owned⟩

/-- Report a fault for each of some names. -/
def each (fault : String → LayerFault) (names : NameSet) (path : Locator) :
    List Diagnostic :=
  names.names.map fun name => (fault name).diagnostic path

/-- Check the layers of a whole question: state is not read before it has
values, and not overwritten by the question variables. -/
def questionErrors (question : Question) (setup : Usage)
    (initialValues : List Usage) : List Diagnostic :=
  let state := question.stateNames
  (initialValues.mapIdx fun i usage =>
    each .prematureState (usage.read.inter state)
      [.stateVariable i, .field "initial_value"]).flatten ++
    each .prematureState (setup.read.inter state)
      [.field "question_variables"] ++
    each (.overwrite .questionVariables) (setup.write.inter state)
      [.field "question_variables"]

/-- Inputs that are named like something else. -/
def inputNameErrors (layers : Layers) (scene : Scene) (path : Locator) :
    List Diagnostic :=
  (scene.inputNames.mapIdx fun i name =>
    if name ∈ reservedNames ∨ name ∈ layers.stateNames then
      [(LayerFault.reservedInput name).diagnostic
        (path ++ [.input i, .field "name"])]
    else []).flatten

/-- What is wrong with a name that the scene variables write. -/
def writeFault? (layers : Layers) (inputs : NameSet) (name : String) :
    Option LayerFault :=
  if name ∈ layers.questionNames ∨ name ∈ layers.stateNames then
    some (.overwrite .sceneVariables name)
  else if name ∈ inputs then some (.inputOverwrite .sceneVariables name)
  else none

/-- Writes to inputs in code of a response tree.  Code that cannot be read is
reported when the tree is compiled. -/
def inputWrites (layer : Layer) (source : String) (inputs : NameSet)
    (path : Locator) : List Diagnostic :=
  match Fragment.parse source with
  | .ok fragment =>
      each (.inputOverwrite layer) ((Fragment.usage fragment).write.inter inputs)
        path
  | .error _ => []

/-- Writes to inputs anywhere in a response tree. -/
def treeErrors (tree : ResponseTree) (inputs : NameSet) (path : Locator) :
    List Diagnostic :=
  inputWrites .feedbackVariables tree.feedbackVariables inputs
      (path ++ [.field "feedback_variables"]) ++
    (tree.nodes.mapIdx fun i node =>
      ResponseTree.outcomes.flatMap fun outcome =>
        inputWrites .transitionCode (node.branch outcome).transitionCode inputs
          (path ++ [.node i, .branch outcome, .field "variables"])).flatten

/-- Check the layers of the `index`-th scene, whose variables have this
usage. -/
def sceneErrors (layers : Layers) (index : Nat) (scene : Scene)
    (setup : Usage) : List Diagnostic :=
  let path : Locator := [.scene index]
  let inputs := NameSet.ofList scene.inputNames
  layers.inputNameErrors scene path ++
    each (.inputOverwrite .questionVariables) (layers.questionNames.inter inputs)
      [.field "question_variables"] ++
    (setup.write.owned.names.filterMap fun name =>
      (layers.writeFault? inputs name).map fun fault =>
        fault.diagnostic (path ++ [.field "scene_variables"])) ++
    (scene.trees.mapIdx fun i tree =>
      treeErrors tree inputs (path ++ [.tree i])).flatten

end Layers

end SceneQuiz
