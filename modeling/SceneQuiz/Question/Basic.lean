import SceneQuiz.NameSet
import SceneQuiz.ResponseTree.Basic
/-!
Questions: scenes with text, inputs and response trees, over variables that are
shared and state that survives the change of scenes.  Code is still text.
-/

namespace SceneQuiz

/-- How a response is entered. -/
inductive InputKind where
  | algebraic
  | numerical
  | units
  | string
  | textarea
  | matrix
  | boolean
  | dropdown
  | checkbox
  | radio
  | notes
deriving DecidableEq, Repr

/-- A place for a response. -/
structure Input where
  name : String
  kind : InputKind
  teacherAnswer : String
deriving DecidableEq, Repr

/-- What a validation box shows. -/
inductive BoxKind where
  | auto
  | compact
  | symbolic
  /-- A text of its own. -/
  | custom
deriving DecidableEq, Repr

/-- Where remarks on the form of a response are shown. -/
structure ValidationBox where
  name : String
  kind : BoxKind
  inputs : List String
  text : Option Template
deriving Repr

/-- One scene of a question. -/
structure Scene where
  name : String
  /-- Code that runs when the scene is entered. -/
  setup : String
  text : Template
  inputs : List Input
  trees : List ResponseTree
  boxes : List ValidationBox
deriving Repr

namespace Scene

def input? (scene : Scene) (name : String) : Option Input :=
  scene.inputs.find? fun input => input.name == name

def inputNames (scene : Scene) : List String := scene.inputs.map Input.name

end Scene

/-- A question. -/
structure Question where
  name : String
  /-- Code that runs before every scene. -/
  setup : String
  stateVariables : List StateVariable
  scenes : List Scene
  /-- The scene shown first, if it is not the first one. -/
  entryScene : Option String
deriving Repr

namespace Question

def scene? (question : Question) (name : String) : Option Scene :=
  question.scenes.find? fun scene => scene.name == name

def sceneNames (question : Question) : List String :=
  question.scenes.map Scene.name

/-- The name of the scene shown first. -/
def entryName? (question : Question) : Option String :=
  match question.entryScene with
  | some name => some name
  | none => question.sceneNames.head?

def stateNames (question : Question) : NameSet :=
  .ofList (question.stateVariables.map StateVariable.name)

end Question

end SceneQuiz
