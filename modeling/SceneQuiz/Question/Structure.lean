import SceneQuiz.Diagnostic.Document
import SceneQuiz.Question.Basic
/-!
Checks on the structure of a question: names are identifiers and unique within
their collection, storage numbers are unique, the entry scene exists, and
validation boxes refer to inputs that exist.
-/

namespace SceneQuiz

/-- What is wrong with the structure of a question. -/
inductive StructureFault where
  | emptyName (what : String)
  | invalidName (what name : String)
  | duplicateName (what name : String)
  | duplicateStorage (storage : Nat)
  | unknownEntryScene (name : String)
  | noScenes
  | tooManyNodes (count : Nat)
  | unknownBoxInput (input : String)
  | missingBoxText
deriving DecidableEq, Repr

/-- The largest number of nodes of a response tree. -/
def nodeLimit : Nat := 500

namespace StructureFault

def code : StructureFault → Code
  | .emptyName _ => Code.emptyName
  | .invalidName _ _ => Code.invalidName
  | .duplicateName _ _ => Code.duplicateName
  | .duplicateStorage _ => Code.duplicateStorage
  | .unknownEntryScene _ | .noScenes => Code.unknownEntryScene
  | .tooManyNodes _ | .missingBoxText => Code.limitExceeded
  | .unknownBoxInput _ => Code.unknownBoxInput

def message : StructureFault → String
  | .emptyName what => what ++ " name is empty"
  | .invalidName what name => what ++ " name '" ++ name ++ "' is not an identifier"
  | .duplicateName what name => "duplicate " ++ what ++ " name '" ++ name ++ "'"
  | .duplicateStorage storage =>
      "storage number " ++ toString storage ++
        " is used by more than one state variable"
  | .unknownEntryScene name => "entry scene '" ++ name ++ "' does not exist"
  | .noScenes => "question has no scenes"
  | .tooManyNodes count =>
      "PRT has " ++ toString count ++ " nodes, more than the limit of " ++
        toString nodeLimit
  | .unknownBoxInput input =>
      "validation box refers to unknown input '" ++ input ++ "'"
  | .missingBoxText => "custom validation box has no text"

def diagnostic (fault : StructureFault) (path : Locator) : Diagnostic :=
  (Diagnostic.error fault.code fault.message).under path

end StructureFault

/-- A letter followed by letters, digits and underscores. -/
def isIdentifier (name : String) : Bool :=
  match name.toList with
  | [] => false
  | c :: rest => c.isAlpha && rest.all fun c => c.isAlphanum || c == '_'

namespace Structure

/-- What is wrong with a name, given the good ones before it. -/
def nameFault? (what : String) (seen : List String) (name : String) :
    Option StructureFault :=
  if name = "" then some (.emptyName what)
  else if !isIdentifier name then some (.invalidName what name)
  else if name ∈ seen then some (.duplicateName what name)
  else none

/-- Check the names of a collection from its `index`-th item on. -/
def namesFrom (what : String) (place : Nat → Segment) (path : Locator)
    (index : Nat) (seen : List String) : List String → List Diagnostic
  | [] => []
  | name :: rest =>
      let fault := (nameFault? what seen name).map fun fault =>
        fault.diagnostic (path ++ [place index, .field "name"])
      fault.toList ++ namesFrom what place path (index + 1) (name :: seen) rest

/-- Check the names of a collection. -/
def names (what : String) (place : Nat → Segment) (path : Locator)
    (items : List String) : List Diagnostic :=
  namesFrom what place path 0 [] items

/-- Check storage numbers from the `index`-th on. -/
def storageFrom (index : Nat) (seen : List Nat) : List Nat → List Diagnostic
  | [] => []
  | storage :: rest =>
      (if storage ∈ seen then
        [(StructureFault.duplicateStorage storage).diagnostic
          [.stateVariable index, .field "storage"]]
      else []) ++ storageFrom (index + 1) (storage :: seen) rest

/-- Check which scene is shown first. -/
def entry (question : Question) : List Diagnostic :=
  if question.scenes.isEmpty then
    [StructureFault.noScenes.diagnostic [.field "scenes"]]
  else
    match question.entryScene with
    | some name =>
        if (question.scene? name).isNone then
          [(StructureFault.unknownEntryScene name).diagnostic [.field "entry_scene"]]
        else []
    | none => []

/-- Check the size of a tree and the names of its nodes. -/
def tree (tree : ResponseTree) (path : Locator) : List Diagnostic :=
  (if nodeLimit < tree.nodes.length then
    [(StructureFault.tooManyNodes tree.nodes.length).diagnostic
      (path ++ [.field "nodes"])]
  else []) ++
    names "node" .node path (tree.nodes.map ResponseTree.Node.name)

/-- Check what a validation box refers to. -/
def box (scene : Scene) (box : ValidationBox) (path : Locator) :
    List Diagnostic :=
  (box.inputs.filter fun input => (scene.input? input).isNone).map (fun input =>
    (StructureFault.unknownBoxInput input).diagnostic (path ++ [.field "inputs"])) ++
    (if box.kind = .custom ∧ box.text.isNone then
      [StructureFault.missingBoxText.diagnostic (path ++ [.field "text"])]
    else [])

/-- Check a scene. -/
def scene (scene : Scene) (path : Locator) : List Diagnostic :=
  names "input" .input path scene.inputNames ++
    names "PRT" .tree path (scene.trees.map ResponseTree.name) ++
    names "validation box" .validationBox path
      (scene.boxes.map ValidationBox.name) ++
    (scene.trees.mapIdx fun i item => tree item (path ++ [.tree i])).flatten ++
    (scene.boxes.mapIdx fun i item =>
      box scene item (path ++ [.validationBox i])).flatten

end Structure

/-- All faults in the structure of a question. -/
def Question.structureErrors (question : Question) : List Diagnostic :=
  Structure.names "state variable" .stateVariable []
      (question.stateVariables.map StateVariable.name) ++
    Structure.storageFrom 0 []
      (question.stateVariables.map StateVariable.storage) ++
    Structure.names "scene" .scene [] question.sceneNames ++
    Structure.entry question ++
    (question.scenes.mapIdx fun i scene =>
      Structure.scene scene [.scene i]).flatten

end SceneQuiz
