import SceneQuiz.Question.Basic
import SceneQuiz.ResponseTree.Document
/-!
Questions as JSON documents.
-/

namespace SceneQuiz

namespace InputKind

def text : InputKind → String
  | .algebraic => "algebraic"
  | .numerical => "numerical"
  | .units => "units"
  | .string => "string"
  | .textarea => "textarea"
  | .matrix => "matrix"
  | .boolean => "boolean"
  | .dropdown => "dropdown"
  | .checkbox => "checkbox"
  | .radio => "radio"
  | .notes => "notes"

def all : List InputKind :=
  [.algebraic, .numerical, .units, .string, .textarea, .matrix, .boolean,
    .dropdown, .checkbox, .radio, .notes]

def table : List (String × InputKind) := all.map fun kind => (kind.text, kind)

end InputKind

namespace BoxKind

def text : BoxKind → String
  | .auto => "auto"
  | .compact => "compact"
  | .symbolic => "symbolic"
  | .custom => "custom"

def table : List (String × BoxKind) :=
  [BoxKind.auto, .compact, .symbolic, .custom].map fun kind => (kind.text, kind)

end BoxKind

namespace Input

def ofJson? (value : Json) : Option Input := do
  let members ← value.asMembers?
  return {
    name := ← Json.required members "name" Json.asText?
    kind :=
      ← Json.defaulted members "kind" .algebraic
        (Json.asCaseOf? InputKind.table)
    teacherAnswer := ← Json.defaulted members "teacher_answer" "" Json.asText? }

def toJson (input : Input) : Json :=
  .obj [("name", .str input.name), ("kind", .str input.kind.text),
    ("teacher_answer", .str input.teacherAnswer)]

end Input

namespace ValidationBox

def ofJson? (value : Json) : Option ValidationBox := do
  let members ← value.asMembers?
  return {
    name := ← Json.required members "name" Json.asText?
    kind :=
      ← Json.defaulted members "kind" .auto (Json.asCaseOf? BoxKind.table)
    inputs := ← Json.required members "inputs" (Json.asList? Json.asText?)
    text := ← Json.nullable members "text" Template.ofJson? }

def toJson (box : ValidationBox) : Json :=
  .obj [("name", .str box.name), ("kind", .str box.kind.text),
    ("inputs", Json.texts box.inputs),
    ("text", Json.ofOption Template.toJson box.text)]

end ValidationBox

namespace Scene

def ofJson? (value : Json) : Option Scene := do
  let members ← value.asMembers?
  return {
    name := ← Json.required members "name" Json.asText?
    setup := ← Json.defaulted members "scene_variables" "" Json.asText?
    text := ← Json.defaulted members "text" .empty Template.ofJson?
    inputs :=
      ← Json.defaulted members "inputs" [] (Json.asList? Input.ofJson?)
    trees :=
      ← Json.defaulted members "prts" [] (Json.asList? ResponseTree.ofJson?)
    boxes :=
      ← Json.defaulted members "validation_boxes" []
        (Json.asList? ValidationBox.ofJson?) }

/-- A scene as a document, weights written by `number`. -/
def toJson (number : Float → Json) (scene : Scene) : Json :=
  .obj [("name", .str scene.name), ("scene_variables", .str scene.setup),
    ("text", scene.text.toJson), ("inputs", .arr (scene.inputs.map Input.toJson)),
    ("prts", .arr (scene.trees.map (ResponseTree.toJson number))),
    ("validation_boxes", .arr (scene.boxes.map ValidationBox.toJson))]

end Scene

namespace Question

def ofJson? (value : Json) : Option Question := do
  let members ← value.asMembers?
  return {
    name := ← Json.required members "name" Json.asText?
    setup := ← Json.defaulted members "question_variables" "" Json.asText?
    stateVariables :=
      ← Json.defaulted members "state_variables" []
        (Json.asList? StateVariable.ofJson?)
    scenes := ← Json.required members "scenes" (Json.asList? Scene.ofJson?)
    entryScene := ← Json.nullable members "entry_scene" Json.asText? }

/-- Read a text document. -/
def read? (text : String) : Option Question := do ofJson? (← Json.read? text)

/-- A question as a document, weights written by `number`. -/
def toJson (number : Float → Json) (question : Question) : Json :=
  .obj [("name", .str question.name),
    ("question_variables", .str question.setup),
    ("state_variables", .arr (question.stateVariables.map StateVariable.toJson)),
    ("scenes", .arr (question.scenes.map (Scene.toJson number))),
    ("entry_scene", Json.ofOption Json.str question.entryScene)]

end Question

end SceneQuiz
