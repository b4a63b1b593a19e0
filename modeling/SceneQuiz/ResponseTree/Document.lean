import SceneQuiz.ResponseTree.Basic
import SceneQuiz.Template.Document
/-!
Response trees and state variables as JSON documents.
-/

namespace SceneQuiz

/-- A case by its name in a table. -/
def Json.asCaseOf? {α : Type} (table : List (String × α)) (value : Json) :
    Option α := do
  let name ← value.asCase?
  (table.find? fun entry => entry.1 == name).map Prod.snd

namespace StateVariable

def ofJson? (value : Json) : Option StateVariable := do
  let members ← value.asMembers?
  return {
    name := ← Json.required members "name" Json.asText?
    storage := ← Json.required members "storage" (Json.asNatBelow? (Decimal.twoPow 32))
    declaredType := ← Json.defaulted members "type" "any" Json.asText?
    initialValue :=
      ← Json.defaulted members "initial_value" "false" Json.asText? }

def toJson (slot : StateVariable) : Json :=
  .obj [("name", .str slot.name), ("storage", .nat slot.storage),
    ("type", .str slot.declaredType),
    ("initial_value", .str slot.initialValue)]

end StateVariable

namespace ScoreMode

def table : List (String × ScoreMode) :=
  [("no score", .noScore), ("first", .first), ("best", .best),
    ("bestn", .bestN)]

def text : ScoreMode → String
  | .noScore => "no score"
  | .first => "first"
  | .best => "best"
  | .bestN => "bestn"

end ScoreMode

namespace ScoreChange

def table : List (String × ScoreChange) :=
  [("=", .set), ("+", .add), ("-", .subtract)]

def text : ScoreChange → String
  | .set => "="
  | .add => "+"
  | .subtract => "-"

end ScoreChange

namespace Exit

def ofJson? (value : Json) : Option Exit := do
  let members ← value.asSelfNamed?
  match ← Json.required members "kind" Json.asText? with
  | "end" => return .finish
  | "node" => return .node (← Json.required members "target" Json.asText?)
  | "scene" => return .scene (← Json.required members "target" Json.asText?)
  | "state_transition" => return .stateTransition
  | _ => none

def toJson : Exit → Json
  | .finish => .obj [("kind", .str "end")]
  | .node target => .obj [("kind", .str "node"), ("target", .str target)]
  | .scene target => .obj [("kind", .str "scene"), ("target", .str target)]
  | .stateTransition => .obj [("kind", .str "state_transition")]

end Exit

namespace ResponseTree

def Branch.ofJson? (value : Json) : Option Branch := do
  let members ← value.asMembers?
  let change := Json.asCaseOf? ScoreChange.table
  return {
    score := ← Json.nullable members "score" Json.asText?
    scoreChange := ← Json.defaulted members "score_mode" .set change
    penalty := ← Json.nullable members "penalty" Json.asText?
    penaltyChange := ← Json.defaulted members "penalty_mode" .set change
    feedback := ← Json.defaulted members "feedback" .empty Template.ofJson?
    transitionCode := ← Json.defaulted members "variables" "" Json.asText?
    exit := ← Json.defaulted members "exit" .finish Exit.ofJson? }

def Branch.toJson (branch : Branch) : Json :=
  .obj [("score", Json.ofOption Json.str branch.score),
    ("score_mode", .str branch.scoreChange.text),
    ("penalty", Json.ofOption Json.str branch.penalty),
    ("penalty_mode", .str branch.penaltyChange.text),
    ("feedback", branch.feedback.toJson), ("variables", .str branch.transitionCode),
    ("exit", branch.exit.toJson)]

def Node.ofJson? (value : Json) : Option Node := do
  let members ← value.asMembers?
  return {
    name := ← Json.required members "name" Json.asText?
    test := ← Json.required members "test" Json.asText?
    studentAnswer := ← Json.required members "sans" Json.asText?
    teacherAnswer := ← Json.defaulted members "tans" "" Json.asText?
    options := ← Json.defaulted members "options" "" Json.asText?
    quiet := ← Json.defaulted members "quiet" false Json.asBool?
    onTrue := ← Json.defaulted members "true" .plain Branch.ofJson?
    onFalse := ← Json.defaulted members "false" .plain Branch.ofJson? }

def Node.toJson (node : Node) : Json :=
  .obj [("name", .str node.name), ("test", .str node.test),
    ("sans", .str node.studentAnswer), ("tans", .str node.teacherAnswer),
    ("options", .str node.options), ("quiet", .bool node.quiet),
    ("true", node.onTrue.toJson), ("false", node.onFalse.toJson)]

def ofJson? (value : Json) : Option ResponseTree := do
  let members ← value.asMembers?
  return {
    name := ← Json.required members "name" Json.asText?
    value := ← Json.defaulted members "value" 1.0 Json.asDouble?
    scoreMode :=
      ← Json.defaulted members "scoremode" .first
        (Json.asCaseOf? ScoreMode.table)
    feedbackVariables :=
      ← Json.defaulted members "feedback_variables" "" Json.asText?
    root := ← Json.required members "root" Json.asText?
    nodes := ← Json.required members "nodes" (Json.asList? Node.ofJson?) }

/-- A tree as a document, its weight written by `number`. -/
def toJson (number : Float → Json) (tree : ResponseTree) : Json :=
  .obj [("name", .str tree.name), ("value", number tree.value),
    ("scoremode", .str tree.scoreMode.text),
    ("feedback_variables", .str tree.feedbackVariables),
    ("root", .str tree.root), ("nodes", .arr (tree.nodes.map Node.toJson))]

end ResponseTree

end SceneQuiz
