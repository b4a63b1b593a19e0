import SceneQuiz.Json.Decode
import SceneQuiz.Template.Basic
/-!
Templates as JSON documents.
-/

namespace SceneQuiz

def Position.ofJson? (value : Json) : Option Position := do
  let members ← value.asMembers?
  return ⟨← Json.required members "start" Json.asCount?,
    ← Json.required members "end" Json.asCount?⟩

def Position.toJson (position : Position) : Json :=
  .obj [("start", .nat position.start), ("end", .nat position.stop)]

def Attribute.ofJson? (value : Json) : Option Attribute := do
  let members ← value.asMembers?
  return ⟨← Json.required members "name" Json.asText?,
    ← Json.required members "value" Json.asText?⟩

def Attribute.toJson (pair : Attribute) : Json :=
  .obj [("name", .str pair.name), ("value", .str pair.value)]

def InjectMode.text : InjectMode → String
  | .latex => "latex"
  | .value => "value"

def InjectMode.ofJson? (json : Json) : Option InjectMode :=
  match json.asInnerCase? with
  | some "latex" => some .latex
  | some "value" => some .value
  | _ => none

/-- Read an arm, given how to read a node. -/
def Branch.ofJson? (node : Json → Option Node) (value : Json) :
    Option (Branch Node) := do
  let members ← value.asMembers?
  return {
    condition := ← Json.nullable members "condition" Json.asText?
    children := ← Json.required members "children" (Json.asList? node)
    position := ← Json.required members "position" Position.ofJson? }

/-- The kinds of nodes, in their order. -/
def Node.kinds : List String :=
  ["root", "raw", "inject", "define", "if", "foreach", "comment", "escape",
    "named"]

/-- Read a node that nests less than `fuel` deep and may stand inside another. -/
def Node.ofJsonWithin : Nat → (inner : Bool) → Json → Option Node
  | 0, _, _ => none
  | fuel + 1, inner, value => do
      let members ← value.asMembers?
      let position ← Json.required members "position" Position.ofJson?
      let mathMode ← Json.defaulted members "math_mode" false Json.asBool?
      let site : Site := ⟨position, mathMode⟩
      let kind ← Json.required members "kind" Json.asSelfNamed?
      let nodes := Json.asList? (Node.ofJsonWithin fuel true)
      let attributes := Json.asList? Attribute.ofJson?
      match ← Json.required kind "type" (Json.asKind? Node.kinds inner) with
      | "root" => return .root site (← Json.required kind "children" nodes)
      | "raw" => return .raw site (← Json.required kind "text" Json.asText?)
      | "inject" =>
          return .inject site (← Json.required kind "mode" InjectMode.ofJson?)
            (← Json.required kind "expression" Json.asText?)
      | "define" =>
          return .define site (← Json.required kind "bindings" attributes)
      | "if" =>
          return .cond site (← Json.required kind "branches"
            (Json.asList? (Branch.ofJson? (Node.ofJsonWithin fuel true))))
      | "foreach" =>
          return .foreach site (← Json.required kind "iterators" attributes)
            (← Json.required kind "children" nodes)
      | "comment" =>
          return .comment site (← Json.required kind "text" Json.asText?)
      | "escape" =>
          return .escape site (← Json.required kind "value" Json.asText?)
      | "named" =>
          return .named site (← Json.required kind "name" Json.asText?)
            (← Json.defaulted kind "params" [] attributes)
            (← Json.defaulted kind "children" [] nodes)
      | _ => none

/-- Read a node; a document is deep enough for all its nodes. -/
def Node.ofJson? (value : Json) : Option Node :=
  Node.ofJsonWithin value.height false value

/-- A node as a document, given the part that depends on its kind. -/
def Site.toJson (site : Site) (kind : String)
    (content : List (String × Json)) : Json :=
  .obj [("kind", .obj (("type", .str kind) :: content)),
    ("position", site.position.toJson), ("math_mode", .bool site.mathMode)]

mutual

def Node.toJson (node : Node) : Json :=
  match node with
  | .root site children =>
      site.toJson "root" [("children", .arr (Node.listToJson children))]
  | .raw site text => site.toJson "raw" [("text", .str text)]
  | .inject site mode expression =>
      site.toJson "inject"
        [("mode", .str mode.text), ("expression", .str expression)]
  | .define site bindings =>
      site.toJson "define"
        [("bindings", .arr (bindings.map Attribute.toJson))]
  | .cond site branches =>
      site.toJson "if" [("branches", .arr (Node.branchesToJson branches))]
  | .foreach site iterators children =>
      site.toJson "foreach"
        [("iterators", .arr (iterators.map Attribute.toJson)),
          ("children", .arr (Node.listToJson children))]
  | .comment site text => site.toJson "comment" [("text", .str text)]
  | .escape site value => site.toJson "escape" [("value", .str value)]
  | .named site name params children =>
      site.toJson "named"
        [("name", .str name), ("params", .arr (params.map Attribute.toJson)),
          ("children", .arr (Node.listToJson children))]
termination_by structural node

def Node.listToJson (nodes : List Node) : List Json :=
  match nodes with
  | [] => []
  | node :: rest => node.toJson :: Node.listToJson rest
termination_by structural nodes

def Node.branchesToJson (branches : List (Branch Node)) : List Json :=
  match branches with
  | [] => []
  | ⟨condition, children, position⟩ :: rest =>
      .obj [("condition", Json.ofOption Json.str condition),
        ("children", .arr (Node.listToJson children)),
        ("position", position.toJson)] :: Node.branchesToJson rest
termination_by structural branches

end

def Template.ofJson? (value : Json) : Option Template := do
  let members ← value.asMembers?
  return ⟨← Json.required members "source" Json.asText?,
    ← Json.required members "root" Node.ofJson?⟩

def Template.toJson (template : Template) : Json :=
  .obj [("source", .str template.source), ("root", template.root.toJson)]

end SceneQuiz
