import SceneQuiz.Expr.Printer
import SceneQuiz.Template.Block
import SceneQuiz.Template.Document
/-!
Blocks as JSON documents, for looking at them; expressions are printed.
-/

namespace SceneQuiz

/-- Names with their printed expressions. -/
def Block.pairsToJson (pairs : List (String × Expr)) : Json :=
  .arr (pairs.map fun pair => .arr [.str pair.1, .str pair.2.print])

def Injection.toJson (injection : Injection) : List (String × Json) :=
  [("b", .str "inject"), ("mode", .str injection.mode.text),
    ("expr", .str injection.expr.print),
    ("key", Json.ofOption Json.str injection.key),
    ("simp", Json.ofOption Json.bool injection.simp),
    ("math", .bool injection.mathMode)]

/-- What is said of every block, after what depends on its kind. -/
def Block.document (block : Block) (content : List (String × Json)) : Json :=
  .obj (content ++ [("flat", .bool block.isFlat),
    ("children", .nat block.children.length)])

mutual

def Block.toJson (block : Block) : Json :=
  match block with
  | .container items =>
      Block.document (.container items)
        [("b", .str "container"), ("items", .arr (Block.listToJson items))]
  | .text content =>
      Block.document (.text content)
        [("b", .str "text"), ("text", .str content)]
  | .inject injection => Block.document (.inject injection) injection.toJson
  | .define pairs =>
      Block.document (.define pairs)
        [("b", .str "define"), ("pairs", Block.pairsToJson pairs)]
  | .cond branches otherwise =>
      Block.document (.cond branches otherwise)
        [("b", .str "if"), ("branches", .arr (Block.branchesToJson branches)),
          ("else", match otherwise with
            | some body => body.toJson
            | none => .null)]
  | .foreach iterators body =>
      Block.document (.foreach iterators body)
        [("b", .str "foreach"), ("pairs", Block.pairsToJson iterators),
          ("body", body.toJson)]
  | .indexing style start body =>
      Block.document (.indexing style start body)
        [("b", .str "indexing"), ("style", .str style.pattern),
          ("start", .str start.print), ("body", body.toJson)]
  | .index => Block.document .index [("b", .str "index")]
  | .reveal input value body =>
      Block.document (.reveal input value body)
        [("b", .str "reveal"), ("input", .str input),
          ("value", .str value.print), ("body", body.toJson)]
  | .lang codes body =>
      Block.document (.lang codes body)
        [("b", .str "lang"), ("codes", Json.texts codes),
          ("body", body.toJson)]
termination_by structural block

def Block.listToJson (blocks : List Block) : List Json :=
  match blocks with
  | [] => []
  | block :: rest => block.toJson :: Block.listToJson rest
termination_by structural blocks

def Block.branchesToJson (branches : List (Expr × Block)) : List Json :=
  match branches with
  | [] => []
  | (test, body) :: rest =>
      .arr [.str test.print, body.toJson] :: Block.branchesToJson rest
termination_by structural branches

end

end SceneQuiz
