import SceneQuiz.Json.Decode
import SceneQuiz.Parse.Cursor
/-!
Expressions as JSON documents: one object for each node, which names its kind
in `k`.  An expression that was read from text also says in `at` where each
node stands.
-/

namespace SceneQuiz

/-- A span from its start to its end. -/
def Span.rangeText (span : Span) : String :=
  toString span.line ++ ":" ++ toString span.column ++ "-" ++
    toString span.endLine ++ ":" ++ toString span.endColumn

/-- The document of a node. -/
def SpanTree.document (marks : Option SpanTree) (kind : String)
    (content : List (String × Json)) : Json :=
  .obj (("k", .str kind) :: content ++
    Json.optional "at" (fun tree : SpanTree => .str tree.span.rangeText) marks)

mutual

/-- The document of an expression with the spans that are known of it. -/
def Expr.toJson (e : Expr) (marks : Option SpanTree) : Json :=
  let parts := (marks.map SpanTree.parts).getD []
  match e with
  | .number text => SpanTree.document marks "num" [("v", .str text)]
  | .str text => SpanTree.document marks "str" [("v", .str text)]
  | .bool value => SpanTree.document marks "bool" [("v", .bool value)]
  | .ident name => SpanTree.document marks "id" [("v", .str name)]
  | .call name args =>
      SpanTree.document marks "call"
        [("name", .str name), ("items", .arr (Expr.listToJson args parts))]
  | .index target indices =>
      SpanTree.document marks "index"
        [("x", target.toJson parts[0]?),
          ("items", .arr (Expr.listToJson indices parts.tail))]
  | .list items =>
      SpanTree.document marks "list"
        [("items", .arr (Expr.listToJson items parts))]
  | .set items =>
      SpanTree.document marks "set"
        [("items", .arr (Expr.listToJson items parts))]
  | .group items =>
      SpanTree.document marks "group"
        [("items", .arr (Expr.listToJson items parts))]
  | .neg operand =>
      SpanTree.document marks "neg" [("x", operand.toJson parts[0]?)]
  | .not operand =>
      SpanTree.document marks "not" [("x", operand.toJson parts[0]?)]
  | .quote operand =>
      SpanTree.document marks "quote" [("x", operand.toJson parts[0]?)]
  | .factorial operand =>
      SpanTree.document marks "fact" [("x", operand.toJson parts[0]?)]
  | .binary op left right =>
      SpanTree.document marks "bin"
        [("op", .str op.symbol), ("l", left.toJson parts[0]?),
          ("r", right.toJson parts[1]?)]
  | .cond branches otherwise =>
      SpanTree.document marks "if"
        [("branches", .arr (Expr.branchesToJson branches parts)),
          ("else", match otherwise with
            | some body => body.toJson parts[2 * branches.length]?
            | none => .null)]
  | .forIn var source body =>
      SpanTree.document marks "forin"
        [("var", .str var), ("in", source.toJson parts[0]?),
          ("body", body.toJson parts[1]?)]
  | .forRange var first step last body =>
      let shift := if step.isSome then 1 else 0
      SpanTree.document marks "forrange"
        [("var", .str var), ("from", first.toJson parts[0]?),
          ("step", match step with
            | some step => step.toJson parts[1]?
            | none => .null),
          ("thru", last.toJson parts[1 + shift]?),
          ("body", body.toJson parts[2 + shift]?)]
termination_by structural e

/-- The documents of several expressions. -/
def Expr.listToJson (items : List Expr) (parts : List SpanTree) : List Json :=
  match items with
  | [] => []
  | e :: rest => e.toJson parts.head? :: Expr.listToJson rest parts.tail
termination_by structural items

/-- The documents of the branches of a conditional. -/
def Expr.branchesToJson (branches : List (Expr × Expr))
    (parts : List SpanTree) : List Json :=
  match branches with
  | [] => []
  | (test, body) :: rest =>
      .arr [test.toJson parts[0]?, body.toJson parts[1]?] ::
        Expr.branchesToJson rest (parts.drop 2)
termination_by structural branches

end

/-- The document of an expression that was read from text. -/
def Marked.toJson (marked : Marked) : Json := marked.expr.toJson marked.marks

/-- All infix operators. -/
def BinOp.all : List BinOp :=
  [.assign, .define, .or, .and, .eq, .notEq, .less, .greater, .lessEq,
    .greaterEq, .add, .sub, .mul, .div, .dot, .pow]

/-- The operator of a symbol. -/
def BinOp.ofSymbol? (symbol : String) : Option BinOp :=
  all.find? fun op => op.symbol == symbol

/-- Read the document of an expression that nests less than `fuel` deep. -/
def Expr.ofJsonWithin : Nat → Json → Option Expr
  | 0, _ => none
  | fuel + 1, value => do
      let members ← value.asMembers?
      let read := Expr.ofJsonWithin fuel
      let text (name : String) := Json.required members name Json.asText?
      let part (name : String) := Json.required members name read
      let items := Json.required members "items" (Json.asList? read)
      match ← text "k" with
      | "num" => return .number (← text "v")
      | "str" => return .str (← text "v")
      | "bool" => return .bool (← Json.required members "v" Json.asBool?)
      | "id" => return .ident (← text "v")
      | "call" => return .call (← text "name") (← items)
      | "index" => return .index (← part "x") (← items)
      | "list" => return .list (← items)
      | "set" => return .set (← items)
      | "group" => return .group (← items)
      | "neg" => return .neg (← part "x")
      | "not" => return .not (← part "x")
      | "quote" => return .quote (← part "x")
      | "fact" => return .factorial (← part "x")
      | "bin" =>
          return .binary (← BinOp.ofSymbol? (← text "op")) (← part "l")
            (← part "r")
      | "if" =>
          let branch (value : Json) : Option (Expr × Expr) := do
            match ← value.asItems? with
            | [test, body] => return (← read test, ← read body)
            | _ => none
          return .cond (← Json.required members "branches" (Json.asList? branch))
            (← Json.nullable members "else" read)
      | "forin" => return .forIn (← text "var") (← part "in") (← part "body")
      | "forrange" =>
          return .forRange (← text "var") (← part "from")
            (← Json.nullable members "step" read) (← part "thru") (← part "body")
      | _ => none

/-- Read the document of an expression. -/
def Expr.ofJson? (value : Json) : Option Expr :=
  Expr.ofJsonWithin value.height value

end SceneQuiz
