import SceneQuiz.Expr.Basic
/-!
The printed form of expressions.  Parentheses stand only where binding
strength needs them, and nothing is reordered, so equal trees have equal text.
-/

namespace SceneQuiz

namespace Expr

/-- How tightly the outermost construct binds. -/
def binding : Expr → Nat
  | .binary op _ _ => op.binding
  | .neg _ => Binding.neg
  | .not _ => Binding.not
  | .quote _ => Binding.quote
  | .factorial _ => Binding.suffix
  | .cond _ _ | .forIn _ _ _ | .forRange _ _ _ _ _ => Binding.control
  | _ => Binding.atom

def isNegation : Expr → Bool
  | .neg _ => true
  | _ => false

/-- A text between parentheses. -/
def parenthesized (text : String) : String := "(" ++ text ++ ")"

/-- The text of an expression, between parentheses if it binds less tightly
than `least`. -/
def wrap (e : Expr) (least : Nat) (text : String) : String :=
  if e.binding < least then parenthesized text else text

/-- A string literal: the quote and the backslash are escaped. -/
def stringLiteral (text : String) : String :=
  "\"" ++ String.join (text.toList.map fun c =>
    if c = '"' then "\\\"" else if c = '\\' then "\\\\" else c.toString) ++ "\""

/-- The least binding strength of each operand that needs no parentheses. -/
def operandBindings (op : BinOp) : Nat × Nat :=
  let own := op.binding
  if op.isRelational then (own + 1, own + 1)
  else if op.isRightAssociative then (own + 1, own)
  else (own, own + 1)

end Expr

mutual

/-- The text of an expression without parentheses around it. -/
def Expr.printBare (e : Expr) : String :=
  match e with
  | .number text => text
  | .str text => Expr.stringLiteral text
  | .bool true => "true"
  | .bool false => "false"
  | .ident name => name
  | .call name args => name ++ "(" ++ Expr.printItems args ++ ")"
  | .index target indices =>
      target.wrap Binding.suffix target.printBare ++ "[" ++ Expr.printItems indices ++ "]"
  | .list items => "[" ++ Expr.printItems items ++ "]"
  | .set items => "\x7b" ++ Expr.printItems items ++ "\x7d"
  | .group items => "(" ++ Expr.printItems items ++ ")"
  | .neg operand =>
      "-" ++ (if operand.isNegation then Expr.parenthesized operand.printBare
        else operand.wrap Binding.neg operand.printBare)
  | .not operand => "not " ++ operand.wrap Binding.not operand.printBare
  | .quote operand => "'" ++ operand.wrap Binding.quote operand.printBare
  | .factorial operand => operand.wrap Binding.suffix operand.printBare ++ "!"
  | .binary op left right =>
      left.wrap (Expr.operandBindings op).1 left.printBare ++ op.spaced ++
        (if right.isNegation then Expr.parenthesized right.printBare
          else right.wrap (Expr.operandBindings op).2 right.printBare)
  | .cond branches otherwise =>
      Expr.printBranches "if " branches ++
        (match otherwise with
          | some body => " else " ++ body.printBare
          | none => "")
  | .forIn var source body =>
      "for " ++ var ++ " in " ++ source.wrap (Binding.control + 1) source.printBare ++
        " do " ++ body.printBare
  | .forRange var first step last body =>
      "for " ++ var ++ ":" ++ first.wrap (Binding.control + 1) first.printBare ++
        (match step with
          | some step => " step " ++ step.wrap (Binding.control + 1) step.printBare
          | none => "") ++
        " thru " ++ last.wrap (Binding.control + 1) last.printBare ++
        " do " ++ body.printBare
termination_by structural e

/-- Expressions joined by commas. -/
def Expr.printItems (items : List Expr) : String :=
  match items with
  | [] => ""
  | e :: rest => e.printBare ++ Expr.printTail rest
termination_by structural items

/-- Expressions with a comma before each. -/
def Expr.printTail (items : List Expr) : String :=
  match items with
  | [] => ""
  | e :: rest => ", " ++ e.printBare ++ Expr.printTail rest
termination_by structural items

/-- Branches of a conditional, the first one after `lead`. -/
def Expr.printBranches (lead : String) (branches : List (Expr × Expr)) :
    String :=
  match branches with
  | [] => ""
  | (test, body) :: rest =>
      lead ++ test.wrap (Binding.control + 1) test.printBare ++ " then " ++
        body.wrap (Binding.control + 1) body.printBare ++ Expr.printBranches " elseif " rest
termination_by structural branches

end

/-- The text of an expression where something that binds less tightly than
`least` needs parentheses. -/
def Expr.printAt (e : Expr) (least : Nat) : String := e.wrap least e.printBare

/-- The text of an expression. -/
def Expr.print (e : Expr) : String := e.printAt 0

/-- The text of a flag; its value binds more tightly than a comparison. -/
def Flag.print (flag : Flag) : String :=
  flag.name ++
    (match flag.value with
      | some value => "=" ++ value.printAt (Binding.relational + 1)
      | none => "")

/-- The text of a statement with its flags. -/
def Statement.print (statement : Statement) : String :=
  statement.expr.print ++
    String.join (statement.flags.map fun flag => ", " ++ flag.print)

/-- Statements on lines of their own. -/
def Fragment.print (fragment : Fragment) : String :=
  String.intercalate ";\n" (fragment.map Statement.print)

end SceneQuiz
