import SceneQuiz.Decimal.Notation
/-!
Expressions of the algebra language: the code that authors write and that
compilation produces.  The tree carries no source positions, so code from both
origins compares by structure alone.
-/

namespace SceneQuiz

/-- Infix operators. -/
inductive BinOp where
  | assign
  | define
  | or
  | and
  | eq
  | notEq
  | less
  | greater
  | lessEq
  | greaterEq
  | add
  | sub
  | mul
  | div
  | dot
  | pow
deriving DecidableEq, Repr

/-- An expression. -/
inductive Expr where
  /-- A numeric literal, as written. -/
  | number (text : String)
  | str (text : String)
  | bool (value : Bool)
  | ident (name : String)
  /-- `f(a, b)` -/
  | call (name : String) (args : List Expr)
  /-- `a[i, j]` -/
  | index (target : Expr) (indices : List Expr)
  | list (items : List Expr)
  | set (items : List Expr)
  /-- `(a, b)`: evaluates in order, with the value of the last. -/
  | group (items : List Expr)
  | neg (operand : Expr)
  | not (operand : Expr)
  /-- `'x` stands for the text of `x`, unevaluated. -/
  | quote (operand : Expr)
  | factorial (operand : Expr)
  | binary (op : BinOp) (left right : Expr)
  /-- `if c then a elseif d then b else e` -/
  | cond (branches : List (Expr × Expr)) (otherwise : Option Expr)
  /-- `for v in l do a` -/
  | forIn (var : String) (source body : Expr)
  /-- `for v: a step s thru b do c` -/
  | forRange (var : String) (first : Expr) (step : Option Expr)
      (last body : Expr)
deriving BEq, Repr, Inhabited

namespace Binding

/-- Constructs that bind more tightly have a larger number. -/
def control : Nat := 5
def assignment : Nat := 10
def or : Nat := 20
def and : Nat := 30
def not : Nat := 35
def relational : Nat := 40
def additive : Nat := 50
def multiplicative : Nat := 60
def neg : Nat := 65
def power : Nat := 70
def suffix : Nat := 80
def quote : Nat := 85
def atom : Nat := 100

end Binding

namespace BinOp

def binding : BinOp → Nat
  | .assign | .define => Binding.assignment
  | .or => Binding.or
  | .and => Binding.and
  | .eq | .notEq | .less | .greater | .lessEq | .greaterEq => Binding.relational
  | .add | .sub => Binding.additive
  | .mul | .div | .dot => Binding.multiplicative
  | .pow => Binding.power

def isRightAssociative : BinOp → Bool
  | .assign | .define | .pow => true
  | _ => false

def isRelational (op : BinOp) : Bool := op.binding == Binding.relational

/-- The operator without surrounding blanks. -/
def symbol : BinOp → String
  | .assign => ":"
  | .define => ":="
  | .or => "or"
  | .and => "and"
  | .eq => "="
  | .notEq => "#"
  | .less => "<"
  | .greater => ">"
  | .lessEq => "<="
  | .greaterEq => ">="
  | .add => "+"
  | .sub => "-"
  | .mul => "*"
  | .div => "/"
  | .dot => "."
  | .pow => "^"

/-- The operator as it is printed between its operands. -/
def spaced (op : BinOp) : String :=
  match op with
  | .define | .or | .and | .dot => " " ++ op.symbol ++ " "
  | _ => op.symbol

end BinOp

namespace Expr

/-- Direct subexpressions from left to right. -/
def children : Expr → List Expr
  | .number _ | .str _ | .bool _ | .ident _ => []
  | .call _ args => args
  | .index target indices => target :: indices
  | .list items | .set items | .group items => items
  | .neg operand | .not operand | .quote operand | .factorial operand =>
      [operand]
  | .binary _ left right => [left, right]
  | .cond branches otherwise =>
      branches.flatMap (fun branch => [branch.1, branch.2]) ++
        otherwise.toList
  | .forIn _ source body => [source, body]
  | .forRange _ first step last body =>
      first :: step.toList ++ [last, body]

/-- An integer literal; a negative one is a negated literal. -/
def int (n : Int) : Expr :=
  let literal := Expr.number (toString n.natAbs)
  if n < 0 then .neg literal else literal

/-- A literal for a double; a negative one is a negated literal. -/
def float (x : Float) : Expr :=
  let literal := Expr.number (Decimal.literalText x.abs)
  if x < 0.0 then .neg literal else literal

/-- `target: value` -/
def assign (target : String) (value : Expr) : Expr :=
  .binary .assign (.ident target) value

/-- `name() := body` -/
def defineFunction (name : String) (body : Expr) : Expr :=
  .binary .define (.call name []) body

/-- `if test then body`, with an optional `else`. -/
def ifThen (test body : Expr) (otherwise : Option Expr) : Expr :=
  .cond [(test, body)] otherwise

/-- `block([locals], body)` -/
def block (locals body : List Expr) : Expr :=
  .call "block" (.list locals :: body)

/-- A local that starts with the value its name has outside. -/
def keep (name : String) : Expr := assign name (.ident name)

/-- Join items from the left with an operator. -/
def fold (op : BinOp) : List Expr → Option Expr
  | [] => none
  | first :: rest => some (rest.foldl (Expr.binary op) first)

def asString? : Expr → Option String
  | .str text => some text
  | _ => none

def asIdent? : Expr → Option String
  | .ident name => some name
  | _ => none

/-- The value of a literal, possibly negated. -/
def asNumber? : Expr → Option Float
  | .number text => Decimal.readDouble? text
  | .neg operand => operand.asNumber?.map fun x => -x
  | _ => none

/-- The arguments, if this is a call of `name`. -/
def callArgs? (name : String) : Expr → Option (List Expr)
  | .call other args => if other = name then some args else none
  | _ => none

/-- A literal that needs no evaluation. -/
def isLiteral : Expr → Bool
  | .number _ | .str _ | .bool _ => true
  | _ => false

end Expr

/-- A flag after a statement: `simp` or `simp=false`. -/
structure Flag where
  name : String
  value : Option Expr
deriving BEq, Repr

/-- An expression with evaluation flags. -/
structure Statement where
  expr : Expr
  flags : List Flag
deriving BEq, Repr

/-- A sequence of statements. -/
abbrev Fragment := List Statement

/-- The first flag of a given name. -/
def Statement.flag? (statement : Statement) (name : String) : Option Flag :=
  statement.flags.find? fun flag => flag.name == name

end SceneQuiz
