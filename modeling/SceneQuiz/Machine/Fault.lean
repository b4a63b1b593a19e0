import SceneQuiz.Machine.Value
/-!
How evaluation can end without a value: the causes, and their wording.
-/

namespace SceneQuiz

/-- An operation that met values of the wrong kind. -/
inductive Mismatch where
  /-- A condition that is neither true nor false. -/
  | condition (found : Kind)
  /-- A loop over something that has no members. -/
  | iteration (found : Kind)
  | argument (function : String) (found : Kind)
  | arguments (function : String) (found : List Kind)
  | indexing (target index : Kind)
  | negation (found : Kind)
  | factorial (found : Kind)
  | operands (op : BinOp) (left right : Kind)
deriving DecidableEq, Repr

def Mismatch.text : Mismatch → String
  | .condition found => "condition evaluated to " ++ found.name
  | .iteration found => "for ... in over " ++ found.name
  | .argument function found => function ++ " of " ++ found.name
  | .arguments function found =>
      function ++ "(" ++ ", ".intercalate (found.map Kind.name) ++ ")"
  | .indexing target index => target.name ++ "[" ++ index.name ++ "]"
  | .negation found => "-" ++ found.name
  | .factorial found => found.name ++ "!"
  | .operands op left right =>
      left.name ++ " " ++ op.symbol ++ " " ++ right.name

/-- Code that reads well and has no evaluation. -/
inductive Unsupported where
  | assignment (target : Expr)
  | definition (target : Expr)
  | parameter (found : Expr)
  | blockLocal (found : Expr)
  | loopRange (first step last : Kind)
  | operator (op : BinOp)
deriving Repr

def Unsupported.text : Unsupported → String
  | .assignment target => "assignment to '" ++ target.print ++ "'"
  | .definition target => "definition of '" ++ target.print ++ "'"
  | .parameter found => "parameter '" ++ found.print ++ "'"
  | .blockLocal found => "block local '" ++ found.print ++ "'"
  | .loopRange first step last =>
      "loop range over " ++ first.name ++ ", " ++ step.name ++ ", " ++
        last.name
  | .operator op => "operator '" ++ op.symbol ++ "'"

/-- The number of arguments a function takes. -/
inductive Arity where
  | exactly (count : Nat)
  | atLeastOne
  | atMostOne
deriving DecidableEq, Repr

def Arity.text : Arity → String
  | .exactly count => toString count
  | .atLeastOne => "at least 1"
  | .atMostOne => "0 or 1"

/-- Why evaluation stopped without a value. -/
inductive EvalError where
  /-- The code itself raised an error. -/
  | raised (text : String)
  | mismatch (cause : Mismatch)
  | overflow
  | divisionByZero
  | indexOutOfRange (index : Int) (length : Nat)
  | unknownFunction (name : String)
  | arity (function : String) (expected : Arity) (found : Nat)
  | unsupported (cause : Unsupported)
  | unreadable (fault : CodeFault)
  | invalidNumber (text : String)
  /-- The step budget is used up. -/
  | gasExhausted
  /-- A `return`, on its way to the block around it. -/
  | returned (value : Value)
deriving Repr

namespace EvalError

/-- Errors that `errcatch` traps: all but a `return` and the end of the step
budget. -/
def isCatchable : EvalError → Bool
  | .returned _ | .gasExhausted => false
  | _ => true

def message : EvalError → String
  | .raised text => "error: " ++ text
  | .mismatch cause => "type mismatch: " ++ cause.text
  | .overflow => "arithmetic: integer overflow"
  | .divisionByZero => "arithmetic: division by zero"
  | .indexOutOfRange index length =>
      "index " ++ toString index ++ " out of range for length " ++
        toString length
  | .unknownFunction name => "unknown function: " ++ name
  | .arity function expected found =>
      function ++ " expects " ++ expected.text ++ " arguments, got " ++
        toString found
  | .unsupported cause => "unsupported: " ++ cause.text
  | .unreadable fault => "parse error: " ++ fault.message
  | .invalidNumber text => "parse error: invalid number '" ++ text ++ "'"
  | .gasExhausted => "gas exhausted"
  | .returned _ => "return outside block"

end EvalError

end SceneQuiz
