import SceneQuiz.Machine.Step
/-!
Running code from text, statement by statement.
-/

namespace SceneQuiz

/-- Evaluate a statement.  Its `simp` flag holds while it is evaluated. -/
def Statement.eval (statement : Statement) : Eval Value :=
  match statement.flag? "simp" with
  | none => statement.expr.eval
  | some flag => do
      let value ← match flag.value with
        | some value => value.eval
        | none => pure (.bool true)
      Eval.withSimp value statement.expr.eval

/-- Evaluate statements; the value of the last one, `last` if there is none. -/
def Fragment.evalFrom (last : Value) : Fragment → Eval Value
  | [] => pure last
  | statement :: rest => do
      let value ← statement.eval
      Fragment.evalFrom value rest

/-- Evaluate statements. -/
def Fragment.eval (fragment : Fragment) : Eval Value :=
  Fragment.evalFrom (.bool false) fragment

namespace Eval

/-- The fault that is reported of a text that cannot be read. -/
def firstFault (issues : List CodeIssue) : EvalError :=
  .unreadable ((issues.head?.map CodeIssue.fault).getD .expectedExpression)

/-- Run a text of statements. -/
def runText (source : String) : Eval Value :=
  match Fragment.parse source with
  | .ok fragment => fragment.eval
  | .error issues => throw (firstFault issues)

/-- Evaluate a text of one expression. -/
def evaluateText (source : String) : Eval Value :=
  match Expr.parse source with
  | .ok e => e.eval
  | .error issues => throw (firstFault issues)

/-- Call a function by name. -/
def invoke (name : String) (args : List Value) : Eval Value := fun machine =>
  apply (Expr.evalWithin machine.remaining) name args machine

end Eval

end SceneQuiz
