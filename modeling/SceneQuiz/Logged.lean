import SceneQuiz.Parse.Fragment
import SceneQuiz.Text.Basic
/-!
Work that reports diagnostics as it goes, and the reading of code that is part
of a question: what is wrong with the code is reported where the code stands.
-/

namespace SceneQuiz

/-- A result, and the log it extends. -/
abbrev Logged := StateM Log

namespace Logged

/-- Report an error. -/
def error (diagnostic : Diagnostic) : Logged Unit :=
  modify fun log => log.pushError diagnostic

/-- Report a warning. -/
def warning (diagnostic : Diagnostic) : Logged Unit :=
  modify fun log => log.pushWarning diagnostic

/-- Report errors in order. -/
def errors (diagnostics : List Diagnostic) : Logged Unit :=
  modify fun log => diagnostics.foldl Log.pushError log

/-- Take over a log, moved below a locator. -/
def absorb (other : Log) (path : Locator) : Logged Unit :=
  modify fun log => log.absorb other path

/-- Read statements; without success there are none. -/
def fragment? (source : String) (path : Locator) : Logged (Option Fragment) :=
  match Fragment.parse source with
  | .ok fragment => pure (some fragment)
  | .error issues => do
      absorb (CodeIssue.log issues source) path
      return none

/-- Read an expression. -/
def expr? (source : String) (path : Locator) : Logged (Option Expr) :=
  match Expr.parse source with
  | .ok e => pure (some e)
  | .error issues => do
      absorb (CodeIssue.log issues source) path
      return none

/-- Read an expression unless there is none. -/
def optionalExpr? (source : String) (path : Locator) : Logged (Option Expr) :=
  if Text.isBlankText source then pure none else expr? source path

end Logged

end SceneQuiz
