import SceneQuiz.Diagnostic.Document
import SceneQuiz.Token.Basic
/-!
What can be wrong with code as text: faults of single tokens and faults of
their arrangement, each with its number and wording.
-/

namespace SceneQuiz

/-- The deepest nesting of expressions that is read. -/
def nestingLimit : Nat := 256

/-- A fault of code as text. -/
inductive CodeFault where
  | unterminatedString
  | unterminatedComment
  | invalidCharacter (c : Char)
  | expected (wanted found : Lexeme)
  | expectedName (found : Lexeme)
  | expectedOperand (found : Lexeme)
  | expectedExpression
  | expectedEndOfStatement (found : Lexeme)
  | expectedEndOfExpression (found : Lexeme)
  | expectedSeparator (close found : Lexeme)
  | unclosed (close : Lexeme)
  | chainedComparison
  | emptyIndex
  | emptyParentheses
  | misplacedFlag
  | nestedTooDeep
deriving DecidableEq, Repr

namespace CodeFault

def code : CodeFault → Code
  | .unterminatedString => Code.unterminatedString
  | .unterminatedComment => Code.unterminatedComment
  | .invalidCharacter _ => Code.invalidCharacter
  | .expected _ _ | .expectedName _ | .expectedOperand _
  | .expectedEndOfStatement _ | .expectedEndOfExpression _
  | .expectedSeparator _ _ => Code.unexpectedToken
  | .expectedExpression | .emptyIndex | .emptyParentheses =>
      Code.emptyExpression
  | .unclosed _ => Code.unclosedDelimiter
  | .chainedComparison => Code.chainedComparison
  | .misplacedFlag => Code.misplacedFlag
  | .nestedTooDeep => Code.limitExceeded

def message : CodeFault → String
  | .unterminatedString => "Unterminated string literal"
  | .unterminatedComment => "Unterminated comment"
  | .invalidCharacter c => "Unexpected character '" ++ c.toString ++ "'"
  | .expected wanted found =>
      "expected '" ++ wanted.text ++ "', got '" ++ found.text ++ "'"
  | .expectedName found => "expected identifier, got '" ++ found.text ++ "'"
  | .expectedOperand found => "expected expression, got '" ++ found.text ++ "'"
  | .expectedExpression => "expected an expression"
  | .expectedEndOfStatement found =>
      "expected ';' or end of statement, got '" ++ found.text ++ "'"
  | .expectedEndOfExpression found =>
      "expected end of expression, got '" ++ found.text ++ "'"
  | .expectedSeparator close found =>
      "expected ',' or '" ++ close.text ++ "', got '" ++ found.text ++ "'"
  | .unclosed close => "expected '" ++ close.text ++ "' before end of input"
  | .chainedComparison => "comparison operators cannot be chained"
  | .emptyIndex => "index needs at least one expression"
  | .emptyParentheses => "empty parentheses"
  | .misplacedFlag => "evaluation flags are only allowed on statements"
  | .nestedTooDeep =>
      "maximum expression nesting depth is " ++ toString nestingLimit

end CodeFault

/-- A fault and the span it is reported at. -/
structure CodeIssue where
  fault : CodeFault
  span : Span
deriving DecidableEq, Repr

/-- The diagnostic of an issue found in `source`. -/
def CodeIssue.diagnostic (issue : CodeIssue) (source : String) : Diagnostic :=
  (Diagnostic.error issue.fault.code issue.fault.message).withSpan issue.span
    source

/-- The log of issues found in `source`, in order. -/
def CodeIssue.log (issues : List CodeIssue) (source : String) : Log :=
  Log.ofErrors (issues.map fun issue => issue.diagnostic source)

end SceneQuiz
