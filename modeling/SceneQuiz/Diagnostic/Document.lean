import SceneQuiz.Json.Basic
import SceneQuiz.Locator
import SceneQuiz.Source
/-!
Diagnostics and the documents that report them: what is wrong, where in the
question, and where in the code of that place.  A log keeps the first twenty
errors and counts the rest, so an author is not buried, while warnings are all
kept.
-/

namespace SceneQuiz

inductive Severity where
  | error
  | warning
deriving DecidableEq, Repr

/-- The part of the compiler a diagnostic belongs to. -/
inductive Category where
  | code
  | template
  | answerTest
  | graph
  | scope
  | structural
deriving DecidableEq, Repr

/-- A stable diagnostic number.  The hundreds give the category. -/
structure Code where
  number : Nat
deriving DecidableEq, Repr

namespace Code

def unexpectedToken : Code := ⟨100⟩
def unterminatedString : Code := ⟨101⟩
def unclosedDelimiter : Code := ⟨102⟩
def invalidCharacter : Code := ⟨103⟩
def unterminatedComment : Code := ⟨104⟩
def chainedComparison : Code := ⟨106⟩
def misplacedFlag : Code := ⟨107⟩
def emptyExpression : Code := ⟨108⟩

def unknownBlock : Code := ⟨200⟩
def missingParameter : Code := ⟨201⟩
def invalidParameter : Code := ⟨202⟩
def misplacedElse : Code := ⟨203⟩
def indexOutsideIndexing : Code := ⟨204⟩
def invalidIndexStyle : Code := ⟨205⟩
def unknownRevealInput : Code := ⟨206⟩
def invalidFlag : Code := ⟨207⟩
def multipleStatements : Code := ⟨208⟩
def noTemplateReader : Code := ⟨209⟩
def inlineTemplateFailed : Code := ⟨210⟩

def unknownAnswerTest : Code := ⟨300⟩
def invalidTestOptions : Code := ⟨301⟩
def missingTeacherAnswer : Code := ⟨302⟩
def directInputRequired : Code := ⟨303⟩

def missingRoot : Code := ⟨400⟩
def cyclicGraph : Code := ⟨401⟩
def unknownExitTarget : Code := ⟨402⟩
def unknownSceneTarget : Code := ⟨403⟩
def orphanNode : Code := ⟨404⟩
def transitionOnPlainExit : Code := ⟨405⟩

def prematureStateReference : Code := ⟨500⟩
def crossLayerOverwrite : Code := ⟨501⟩
def inputOverwrite : Code := ⟨502⟩
def forbiddenInputName : Code := ⟨503⟩

def duplicateName : Code := ⟨600⟩
def emptyName : Code := ⟨601⟩
def invalidName : Code := ⟨602⟩
def unknownEntryScene : Code := ⟨603⟩
def duplicateStorage : Code := ⟨604⟩
def limitExceeded : Code := ⟨605⟩
def unknownBoxInput : Code := ⟨606⟩
def invalidDocument : Code := ⟨607⟩

/-- The category of a number; numbers outside every range are structural. -/
def category (code : Code) : Category :=
  match code.number / 100 with
  | 1 => .code
  | 2 => .template
  | 3 => .answerTest
  | 4 => .graph
  | 5 => .scope
  | _ => .structural

def text (code : Code) : String := "E" ++ toString code.number

end Code

namespace Severity

def text : Severity → String
  | .error => "error"
  | .warning => "warning"

end Severity

namespace Category

def text : Category → String
  | .code => "syntax"
  | .template => "castext"
  | .answerTest => "answertest"
  | .graph => "graph"
  | .scope => "scope"
  | .structural => "structure"

end Category

/-- A structured message about one place of a question. -/
structure Diagnostic where
  path : Locator
  code : Code
  severity : Severity
  message : String
  /-- The place inside the offending code, when known. -/
  span : Option Span
  /-- The line of code the span starts on. -/
  sourceLine : Option String
  suggestion : Option String
deriving DecidableEq, Repr

namespace Diagnostic

/-- An error about the question as a whole. -/
def error (code : Code) (message : String) : Diagnostic where
  path := []
  code := code
  severity := .error
  message := message
  span := none
  sourceLine := none
  suggestion := none

/-- A warning about the question as a whole. -/
def warning (code : Code) (message : String) : Diagnostic :=
  { error code message with severity := .warning }

def category (diagnostic : Diagnostic) : Category := diagnostic.code.category

/-- Point at a place inside the code `source`. -/
def withSpan (diagnostic : Diagnostic) (span : Span) (source : String) :
    Diagnostic :=
  { diagnostic with
    span := some span
    sourceLine := some ((Source.line? source span.line).getD "") }

/-- Move the diagnostic below a locator. -/
def under (diagnostic : Diagnostic) (path : Locator) : Diagnostic :=
  { diagnostic with path := path ++ diagnostic.path }

/-- One line for people: place, number, category and message. -/
def text (diagnostic : Diagnostic) : String :=
  diagnostic.path.text ++
    (match diagnostic.span with
      | some span => "@" ++ span.text
      | none => "") ++
    ": " ++ diagnostic.code.text ++ " [" ++ diagnostic.category.text ++ "] " ++
    diagnostic.message

end Diagnostic

/-- Diagnostics collected by a compilation. -/
structure Log where
  errors : List Diagnostic
  warnings : List Diagnostic
  totalErrors : Nat
  totalWarnings : Nat
deriving DecidableEq, Repr

namespace Log

/-- How many errors a log stores. -/
def errorLimit : Nat := 20

/-- The log in which nothing has been reported. -/
def empty : Log := ⟨[], [], 0, 0⟩

instance : Inhabited Log := ⟨empty⟩

def hasErrors (log : Log) : Bool := 0 < log.totalErrors

/-- Report an error; past the limit it is only counted. -/
def pushError (log : Log) (diagnostic : Diagnostic) : Log :=
  { log with
    errors :=
      if log.errors.length < errorLimit then log.errors ++ [diagnostic]
      else log.errors
    totalErrors := log.totalErrors + 1 }

def pushWarning (log : Log) (diagnostic : Diagnostic) : Log :=
  { log with
    warnings := log.warnings ++ [diagnostic]
    totalWarnings := log.totalWarnings + 1 }

/-- Report by severity. -/
def push (log : Log) (diagnostic : Diagnostic) : Log :=
  match diagnostic.severity with
  | .error => log.pushError diagnostic
  | .warning => log.pushWarning diagnostic

/-- A log of errors in order. -/
def ofErrors (diagnostics : List Diagnostic) : Log :=
  diagnostics.foldl pushError empty

/-- Take over everything another log holds, moved below a locator.  Errors the
other log only counted stay counted. -/
def absorb (log other : Log) (path : Locator) : Log :=
  let dropped := other.totalErrors - other.errors.length
  let withErrors :=
    other.errors.foldl (fun log error => log.pushError (error.under path)) log
  other.warnings.foldl (fun log warning => log.pushWarning (warning.under path))
    { withErrors with totalErrors := withErrors.totalErrors + dropped }

/-- A stored error lies at or below a locator. -/
def hasErrorsUnder (log : Log) (path : Locator) : Bool :=
  log.errors.any fun error => error.path.isUnder path

end Log

def Span.toJson (span : Span) : Json :=
  .obj [("line", .nat span.line), ("column", .nat span.column),
    ("end_line", .nat span.endLine), ("end_column", .nat span.endColumn)]

/-- A diagnostic; what it does not know is left out. -/
def Diagnostic.toJson (diagnostic : Diagnostic) : Json :=
  .obj ([("path", .str diagnostic.path.text),
      ("code", .nat diagnostic.code.number),
      ("severity", .str diagnostic.severity.text),
      ("category", .str diagnostic.category.text),
      ("message", .str diagnostic.message)] ++
    Json.optional "span" Span.toJson diagnostic.span ++
    Json.optional "source_line" Json.str diagnostic.sourceLine ++
    Json.optional "suggestion" Json.str diagnostic.suggestion)

def Log.toJson (log : Log) : Json :=
  .obj [("errors", .arr (log.errors.map Diagnostic.toJson)),
    ("warnings", .arr (log.warnings.map Diagnostic.toJson)),
    ("total_errors", .nat log.totalErrors),
    ("total_warnings", .nat log.totalWarnings)]

end SceneQuiz
