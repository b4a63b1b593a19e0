import SceneQuiz.Template.Basic
import SceneQuiz.Token.Fault
/-!
What can be wrong with a template, with numbers and wording, and results that
come together with the faults found on the way.
-/

namespace SceneQuiz

/-- What is wrong with a template. -/
inductive TemplateIssue where
  | unknownBlock (name : String)
  | missingParameter (block param : String)
  | unknownParameter (block param : String)
  | invalidVariable (block name : String)
  | misplacedElse
  | indexOutsideIndexing
  | invalidIndexStyle (style : String)
  | unknownRevealInput (input : String)
  | invalidFlag (flag : String)
  /-- An injection of no expression or of several. -/
  | statementCount (count : Nat)
  | expression (fault : CodeFault) (source : String)
  | noReader
  | inlineFailed (message : String)
  | inlineTooDeep (limit : Nat)
deriving DecidableEq, Repr

namespace TemplateIssue

def code : TemplateIssue → Code
  | .unknownBlock _ => Code.unknownBlock
  | .missingParameter _ _ => Code.missingParameter
  | .unknownParameter _ _ | .invalidVariable _ _ => Code.invalidParameter
  | .misplacedElse => Code.misplacedElse
  | .indexOutsideIndexing => Code.indexOutsideIndexing
  | .invalidIndexStyle _ => Code.invalidIndexStyle
  | .unknownRevealInput _ => Code.unknownRevealInput
  | .invalidFlag _ => Code.invalidFlag
  | .statementCount 0 => Code.emptyExpression
  | .statementCount _ => Code.multipleStatements
  | .expression fault _ => fault.code
  | .noReader => Code.noTemplateReader
  | .inlineFailed _ | .inlineTooDeep _ => Code.inlineTemplateFailed

def message : TemplateIssue → String
  | .unknownBlock name => "unknown block '" ++ name ++ "'"
  | .missingParameter block param =>
      "block '" ++ block ++ "' requires parameter '" ++ param ++ "'"
  | .unknownParameter block param =>
      "block '" ++ block ++ "': unknown parameter '" ++ param ++ "'"
  | .invalidVariable block name =>
      "block '" ++ block ++ "': '" ++ name ++ "' is not a variable name"
  | .misplacedElse => "'else' must be the last branch of an 'if' block"
  | .indexOutsideIndexing => "'index' used outside an 'indexing' block"
  | .invalidIndexStyle style => "unknown index style '" ++ style ++ "'"
  | .unknownRevealInput input =>
      "'reveal' refers to unknown input '" ++ input ++ "'"
  | .invalidFlag flag => "unsupported evaluation flag '" ++ flag ++ "'"
  | .statementCount count =>
      "an injection must hold exactly one expression, found " ++ toString count
  | .expression fault source => fault.message ++ " in '" ++ source ++ "'"
  | .noReader => "castext(\"...\") found but no template parser is configured"
  | .inlineFailed message => "inline template failed: " ++ message
  | .inlineTooDeep limit =>
      "inline templates nested deeper than " ++ toString limit ++ " levels"

end TemplateIssue

/-- An issue and the bytes of the template it is about, if known. -/
structure TemplateFault where
  issue : TemplateIssue
  position : Option Position
deriving DecidableEq, Repr

/-- The diagnostic of a fault in the template `source`. -/
def TemplateFault.diagnostic (fault : TemplateFault) (source : String) :
    Diagnostic :=
  let diagnostic := Diagnostic.error fault.issue.code fault.issue.message
  match fault.position with
  | some position => diagnostic.withSpan (Source.spanOf source position) source
  | none => diagnostic

/-- The log of faults in the template `source`, in order. -/
def TemplateFault.log (faults : List TemplateFault) (source : String) : Log :=
  Log.ofErrors (faults.map fun fault => fault.diagnostic source)

/-- A result together with the faults found on the way, in order. -/
structure Checked (α : Type) where
  value : α
  faults : List TemplateFault

namespace Checked

variable {α β : Type}

instance : Monad Checked where
  pure value := ⟨value, []⟩
  bind result next :=
    let after := next result.value
    ⟨after.value, result.faults ++ after.faults⟩

/-- Report a fault. -/
def report (issue : TemplateIssue) (position : Option Position) :
    Checked Unit :=
  ⟨(), [⟨issue, position⟩]⟩

/-- The result, if nothing was reported. -/
def result (checked : Checked α) : Except (List TemplateFault) α :=
  if checked.faults.isEmpty then .ok checked.value else .error checked.faults

@[simp] theorem value_pure (value : α) : (pure value : Checked α).value = value :=
  rfl

@[simp] theorem faults_pure (value : α) : (pure value : Checked α).faults = [] :=
  rfl

@[simp] theorem value_bind (first : Checked α) (next : α → Checked β) :
    (first >>= next).value = (next first.value).value := rfl

@[simp] theorem faults_bind (first : Checked α) (next : α → Checked β) :
    (first >>= next).faults = first.faults ++ (next first.value).faults := rfl

/-- A result is handed on exactly when no fault was reported. -/
theorem result_eq_ok_iff {checked : Checked α} {value : α} :
    checked.result = .ok value ↔ checked.faults = [] ∧ checked.value = value := by
  unfold result
  split
  · next h => simp_all
  · next h =>
      constructor
      · intro hbad
        cases hbad
      · intro hgood
        exact absurd (by simp [hgood.1]) h

end Checked

end SceneQuiz
