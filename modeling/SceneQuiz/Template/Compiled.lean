import SceneQuiz.Expr.Printer
import SceneQuiz.Expr.Usage
import SceneQuiz.Options
import SceneQuiz.Template.Code
import SceneQuiz.Template.MathMode
import SceneQuiz.Template.Reading
/-!
Templates as single expressions, with inline templates expanded.  How deep
those may nest is limited, so expansion ends even if a template contains
itself.
-/

namespace SceneQuiz

/-- Turns the text of an inline template into nodes, or says why it cannot. -/
abbrev TemplateReader := String → Except String Node

/-- What the compilation of a template may consult. -/
structure TemplateContext where
  options : Options
  /-- Names of the inputs that blocks may refer to. -/
  inputs : List String
  reader : Option TemplateReader

/-- A compiled template. -/
structure CompiledTemplate where
  /-- Its value is a text if the template is flat, and otherwise a
  `["%root", ...]` list. -/
  expr : Expr
  isFlat : Bool
deriving Repr

namespace TemplateContext

/-- The code of a template before inline templates are expanded. -/
def skeleton (ctx : TemplateContext) (template : Template) :
    Except (List TemplateFault) (Expr × Bool) := do
  let root := template.root.annotate template.source ctx.options.mathEnvironments
  let block ← root.toBlock ctx.inputs
  return (block.code, block.isFlat)

/-- Make every variable that code assigns local to it. -/
def localizeWrites (e : Expr) : Expr :=
  Emit.localized (e.usage.write.names.filter fun name => !isGlobalFlag name) e

/-- Compile a template, given how inline templates are expanded. -/
def compileWith (ctx : TemplateContext)
    (expand : String → Except TemplateIssue Expr) (template : Template) :
    Except (List TemplateFault) CompiledTemplate := do
  let (code, isFlat) ← ctx.skeleton template
  let e ← code.normalize expand ctx.options.foldLimit
  return ⟨localizeWrites e, isFlat⟩

/-- The message of a compilation that failed. -/
def firstMessage (faults : List TemplateFault) : String :=
  (faults.head?.map fun fault => fault.issue.message).getD "compilation failed"

/-- Expand an inline template.  The inline templates inside it may nest
`levels - 1` deep; `levels` counts down from the limit of the options. -/
def expandWithin (ctx : TemplateContext) :
    (levels : Nat) → String → Except TemplateIssue Expr
  | levels, source =>
      match ctx.reader with
      | none => .error .noReader
      | some reader =>
          match levels with
          | 0 => .error (.inlineTooDeep ctx.options.inlineDepth)
          | levels + 1 =>
              match reader source with
              | .error message => .error (.inlineFailed message)
              | .ok root =>
                  match ctx.compileWith (ctx.expandWithin levels) ⟨source, root⟩ with
                  | .ok compiled => .ok compiled.expr
                  | .error faults => .error (.inlineFailed (firstMessage faults))

/-- Expand an inline template of code that is not inside another. -/
def expand (ctx : TemplateContext) : String → Except TemplateIssue Expr :=
  ctx.expandWithin ctx.options.inlineDepth

end TemplateContext

/-- Compile a template. -/
def Template.compile (template : Template) (ctx : TemplateContext) :
    Except Log CompiledTemplate :=
  match ctx.compileWith ctx.expand template with
  | .ok compiled => .ok compiled
  | .error faults => .error (TemplateFault.log faults template.source)

/-- Bring code that stands in no template to normal form. -/
def Expr.normalizedIn (e : Expr) (ctx : TemplateContext) : Except Log Expr :=
  match e.normalize ctx.expand ctx.options.foldLimit with
  | .ok normal => .ok normal
  | .error faults => .error (TemplateFault.log faults "")

end SceneQuiz
