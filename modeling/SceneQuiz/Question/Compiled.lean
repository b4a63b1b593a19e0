import SceneQuiz.Diagnostic.Document
import SceneQuiz.Question.Build
import SceneQuiz.Question.Document
/-!
Compiled questions, and the documents they are handed on as.
-/

namespace SceneQuiz

/-- All that is needed to serve a question. -/
structure CompiledQuestion where
  name : String
  entryScene : String
  artifacts : Artifacts
  contentHash : String

/-- The outcome of a compilation: a question if there is no error, and all
diagnostics. -/
structure CompileResult where
  question : Option CompiledQuestion
  log : Log

namespace CompiledQuestion

/-- A question as a document, weights written by `number`. -/
def toJson (number : Float → Json) (question : CompiledQuestion) : Json :=
  .obj [("name", .str question.name), ("entry_scene", .str question.entryScene),
    ("artifacts", .obj (question.artifacts.entries.map fun entry =>
      (entry.1, entry.2.toJson number))),
    ("content_hash", .str question.contentHash)]

/-- The text function of the scene shown first. -/
def entryArtifact? (question : CompiledQuestion) : Option Artifact :=
  question.artifacts.get? (Build.sceneKey question.entryScene "text")

end CompiledQuestion

namespace CompileResult

def success (result : CompileResult) : Bool := result.question.isSome

/-- A result as a document, weights written by `number`. -/
def toJson (number : Float → Json) (result : CompileResult) : Json :=
  .obj [("success", .bool result.success),
    ("question", Json.ofOption (CompiledQuestion.toJson number) result.question),
    ("errors", result.log.toJson)]

/-- A weight as a JSON number. -/
def storedNumber (x : Float) : Json := .number (Decimal.storedText x)

/-- A weight as a reader of the stored result gets it: reading is not exact for
every number, so it may differ in its last digit. -/
def readBack (x : Float) : Float := (storedNumber x).asDouble?.getD x

/-- A result as a text. -/
def text (result : CompileResult) : String := (result.toJson storedNumber).compact

/-- The result for a document that is no question. -/
def unreadable : CompileResult :=
  ⟨none, Log.empty.pushError
    (Diagnostic.error Code.invalidDocument "invalid question document")⟩

end CompileResult

/-- Compile a question. -/
def Question.compile (question : Question) (ctx : BuildContext) :
    CompileResult :=
  let (artifacts, log) := (question.build ctx).run .empty
  if log.hasErrors then ⟨none, log⟩
  else
    ⟨some ⟨question.name, question.entryName?.getD "", artifacts,
      artifacts.hash⟩, log⟩

/-- Compile a text document. -/
def BuildContext.compileText (ctx : BuildContext) (text : String) :
    CompileResult :=
  match Question.read? text with
  | some question => question.compile ctx
  | none => .unreadable

end SceneQuiz
