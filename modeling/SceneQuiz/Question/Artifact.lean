import SceneQuiz.Json.Basic
import SceneQuiz.NameMap
import SceneQuiz.Sha256
import SceneQuiz.Text.Basic
/-!
What compilation gives to the runtime: named pieces of code, and a hash of
their content that compiled questions are cached under.
-/

namespace SceneQuiz

/-- The version of the layout of artifacts. -/
def formatVersion : String := "1"

/-- One compiled piece of a question. -/
inductive Artifact where
  /-- The definition of a function without arguments, and the inputs it
  reads. -/
  | function (name code : String) (inputs : List String)
  /-- A compiled response tree with its weight. -/
  | tree (name code : String) (inputs order : List String) (value : Float)
  /-- Names that inputs must not have. -/
  | keys (names : List String)
deriving Repr

namespace Artifact

/-- The code of a piece that is code. -/
def code? : Artifact → Option String
  | .function _ code _ | .tree _ code _ _ _ => some code
  | .keys _ => none

/-- What a piece contributes to the hash. -/
def content : Artifact → String
  | .function _ code _ | .tree _ code _ _ _ => code
  | .keys names => ",".intercalate names

/-- A piece as a document, weights written by `number`. -/
def toJson (number : Float → Json) : Artifact → Json
  | .function name code inputs =>
      .obj [("kind", .str "function"), ("name", .str name), ("code", .str code),
        ("inputs", Json.texts inputs)]
  | .tree name code inputs order value =>
      .obj [("kind", .str "prt"), ("name", .str name), ("code", .str code),
        ("inputs", Json.texts inputs), ("order", Json.texts order),
        ("value", number value)]
  | .keys names => .obj [("kind", .str "keys"), ("names", Json.texts names)]

end Artifact

/-- The pieces of a question by key. -/
abbrev Artifacts := NameMap Artifact

namespace Artifacts

/-- The bytes that are hashed: the version, then every key and content, each
after a zero byte. -/
def hashed (artifacts : Artifacts) : List UInt8 :=
  Text.bytes formatVersion ++
    artifacts.entries.flatMap fun entry =>
      0 :: Text.bytes entry.1 ++ 0 :: Text.bytes entry.2.content

/-- The hash of all pieces. -/
def hash (artifacts : Artifacts) : String := Sha256.hex artifacts.hashed

/-- All code, in the order of the keys. -/
def program (artifacts : Artifacts) : String :=
  ";\n".intercalate (artifacts.values.filterMap Artifact.code?)

end Artifacts

end SceneQuiz
