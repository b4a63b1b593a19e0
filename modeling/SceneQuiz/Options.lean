import SceneQuiz.Template.Document
/-!
Settings of a compilation.  Each has a default, so an empty document is a valid
one.
-/

namespace SceneQuiz

/-- Settings of a compilation. -/
structure Options where
  /-- The largest number of arguments of one concatenation. -/
  concatLimit : Nat
  /-- Decimal places kept of scores and penalties. -/
  scoreDecimals : Nat
  /-- Errors that one node of a response tree may have. -/
  nodeErrorLimit : Nat
  /-- How deep inline templates may nest. -/
  inlineDepth : Nat
  /-- Environments whose content is a formula. -/
  mathEnvironments : List String
deriving DecidableEq, Repr

namespace Options

def default : Options where
  concatLimit := 40
  scoreDecimals := 3
  nodeErrorLimit := 1
  inlineDepth := 8
  mathEnvironments :=
    ["equation", "equation*", "align", "align*", "eqnarray", "eqnarray*",
      "multline", "multline*", "gather", "gather*", "displaymath", "math"]

instance : Inhabited Options := ⟨default⟩

/-- The factor by which scores are scaled before rounding; no more than nine
places are kept. -/
def scoreScale (options : Options) : Nat := 
  Decimal.tenPow (min options.scoreDecimals 9)

/-- The limit of a concatenation that can still be folded. -/
def foldLimit (options : Options) : Nat := max options.concatLimit 2

/-- A setting of 32 bits. -/
def asSmall? (value : Json) : Option Nat := value.asNatBelow? (Decimal.twoPow 32)

def ofJson? (value : Json) : Option Options := do
  let members ← value.asMembers?
  return {
    concatLimit :=
      ← Json.defaulted members "concat_arg_limit" default.concatLimit
        Json.asCount?
    scoreDecimals :=
      ← Json.defaulted members "score_decimals" default.scoreDecimals asSmall?
    nodeErrorLimit :=
      ← Json.defaulted members "max_node_errors" default.nodeErrorLimit asSmall?
    inlineDepth :=
      ← Json.defaulted members "max_inline_depth" default.inlineDepth
        Json.asCount?
    mathEnvironments :=
      ← Json.defaulted members "math_environments" default.mathEnvironments
        (Json.asList? Json.asText?) }

/-- Read a text document. -/
def read? (text : String) : Option Options := do ofJson? (← Json.read? text)

def toJson (options : Options) : Json :=
  .obj [("concat_arg_limit", .nat options.concatLimit),
    ("score_decimals", .nat options.scoreDecimals),
    ("max_node_errors", .nat options.nodeErrorLimit),
    ("max_inline_depth", .nat options.inlineDepth),
    ("math_environments", Json.texts options.mathEnvironments)]

end Options

end SceneQuiz
