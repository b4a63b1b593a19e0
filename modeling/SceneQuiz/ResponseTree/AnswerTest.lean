import SceneQuiz.Diagnostic.Document
import SceneQuiz.Expr.Printer
import SceneQuiz.Json.Basic
import SceneQuiz.NameMap
/-!
Answer tests.  A test compares a student's expression with a teacher's and is
called from generated code as `AT<name>(student, teacher, options)`; its value
is the list `[outcome, note, message]`.  A test that is not registered is an
error and never passes silently.
-/

namespace SceneQuiz

/-- The shape of the options a test takes. -/
inductive OptionKind where
  | none
  /-- The name of a variable. -/
  | variable
  | positiveNumber
  | positiveInteger
  /-- A positive integer, or a pair `[n, m]`. -/
  | significantFigures
deriving DecidableEq, Repr

/-- What a test wants as its options. -/
structure OptionRule where
  kind : OptionKind
  required : Bool
  description : String
deriving DecidableEq, Repr

/-- No options. -/
def OptionRule.none : OptionRule := ⟨.none, false, ""⟩

/-- Options that have to be given. -/
def OptionRule.needed (kind : OptionKind) (description : String) : OptionRule :=
  ⟨kind, true, description⟩

/-- An answer test. -/
structure AnswerTest where
  codename : String
  options : OptionRule
  needsTeacherAnswer : Bool
  /-- The test looks at the raw text of an input and not at its value. -/
  needsDirectInput : Bool
deriving DecidableEq, Repr

/-- The arguments of a test. -/
structure TestCall where
  studentAnswer : Expr
  teacherAnswer : Option Expr
  options : Option Expr
  /-- Names of the inputs that may be meant. -/
  inputs : List String

/-- What is wrong with an argument of a test. -/
inductive ArgumentFault where
  | missingOptions (kind : OptionKind)
  | unwantedOptions
  | wrongOptions (kind : OptionKind) (found : Expr)
  | indirectInput (found : Expr)
  | missingTeacherAnswer
deriving Repr

namespace ArgumentFault

/-- The argument meant. -/
def field : ArgumentFault → String
  | .missingOptions _ | .unwantedOptions | .wrongOptions _ _ => "options"
  | .indirectInput _ => "sans"
  | .missingTeacherAnswer => "tans"

def message : ArgumentFault → String
  | .missingOptions .variable => "a variable is required"
  | .missingOptions .significantFigures =>
      "a number of significant figures is required"
  | .missingOptions .positiveNumber => "a positive tolerance is required"
  | .missingOptions _ => "an option is required"
  | .unwantedOptions => "this test takes no options"
  | .wrongOptions .variable found =>
      "'" ++ found.print ++ "' is not a variable name"
  | .wrongOptions .positiveNumber found =>
      "'" ++ found.print ++ "' is not a positive number"
  | .wrongOptions .positiveInteger found =>
      "'" ++ found.print ++ "' is not a positive integer"
  | .wrongOptions _ found =>
      "'" ++ found.print ++
        "' is neither a positive integer nor a list [n, m]"
  | .indirectInput found =>
      "must name an input directly, found '" ++ found.print ++ "'"
  | .missingTeacherAnswer => "a teacher answer is required"

/-- The number of a diagnostic about an argument. -/
def codeOf (field : String) : Code :=
  if field = "tans" then Code.missingTeacherAnswer
  else if field = "sans" then Code.directInputRequired
  else Code.invalidTestOptions

end ArgumentFault

/-- Why a test cannot be called. -/
inductive TestFault where
  | unknown (codename : String)
  | invalid (codename : String) (faults : List ArgumentFault)
deriving Repr

namespace TestFault

def message : TestFault → String
  | .unknown codename => "unknown answer test '" ++ codename ++ "'"
  | .invalid codename faults =>
      "answer test '" ++ codename ++ "' rejected its arguments: " ++
        "; ".intercalate
          (faults.map fun fault => fault.field ++ ": " ++ fault.message)

/-- A diagnostic for each argument at fault, below `path`. -/
def diagnostics (fault : TestFault) (path : Locator) : List Diagnostic :=
  match fault with
  | .unknown _ =>
      [(Diagnostic.error Code.unknownAnswerTest fault.message).under
        (path ++ [.field "test"])]
  | .invalid codename faults =>
      faults.map fun fault =>
        (Diagnostic.error (ArgumentFault.codeOf fault.field)
          (codename ++ ": " ++ fault.message)).under
          (path ++ [.field fault.field])

end TestFault

namespace OptionKind

/-- A literal integer without a sign. -/
def unsigned? : Expr → Option Nat
  | .number text => Decimal.readUnsigned? text
  | _ => Option.none

def isPositiveInteger (e : Expr) : Bool := (unsigned? e).any (0 < ·)

/-- Does the kind take these options? -/
def accepts (kind : OptionKind) (found : Expr) : Bool :=
  match kind with
  | .none => false
  | .variable => found.asIdent?.isSome
  | .positiveNumber => found.asNumber?.any (0.0 < ·)
  | .positiveInteger => isPositiveInteger found
  | .significantFigures =>
      match found with
      | .list [n, m] => isPositiveInteger n && (unsigned? m).isSome
      | .list _ => false
      | _ => isPositiveInteger found

def text : OptionKind → String
  | .none => "none"
  | .variable => "variable"
  | .positiveNumber => "positive_number"
  | .positiveInteger => "positive_integer"
  | .significantFigures => "sig_figs"

end OptionKind

/-- What is wrong with given or missing options. -/
def OptionRule.check (rule : OptionRule) (given : Option Expr) :
    List ArgumentFault :=
  match given with
  | .none => if rule.required then [.missingOptions rule.kind] else []
  | .some found =>
      if rule.kind = .none then [.unwantedOptions]
      else if rule.kind.accepts found then []
      else [.wrongOptions rule.kind found]

/-- What the raw text of an input is stored under. -/
def rawInputStem : String := "%_raw_"

/-- The variable with the raw text of an input. -/
def rawInput (input : String) : String := rawInputStem ++ input

namespace AnswerTest

/-- A student's answer that is not what the test looks at. -/
def checkStudentAnswer (test : AnswerTest) (call : TestCall) :
    List ArgumentFault :=
  if test.needsDirectInput then
    match call.studentAnswer.asIdent? with
    | some name =>
        if name ∈ call.inputs then [] else [.indirectInput call.studentAnswer]
    | none => [.indirectInput call.studentAnswer]
  else []

def checkTeacherAnswer (test : AnswerTest) (call : TestCall) :
    List ArgumentFault :=
  if test.needsTeacherAnswer ∧ call.teacherAnswer.isNone then
    [.missingTeacherAnswer]
  else []

/-- What is wrong with the arguments, in the order of their names. -/
def check (test : AnswerTest) (call : TestCall) : List ArgumentFault :=
  test.options.check call.options ++ test.checkStudentAnswer call ++
    test.checkTeacherAnswer call

/-- The student's answer as the test sees it. -/
def seenAnswer (test : AnswerTest) (call : TestCall) : Expr :=
  match call.studentAnswer with
  | .ident name =>
      if test.needsDirectInput then .ident (rawInput name) else .ident name
  | e => e

/-- The function that runs a test. -/
def functionName (codename : String) : String := "AT" ++ codename

/-- The call that runs a test. -/
def invocation (test : AnswerTest) (call : TestCall) : Expr :=
  .call (functionName test.codename)
    ([test.seenAnswer call, call.teacherAnswer.getD (.str "")] ++
      call.options.toList)

/-- The call that runs a test, if its arguments are in order. -/
def code (test : AnswerTest) (call : TestCall) : Except TestFault Expr :=
  match test.check call with
  | [] => .ok (test.invocation call)
  | faults => .error (.invalid test.codename faults)

/-- A description for authoring tools. -/
def toJson (test : AnswerTest) : Json :=
  .obj [("codename", .str test.codename),
    ("options", .obj [
      ("kind", .obj [("type", .str test.options.kind.text)]),
      ("required", .bool test.options.required),
      ("description", .str test.options.description)]),
    ("requires_teacher_answer", .bool test.needsTeacherAnswer),
    ("requires_direct_input", .bool test.needsDirectInput)]

end AnswerTest

/-- Registered tests by name. -/
abbrev Registry := NameMap AnswerTest

namespace Registry

/-- Add a test, replacing one of the same name. -/
def register (registry : Registry) (test : AnswerTest) : Registry :=
  registry.insert test.codename test

/-- The test of a name. -/
def find (registry : Registry) (codename : String) :
    Except TestFault AnswerTest :=
  match registry.get? codename with
  | some test => .ok test
  | none => .error (.unknown codename)

/-- Tests that compare by algebra. -/
def algebraic : List AnswerTest :=
  let mainVariable := OptionRule.needed .variable "the main variable"
  (["AlgEquiv", "EqualComAss", "CasEqual", "SameType", "SubstEquiv", "Sets",
      "Expanded", "SingleFrac"].map fun name => ⟨name, .none, true, false⟩) ++
    (["FacForm", "PartFrac", "CompSquare"].map fun name =>
      ⟨name, mainVariable, true, false⟩)

/-- Tests of integrals and derivatives. -/
def calculus : List AnswerTest :=
  let mainVariable := OptionRule.needed .variable
    "the variable of integration or differentiation"
  ["Diff", "Int"].map fun name => ⟨name, mainVariable, true, false⟩

/-- Tests of numbers. -/
def numerical : List AnswerTest :=
  let tolerance := OptionRule.needed .positiveNumber "tolerance"
  [⟨"GT", .none, true, false⟩, ⟨"GTE", .none, true, false⟩,
    ⟨"NumRelative", tolerance, true, false⟩,
    ⟨"NumAbsolute", tolerance, true, false⟩,
    ⟨"NumSigFigs",
      .needed .significantFigures "significant figures, or [n, m]", true, true⟩,
    ⟨"NumDecPlaces", .needed .positiveInteger "decimal places", true, true⟩,
    ⟨"Units", .needed .positiveInteger "significant figures", true, true⟩]

/-- Tests of texts. -/
def textual : List AnswerTest :=
  ["String", "StringSloppy", "Regex"].map fun name => ⟨name, .none, true, false⟩

/-- The built-in tests. -/
def catalog : Registry :=
  (algebraic ++ calculus ++ numerical ++ textual).foldl register .empty

/-- Registered names between braces. -/
def text (registry : Registry) : String :=
  "\x7b" ++ ", ".intercalate (registry.keys.map Text.quoted) ++ "\x7d"

/-- The table of all tests for authoring tools. -/
def table (registry : Registry) (version : String) : Json :=
  .obj [("version", .str version), ("total_tests", .nat registry.size),
    ("tests", .arr (registry.values.map AnswerTest.toJson))]

end Registry

end SceneQuiz
