import SceneQuiz.Decimal.Digits
import SceneQuiz.Text.Basic
/-!
Locators: stable positions inside a question.  A locator is built from indices
and field names, never from display names, so it survives renaming.  It is
written as segments joined by slashes; the question itself is `question`.
-/

namespace SceneQuiz

/-- One step of a locator. -/
inductive Segment where
  | scene (index : Nat)
  | tree (index : Nat)
  | node (index : Nat)
  | input (index : Nat)
  | stateVariable (index : Nat)
  | validationBox (index : Nat)
  | branch (outcome : Bool)
  | field (name : String)
deriving DecidableEq, Repr

/-- Steps from the question down to the place meant. -/
abbrev Locator := List Segment

namespace Segment

/-- The written form of a segment. -/
def text : Segment → String
  | .scene n => "scene:" ++ toString n
  | .tree n => "prt:" ++ toString n
  | .node n => "node:" ++ toString n
  | .input n => "input:" ++ toString n
  | .stateVariable n => "statevar:" ++ toString n
  | .validationBox n => "vbox:" ++ toString n
  | .branch true => "true"
  | .branch false => "false"
  | .field name => name

end Segment

namespace Locator

/-- Why a text is no locator. -/
inductive Fault where
  | invalidIndex (index : String)
  | unknownSegment (kind : String)
deriving DecidableEq, Repr

def Fault.message : Fault → String
  | .invalidIndex index => "invalid locator index '" ++ index ++ "'"
  | .unknownSegment kind => "unknown locator segment '" ++ kind ++ "'"

/-- The written form of a locator. -/
def text (locator : Locator) : String :=
  match locator with
  | [] => "question"
  | segments => String.intercalate "/" (segments.map Segment.text)

/-- The locator lies at or below another. -/
def isUnder (locator above : Locator) : Bool :=
  List.isPrefixOf above locator

/-- Reads an index. -/
def readIndex? (text : String) : Option Nat := Decimal.readUnsigned? text

/-- Reads one segment. -/
def readSegment (part : String) : Except Fault Segment :=
  match Text.cutAt ':' part with
  | some (kind, index) =>
      match readIndex? index with
      | none => .error (.invalidIndex index)
      | some n =>
          if kind = "scene" then .ok (.scene n)
          else if kind = "prt" then .ok (.tree n)
          else if kind = "node" then .ok (.node n)
          else if kind = "input" then .ok (.input n)
          else if kind = "statevar" then .ok (.stateVariable n)
          else if kind = "vbox" then .ok (.validationBox n)
          else .error (.unknownSegment kind)
  | none =>
      if part = "true" then .ok (.branch true)
      else if part = "false" then .ok (.branch false)
      else .ok (.field part)

/-- Reads a locator; both the empty text and `question` mean the question. -/
def read (text : String) : Except Fault Locator :=
  if text = "" ∨ text = "question" then .ok []
  else (Text.splitAt '/' text).mapM readSegment

end Locator

end SceneQuiz
