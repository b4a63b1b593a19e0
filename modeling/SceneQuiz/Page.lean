import SceneQuiz.Datum
import SceneQuiz.Template.IndexStyle
import SceneQuiz.Template.Concat
import SceneQuiz.Text.Basic
/-!
Rendering of evaluated templates.  The value of a template that is not flat is
a list of texts and of markers, lists that start with a tag.  Markers of the
blocks `indexing`, `index`, `reveal` and `lang` are rendered here; any other is
left to a processor.

A page counts the elements it has rendered, so that their ids are unique on the
page, and knows the numberings it is inside of.
-/

namespace SceneQuiz

/-- What is wrong with the shape of a marker. -/
inductive MarkerFault where
  | tagNoText
  | indexingShape
  | styleNoText
  | unknownStyle
  | startNoInteger
  | revealShape
  | inputNoText
  | langShape
  | codesNoText
deriving DecidableEq, Repr

def MarkerFault.message : MarkerFault → String
  | .tagNoText => "marker tag must be a string"
  | .indexingShape => "expected style, start and body"
  | .styleNoText => "style must be a string"
  | .unknownStyle => "unknown style"
  | .startNoInteger => "start must be an integer"
  | .revealShape => "expected input, value and body"
  | .inputNoText => "input must be a string"
  | .langShape => "expected codes and body"
  | .codesNoText => "codes must be a string"

/-- Why a value cannot be rendered. -/
inductive PageFault where
  | unknownMarker (tag : String)
  | malformed (tag : String) (fault : MarkerFault)
  | indexOutsideIndexing
  | unreadable (fault : CodeFault)
deriving DecidableEq, Repr

def PageFault.message : PageFault → String
  | .unknownMarker tag => "no processor handles marker '" ++ tag ++ "'"
  | .malformed tag fault =>
      "malformed '" ++ tag ++ "' marker: " ++ fault.message
  | .indexOutsideIndexing => "'index' marker outside an 'indexing' marker"
  | .unreadable fault => "cannot read CAS output: " ++ fault.message

/-- A numbering, and the number that is next.  A counter of 64 bits overflows past
`2 ^ 63 - 1`; this one goes on, so it stands for such a counter only up to there. -/
structure Numbering where
  style : IndexStyle
  next : Int
deriving DecidableEq, Repr

/-- The state of a page.  Counters of 32 bits overflow past `2 ^ 32 - 1`; these go
on, so they stand for such counters only up to there. -/
structure Page where
  /-- The language shown; without one, all are. -/
  language : Option String
  /-- Index elements rendered so far. -/
  indexCount : Nat
  /-- Reveal elements rendered so far. -/
  revealCount : Nat
  /-- Open numberings, the innermost first. -/
  numberings : List Numbering
deriving DecidableEq, Repr

/-- A page with nothing on it. -/
def Page.blank (language : Option String) : Page := ⟨language, 0, 0, []⟩

/-- A rendering: text, or a fault, and the page it leaves. -/
abbrev Render := EStateM PageFault Page

/-- A value with its rendering. -/
abbrev Rendering := Datum × Render String

/-- Renders markers that are not rendered here, or declines by tag. -/
abbrev Processor := String → List Rendering → Option (Render String)

/-- Declines every tag. -/
def Processor.none : Processor := fun _ _ => Option.none

namespace Render

/-- A character inside a quoted attribute. -/
def escapeChar (c : Char) : String :=
  if c = '&' then "&amp;"
  else if c = '<' then "&lt;"
  else if c = '>' then "&gt;"
  else if c = '"' then "&quot;"
  else c.toString

/-- Text inside a quoted attribute. -/
def attributeText (text : String) : String :=
  String.join (text.toList.map escapeChar)

/-- Render values one after the other. -/
def concat : List Rendering → Render String
  | [] => pure ""
  | (_, render) :: rest => do
      let text ← render
      let others ← concat rest
      return text ++ others

/-- Render inside a numbering, which ends however the rendering ends. -/
def numbered (numbering : Numbering) (body : Render String) : Render String :=
  fun page =>
    match body { page with numberings := numbering :: page.numberings } with
    | .ok text after =>
        .ok text { after with numberings := after.numberings.tail }
    | .error fault after =>
        .error fault { after with numberings := after.numberings.tail }

def malformed {α : Type} (tag : String) (fault : MarkerFault) : Render α :=
  throw (.malformed tag fault)

/-- A value that has to be a text. -/
def needText (tag : String) (fault : MarkerFault) (value : Datum) :
    Render String :=
  match value with
  | .str text => pure text
  | _ => malformed tag fault

/-- `["indexing", style, start, body]` -/
def indexing (args : List Rendering) : Render String :=
  match args with
  | [(style, _), (start, _), (_, body)] => do
      let pattern ← needText "indexing" .styleNoText style
      match IndexStyle.ofPattern? pattern with
      | none => malformed "indexing" .unknownStyle
      | some style =>
          match start.asInt? with
          | none => malformed "indexing" .startNoInteger
          | some start => do
              let text ← numbered ⟨style, start⟩ body
              return "<span class=\"stateq-indexing\" data-style=\"" ++
                attributeText pattern ++ "\" data-start=\"" ++ toString start ++
                "\">" ++ text ++ "</span>"
  | _ => malformed "indexing" .indexingShape

/-- `["index"]`: the next number of the innermost numbering. -/
def index : Render String := fun page =>
  match page.numberings with
  | [] => .error .indexOutsideIndexing page
  | numbering :: outer =>
      let id := page.indexCount + 1
      .ok ("<span class=\"stateq-index\" id=\"stateq-index-" ++ toString id ++
          "\">" ++ numbering.style.label numbering.next ++ "</span>")
        { page with
          indexCount := id
          numberings := { numbering with next := numbering.next + 1 } :: outer }

/-- A new id for a reveal element. -/
def nextReveal : Render Nat := fun page =>
  .ok (page.revealCount + 1) { page with revealCount := page.revealCount + 1 }

/-- `["reveal", input, value, body]` -/
def reveal (args : List Rendering) : Render String :=
  match args with
  | [(input, _), (value, _), (_, body)] => do
      let input ← needText "reveal" .inputNoText input
      let id ← nextReveal
      let text ← body
      return "<div class=\"stateq-reveal\" id=\"stateq-reveal-" ++ toString id ++
        "\" data-input=\"" ++ attributeText input ++ "\" data-value=\"" ++
        attributeText value.text ++ "\" style=\"display:none;\">" ++ text ++
        "</div>"
  | _ => malformed "reveal" .revealShape

/-- Is the language among the codes between commas? -/
def isListed (codes language : String) : Bool :=
  (Text.splitAt ',' codes).any fun code => Text.trimBlank code == language

/-- `["lang", codes, body]` -/
def lang (args : List Rendering) : Render String :=
  match args with
  | [(codes, _), (_, body)] => do
      let codes ← needText "lang" .codesNoText codes
      match (← get).language with
      | none => body
      | some language => if isListed codes language then body else return ""
  | _ => malformed "lang" .langShape

/-- Render a marker. -/
def marker (processor : Processor) (tag : String) (args : List Rendering) :
    Render String :=
  if tag = rootTag then concat args
  else if tag = "indexing" then indexing args
  else if tag = "index" then index
  else if tag = "reveal" then reveal args
  else if tag = "lang" then lang args
  else
    match processor tag args with
    | some rendering => rendering
    | none => throw (.unknownMarker tag)

end Render

mutual

/-- Render a value. -/
def Datum.render (processor : Processor) (value : Datum) : Render String :=
  match value with
  | .str content => pure content
  | .list [] => pure ""
  | .list (.str tag :: args) =>
      Render.marker processor tag (Datum.renderings processor args)
  | .list (tag :: _) => Render.malformed tag.text .tagNoText
  | value => pure value.text
termination_by structural value

/-- Values with their renderings. -/
def Datum.renderings (processor : Processor) (values : List Datum) :
    List Rendering :=
  match values with
  | [] => []
  | value :: rest =>
      (value, value.render processor) :: Datum.renderings processor rest
termination_by structural values

end

/-- Read printed output of the algebra system and render it. -/
def Render.output (processor : Processor) (source : String) : Render String :=
  match Datum.read source with
  | .ok value => value.render processor
  | .error fault => throw (.unreadable fault)

end SceneQuiz
