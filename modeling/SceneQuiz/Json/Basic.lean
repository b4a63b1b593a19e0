import SceneQuiz.Text.Quoted
/-!
JSON values and their written form.  Numbers keep the text they were written
with, and objects keep every member in order, repeated ones included, so that
a document's own rules can decide about both.  So do strings that follow the
grammar and still spell no text: a document may hold one where nobody reads it.
-/

namespace SceneQuiz

/-- A JSON value. -/
inductive Json where
  | null
  | bool (value : Bool)
  | number (text : String)
  | str (text : String)
  | arr (items : List Json)
  | obj (members : List (String × Json))
  /-- A string, or an object with a member name, that holds half of a surrogate
  pair. -/
  | garbled
deriving Repr, BEq, Inhabited

namespace Json

/-- A natural number. -/
def nat (n : Nat) : Json := .number (toString n)

/-- A list of texts. -/
def texts (items : List String) : Json := .arr (items.map Json.str)

/-- A value that may be missing. -/
def ofOption {α : Type} (encode : α → Json) : Option α → Json
  | some value => encode value
  | none => .null

/-- A member that is left out when it has no value. -/
def optional {α : Type} (name : String) (encode : α → Json) :
    Option α → List (String × Json)
  | some value => [(name, encode value)]
  | none => []

/-- Four hexadecimal digits. -/
def fourHex (n : Nat) : String :=
  let digits := Nat.toDigits 16 n
  String.ofList (List.replicate (4 - digits.length) '0' ++ digits)

/-- How one character stands in a JSON string. -/
def escapeChar (c : Char) : String :=
  if c = '"' then "\\\""
  else if c = '\\' then "\\\\"
  else if c = '\n' then "\\n"
  else if c = '\r' then "\\r"
  else if c = '\t' then "\\t"
  else if c = Char.ofNat 8 then "\\b"
  else if c = Char.ofNat 12 then "\\f"
  else if c.toNat < 0x20 then "\\u" ++ fourHex c.toNat
  else c.toString

/-- A JSON string. -/
def quoteText (text : String) : String :=
  "\"" ++ String.join (text.toList.map escapeChar) ++ "\""

end Json

mutual

/-- A value without blanks.  What spells no text is written as nothing. -/
def Json.compact (value : Json) : String :=
  match value with
  | .null => "null"
  | .bool true => "true"
  | .bool false => "false"
  | .number text => text
  | .str text => Json.quoteText text
  | .arr items => "[" ++ Json.compactItems "" items ++ "]"
  | .obj members => "\x7b" ++ Json.compactMembers "" members ++ "\x7d"
  | .garbled => "null"
termination_by structural value

/-- Items joined by commas, the first one after `lead`. -/
def Json.compactItems (lead : String) (items : List Json) : String :=
  match items with
  | [] => ""
  | item :: rest => lead ++ item.compact ++ Json.compactItems "," rest
termination_by structural items

/-- Members joined by commas, the first one after `lead`. -/
def Json.compactMembers (lead : String) (members : List (String × Json)) :
    String :=
  match members with
  | [] => ""
  | (name, value) :: rest =>
      lead ++ Json.quoteText name ++ ":" ++ value.compact ++
        Json.compactMembers "," rest
termination_by structural members

end

/-- A line break and the indentation of a depth, two blanks each. -/
def Json.newline (depth : Nat) : String :=
  "\n" ++ String.ofList (List.replicate (2 * depth) ' ')

mutual

/-- A value on several lines, inside `depth` others. -/
def Json.prettyAt (value : Json) (depth : Nat) : String :=
  match value with
  | .null => "null"
  | .bool true => "true"
  | .bool false => "false"
  | .number text => text
  | .str text => Json.quoteText text
  | .arr [] => "[]"
  | .arr (item :: rest) =>
      "[" ++ Json.prettyItems "" (item :: rest) (depth + 1) ++
        Json.newline depth ++ "]"
  | .obj [] => "\x7b\x7d"
  | .obj (entry :: rest) =>
      "\x7b" ++ Json.prettyMembers "" (entry :: rest) (depth + 1) ++
        Json.newline depth ++ "\x7d"
  | .garbled => "null"
termination_by structural value

/-- Items on lines of their own. -/
def Json.prettyItems (lead : String) (items : List Json) (depth : Nat) :
    String :=
  match items with
  | [] => ""
  | item :: rest =>
      lead ++ Json.newline depth ++ item.prettyAt depth ++
        Json.prettyItems "," rest depth
termination_by structural items

/-- Members on lines of their own. -/
def Json.prettyMembers (lead : String) (members : List (String × Json))
    (depth : Nat) : String :=
  match members with
  | [] => ""
  | (name, value) :: rest =>
      lead ++ Json.newline depth ++ Json.quoteText name ++ ": " ++
        value.prettyAt depth ++ Json.prettyMembers "," rest depth
termination_by structural members

end

/-- A value on several lines. -/
def Json.pretty (value : Json) : String := value.prettyAt 0

end SceneQuiz
