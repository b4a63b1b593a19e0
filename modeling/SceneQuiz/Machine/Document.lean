import SceneQuiz.Json.Decode
import SceneQuiz.Machine.Value
/-!
Values as JSON documents: pairs of a kind and a content.  Numbers are written
as text, so that no digit is lost.
-/

namespace SceneQuiz

/-- A pair of a kind and a content. -/
def Json.tagged (kind : String) (content : Json) : Json :=
  .arr [.str kind, content]

mutual

def Value.toJson (value : Value) : Json :=
  match value with
  | .int n => .tagged "int" (.str (toString n))
  | .float x => .tagged "float" (.str (Decimal.positionalText x))
  | .str content => .tagged "str" (.str content)
  | .bool truth => .tagged "bool" (.bool truth)
  | .list items => .tagged "list" (.arr (Value.listToJson items))
  | .set items => .tagged "set" (.arr (Value.listToJson items))
  | .symbol name => .tagged "symbol" (.str name)
termination_by structural value

def Value.listToJson (items : List Value) : List Json :=
  match items with
  | [] => []
  | item :: rest => item.toJson :: Value.listToJson rest
termination_by structural items

end

mutual

def Datum.toJson (datum : Datum) : Json :=
  match datum with
  | .int n => .tagged "int" (.str (toString n))
  | .float x => .tagged "float" (.str (Decimal.positionalText x))
  | .str content => .tagged "str" (.str content)
  | .bool truth => .tagged "bool" (.bool truth)
  | .list items => .tagged "list" (.arr (Datum.listToJson items))
  | .set items => .tagged "set" (.arr (Datum.listToJson items))
  | .other content => .tagged "other" (.str content)
termination_by structural datum

def Datum.listToJson (items : List Datum) : List Json :=
  match items with
  | [] => []
  | item :: rest => item.toJson :: Datum.listToJson rest
termination_by structural items

end

/-- Read a value that nests less than `fuel` deep. -/
def Value.ofJsonWithin : Nat → Json → Option Value
  | 0, _ => none
  | fuel + 1, value => do
      match ← value.asItems? with
      | [.str "int", .str text] => return .int (← Decimal.readWord? text)
      | [.str "float", .str text] => return .float (← Decimal.readDouble? text)
      | [.str "str", .str text] => return .str text
      | [.str "bool", .bool truth] => return .bool truth
      | [.str "list", .arr items] =>
          return .list (← items.mapM (Value.ofJsonWithin fuel))
      | [.str "set", .arr items] =>
          return Value.setOf (← items.mapM (Value.ofJsonWithin fuel))
      | [.str "symbol", .str name] => return .symbol name
      | _ => none

/-- Read a value.  A set is put in order. -/
def Value.ofJson? (value : Json) : Option Value :=
  Value.ofJsonWithin value.height value

end SceneQuiz
