import SceneQuiz.Expr.Printer
import SceneQuiz.Parse.Fragment
/-!
Results read back from the algebra system.  Literals, lists and sets are taken
apart; everything else is kept as text.
-/

namespace SceneQuiz

/-- A result in the shapes that rendering cares about. -/
inductive Datum where
  | str (text : String)
  | int (n : Int)
  | float (x : Float)
  | bool (value : Bool)
  | list (items : List Datum)
  | set (items : List Datum)
  /-- Anything else, as printed. -/
  | other (text : String)
deriving Repr, Inhabited

namespace Datum

/-- The value of a literal: an integer if 64 bits hold it, a double otherwise. -/
def ofNumber? (text : String) : Option Datum :=
  match Decimal.readWord? text with
  | some n => some (.int n)
  | none => (Decimal.readDouble? text).map Datum.float

def asString? : Datum → Option String
  | .str text => some text
  | _ => none

def asInt? : Datum → Option Int
  | .int n => some n
  | _ => none

/-- The value of a number. -/
def asDouble? : Datum → Option Float
  | .int n => some (Decimal.ofInt n)
  | .float x => some x
  | _ => none

def asBool? : Datum → Option Bool
  | .bool value => some value
  | _ => none

/-- The tag of a marker list `["tag", ...]`. -/
def markerTag? : Datum → Option String
  | .list (tag :: _) => tag.asString?
  | _ => none

end Datum

mutual

/-- The result an expression stands for. -/
def Datum.ofExpr (e : Expr) : Datum :=
  match e with
  | .str text => .str text
  | .bool value => .bool value
  | .number text => (Datum.ofNumber? text).getD (.other text)
  | .neg (.number text) =>
      (Datum.ofNumber? ("-" ++ text)).getD
        (.other (Expr.neg (.number text)).print)
  | .list items => .list (Datum.ofExprs items)
  | .set items => .set (Datum.ofExprs items)
  | e => .other e.print
termination_by structural e

/-- The results of several expressions. -/
def Datum.ofExprs (items : List Expr) : List Datum :=
  match items with
  | [] => []
  | e :: rest => Datum.ofExpr e :: Datum.ofExprs rest
termination_by structural items

end

mutual

/-- The text of a result; strings stand without quotes. -/
def Datum.text (datum : Datum) : String :=
  match datum with
  | .str text => text
  | .int n => toString n
  | .float x => Decimal.positionalText x
  | .bool true => "true"
  | .bool false => "false"
  | .list items => "[" ++ Datum.textOfItems "" items ++ "]"
  | .set items => "\x7b" ++ Datum.textOfItems "" items ++ "\x7d"
  | .other text => text
termination_by structural datum

/-- Results joined by commas, the first one after `lead`. -/
def Datum.textOfItems (lead : String) (items : List Datum) : String :=
  match items with
  | [] => ""
  | item :: rest => lead ++ item.text ++ Datum.textOfItems "," rest
termination_by structural items

end

/-- Read printed output of the algebra system, or say what is wrong with it. -/
def Datum.read (source : String) : Except CodeFault Datum :=
  match Expr.parse source with
  | .ok expr => .ok (Datum.ofExpr expr)
  | .error issues =>
      .error ((issues.head?.map CodeIssue.fault).getD .expectedExpression)

end SceneQuiz
