import SceneQuiz.Datum
import SceneQuiz.Text.Quoted
/-!
Values that evaluation computes with.  A name without a binding evaluates to a
symbol, so algebra with free names still has a value.

A set is kept sorted by the text of its members, and neighbours that are equal
as numbers are kept once.
-/

namespace SceneQuiz

/-- A value of the evaluator. -/
inductive Value where
  | int (n : Int)
  | float (x : Float)
  | str (text : String)
  | bool (truth : Bool)
  | list (items : List Value)
  | set (items : List Value)
  | symbol (name : String)
deriving Repr, Inhabited

/-- The kind of a value. -/
inductive Kind where
  | integer
  | float
  | string
  | boolean
  | list
  | set
  | symbol
deriving DecidableEq, Repr

def Kind.name : Kind → String
  | .integer => "integer"
  | .float => "float"
  | .string => "string"
  | .boolean => "boolean"
  | .list => "list"
  | .set => "set"
  | .symbol => "symbol"

namespace Value

def kind : Value → Kind
  | .int _ => .integer
  | .float _ => .float
  | .str _ => .string
  | .bool _ => .boolean
  | .list _ => .list
  | .set _ => .set
  | .symbol _ => .symbol

/-- The value of a number as a double. -/
def asDouble? : Value → Option Float
  | .int n => some (Decimal.ofInt n)
  | .float x => some x
  | _ => none

def asBool? : Value → Option Bool
  | .bool truth => some truth
  | _ => none

def asList? : Value → Option (List Value)
  | .list items => some items
  | _ => none

/-- The members of a list or a set. -/
def members? : Value → Option (List Value)
  | .list items | .set items => some items
  | _ => none

end Value

mutual

/-- The printed form of a value; strings are quoted. -/
def Value.text (value : Value) : String :=
  match value with
  | .int n => toString n
  | .float x => Decimal.positionalText x
  | .str text => Text.quoted text
  | .bool true => "true"
  | .bool false => "false"
  | .list items => "[" ++ Value.textOfItems "" items ++ "]"
  | .set items => "\x7b" ++ Value.textOfItems "" items ++ "\x7d"
  | .symbol name => name
termination_by structural value

/-- Printed forms joined by commas, the first one after `lead`. -/
def Value.textOfItems (lead : String) (items : List Value) : String :=
  match items with
  | [] => ""
  | item :: rest => lead ++ item.text ++ Value.textOfItems ", " rest
termination_by structural items

end

mutual

/-- Equality of values, where numbers of both kinds compare as doubles. -/
def Value.looselyEquals (left right : Value) : Bool :=
  match left, right with
  | .int a, .int b => Decimal.nearestInt a == Decimal.nearestInt b
  | .int a, .float y => Decimal.ofInt a == y
  | .float x, .int b => x == Decimal.ofInt b
  | .float x, .float y => x == y
  | .str a, .str b => a == b
  | .bool a, .bool b => a == b
  | .symbol a, .symbol b => a == b
  | .list as, .list bs => Value.looselyEqualItems as bs
  | .set as, .set bs => Value.looselyEqualItems as bs
  | _, _ => false
termination_by structural left

/-- Equality of two lists of values, item by item. -/
def Value.looselyEqualItems (left right : List Value) : Bool :=
  match left, right with
  | [], [] => true
  | a :: as, b :: bs => a.looselyEquals b && Value.looselyEqualItems as bs
  | _, _ => false
termination_by structural left

end

mutual

/-- The result that a value is handed on as. -/
def Value.toDatum (value : Value) : Datum :=
  match value with
  | .int n => .int n
  | .float x => .float x
  | .str text => .str text
  | .bool truth => .bool truth
  | .list items => .list (Value.toData items)
  | .set items => .set (Value.toData items)
  | .symbol name => .other name
termination_by structural value

/-- The results that several values are handed on as. -/
def Value.toData (items : List Value) : List Datum :=
  match items with
  | [] => []
  | item :: rest => item.toDatum :: Value.toData rest
termination_by structural items

end

namespace Value

/-- The text of a value inside a longer text: strings stand without quotes. -/
def displayText : Value → String
  | .str text => text
  | other => other.text

/-- Texts of several values, one after the other. -/
def joinTexts (separator : String) (items : List Value) : String :=
  separator.intercalate (items.map displayText)

/-- Items after `last` that differ from the item kept before them. -/
def dropRepeatsAfter (last : Value) : List Value → List Value
  | [] => []
  | item :: rest =>
      if item.looselyEquals last then dropRepeatsAfter last rest
      else item :: dropRepeatsAfter item rest

/-- Items with every run of equal neighbours cut down to its first. -/
def dropRepeats : List Value → List Value
  | [] => []
  | item :: rest => item :: dropRepeatsAfter item rest

/-- Items in the order of their printed forms; equal forms keep their order. -/
def sortByText (items : List Value) : List Value :=
  ((items.map fun item => (item.text, item)).mergeSort
    fun a b => decide (a.1 ≤ b.1)).map Prod.snd

/-- The set of some items. -/
def setOf (items : List Value) : Value := .set (dropRepeats (sortByText items))

/-- A number literal: an integer if 64 bits hold it, a double otherwise. -/
def ofNumber? (text : String) : Option Value :=
  match Decimal.readWord? text with
  | some n => some (.int n)
  | none => (Decimal.readDouble? text).map Value.float

/-- Sorting by text only rearranges. -/
theorem sortByText_perm (items : List Value) :
    (sortByText items).Perm items := by
  have h := (List.mergeSort_perm (items.map fun item => (item.text, item))
    fun a b => decide (a.1 ≤ b.1)).map Prod.snd
  simpa [sortByText, List.map_map, Function.comp_def] using h

theorem dropRepeatsAfter_sublist (last : Value) (items : List Value) :
    (dropRepeatsAfter last items).Sublist items := by
  induction items generalizing last with
  | nil => exact List.Sublist.slnil
  | cons item rest ih =>
      unfold dropRepeatsAfter
      split
      · exact (ih last).cons item
      · exact (ih item).cons_cons item

/-- Dropping repeats keeps the order of what stays. -/
theorem dropRepeats_sublist (items : List Value) :
    (dropRepeats items).Sublist items := by
  cases items with
  | nil => exact List.Sublist.slnil
  | cons item rest => exact (dropRepeatsAfter_sublist item rest).cons_cons item

end Value

end SceneQuiz
