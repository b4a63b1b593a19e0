import SceneQuiz.Machine.Arithmetic
/-!
The functions that evaluation knows without a definition.
-/

namespace SceneQuiz

/-- A function that needs no definition. -/
inductive Builtin where
  | append
  | cons
  | emptyp
  | endcons
  | error
  | first
  | float
  | is
  | last
  | length
  | listify
  | max
  | member
  | min
  | rest
  | round
  | sconcat
  | setp
  | simplode
  | display
  | string
  | stringp
  | listp
deriving DecidableEq, Repr

namespace Builtin

/-- All of them, in the order they are listed to readers. -/
def all : List Builtin :=
  [.append, .cons, .emptyp, .endcons, .error, .first, .float, .is, .last,
    .length, .listify, .max, .member, .min, .rest, .round, .sconcat, .setp,
    .simplode, .display, .string, .stringp, .listp]

/-- The name a call is written with. -/
def name : Builtin → String
  | .append => "append"
  | .cons => "cons"
  | .emptyp => "emptyp"
  | .endcons => "endcons"
  | .error => "error"
  | .first => "first"
  | .float => "float"
  | .is => "is"
  | .last => "last"
  | .length => "length"
  | .listify => "listify"
  | .max => "max"
  | .member => "member"
  | .min => "min"
  | .rest => "rest"
  | .round => "round"
  | .sconcat => "sconcat"
  | .setp => "setp"
  | .simplode => "simplode"
  | .display => "stack_disp"
  | .string => "string"
  | .stringp => "stringp"
  | .listp => "listp"

def ofName? (name : String) : Option Builtin :=
  all.find? fun builtin => builtin.name == name

/-- The only argument. -/
def single (builtin : Builtin) (args : List Value) : Except EvalError Value :=
  match args with
  | [value] => .ok value
  | _ => .error (.arity builtin.name (.exactly 1) args.length)

/-- Arguments of the wrong kinds. -/
def refuse {α : Type} (builtin : Builtin) (args : List Value) :
    Except EvalError α :=
  .error (.mismatch (.arguments builtin.name (args.map Value.kind)))

/-- One argument of the wrong kind. -/
def refuseOne {α : Type} (builtin : Builtin) (value : Value) :
    Except EvalError α :=
  .error (.mismatch (.argument builtin.name value.kind))

/-- The only argument, as a list. -/
def singleList (builtin : Builtin) (args : List Value) :
    Except EvalError (List Value) := do
  let value ← builtin.single args
  match value with
  | .list items => .ok items
  | _ => builtin.refuseOne value

/-- An argument as a double. -/
def double (builtin : Builtin) (value : Value) : Except EvalError Float :=
  match value.asDouble? with
  | some x => .ok x
  | none => builtin.refuseOne value

/-- An item that has to exist. -/
def present (item : Option Value) : Except EvalError Value :=
  match item with
  | some value => .ok value
  | none => .error (.indexOutOfRange 1 0)

/-- A value shown inline, displayed, or as it stands. -/
def displayed (mode text : String) : String :=
  if mode = "i" then "\\(" ++ text ++ "\\)"
  else if mode = "d" then "\\[" ++ text ++ "\\]"
  else text

/-- Lists one after the other; every argument has to be a list. -/
def appended (builtin : Builtin) (args : List Value) :
    Except EvalError Value :=
  match args.mapM Value.asList? with
  | some lists => .ok (.list lists.flatten)
  | none => builtin.refuse args

/-- The first of the numbers that comes before the others by `op`, starting
from the best one so far. -/
def extreme (builtin : Builtin) (op : BinOp) (best : Value) :
    List Value → Except EvalError Value
  | [] => .ok best
  | value :: others =>
      match Value.compare? op value best with
      | some true => extreme builtin op value others
      | some false => extreme builtin op best others
      | none => builtin.refuseOne value

/-- The smallest or largest argument. -/
def extremeOf (builtin : Builtin) (op : BinOp) :
    List Value → Except EvalError Value
  | [] => .error (.arity builtin.name .atLeastOne 0)
  | value :: others =>
      match value.asDouble? with
      | some _ => extreme builtin op value others
      | none => builtin.refuseOne value

/-- The value of a call. -/
def apply (builtin : Builtin) (args : List Value) : Except EvalError Value :=
  match builtin with
  | .sconcat => .ok (.str (Value.joinTexts "" args))
  | .simplode =>
      match args with
      | [.list items] => .ok (.str (Value.joinTexts "" items))
      | [.list items, .str separator] =>
          .ok (.str (Value.joinTexts separator items))
      | _ => builtin.refuse args
  | .string => do return .str (← builtin.single args).displayText
  | .display =>
      match args with
      | [value, .str mode] => .ok (.str (displayed mode value.displayText))
      | _ => builtin.refuse args
  | .error => .error (.raised (Value.joinTexts " " args))
  | .is => do return .bool ((← builtin.single args).asBool?.getD false)
  | .length => do
      let value ← builtin.single args
      match value with
      | .list items | .set items => return .int items.length
      | .str text => return .int text.length
      | _ => builtin.refuseOne value
  | .first => do present (← builtin.singleList args).head?
  | .last => do present (← builtin.singleList args).getLast?
  | .rest => do return .list (← builtin.singleList args).tail
  | .emptyp => do return .bool (← builtin.singleList args).isEmpty
  | .cons =>
      match args with
      | [item, .list items] => .ok (.list (item :: items))
      | _ => builtin.refuse args
  | .endcons =>
      match args with
      | [item, .list items] => .ok (.list (items ++ [item]))
      | _ => builtin.refuse args
  | .append => builtin.appended args
  | .member =>
      match args with
      | [item, .list items] | [item, .set items] =>
          .ok (.bool (items.any fun other => other.looselyEquals item))
      | _ => builtin.refuse args
  | .listify => do
      let value ← builtin.single args
      match value with
      | .list items | .set items => return .list items
      | _ => builtin.refuseOne value
  | .setp => do return .bool ((← builtin.single args).kind == .set)
  | .listp => do return .bool ((← builtin.single args).kind == .list)
  | .stringp => do return .bool ((← builtin.single args).kind == .string)
  | .min => builtin.extremeOf .less args
  | .max => builtin.extremeOf .greater args
  | .round => do
      let value ← builtin.single args
      match value with
      | .int n => return .int n
      | _ => return .int (← builtin.double value).round.toInt64.toInt
  | .float => do return .float (← builtin.double (← builtin.single args))

end Builtin

end SceneQuiz
