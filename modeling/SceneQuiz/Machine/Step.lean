import SceneQuiz.Machine.Basic
/-!
Evaluation, one level at a time.  Each construct says what it does with the
values of its parts, given a way `ev` to evaluate them; `eval` ties the knot
and counts the steps.

Every evaluation of an expression is a step, so an evaluation nested `n` deep
has taken at least `n` steps.  The steps that are left therefore bound the
depth as well, and recursion on them never ends an evaluation that the budget
would have let go on.
-/

namespace SceneQuiz

namespace Eval

variable (ev : Expr → Eval Value)

/-- The values of several expressions, from left to right. -/
def all : List Expr → Eval (List Value)
  | [] => pure []
  | e :: rest => do
      let value ← ev e
      let values ← all rest
      return value :: values

/-- The value of the last expression; `last` if there is none. -/
def sequence (last : Value) : List Expr → Eval Value
  | [] => pure last
  | e :: rest => do
      let value ← ev e
      sequence value rest

/-- The truth of a condition. -/
def condition (e : Expr) : Eval Bool := do
  let value ← ev e
  match value with
  | .bool truth => return truth
  | other => throw (.mismatch (.condition other.kind))

/-- An item of an item, as far as there are indices. -/
def items (target : Value) : List Expr → Eval Value
  | [] => pure target
  | e :: rest => do
      let index ← ev e
      let found ← lift (target.item index)
      items found rest

/-- The body of the first branch whose condition holds. -/
def branches (otherwise : Option Expr) : List (Expr × Expr) → Eval Value
  | [] =>
      match otherwise with
      | some body => ev body
      | none => pure (.bool false)
  | (test, body) :: rest => do
      if ← condition ev test then ev body else branches otherwise rest

/-- The body once for each value of the variable. -/
def forEach (var : String) (body : Expr) : List Value → Eval Unit
  | [] => pure ()
  | value :: rest => do
      modifyEnv (·.define var value)
      let _ ← ev body
      forEach var body rest

/-- A loop in a scope of its own.  Loops have no value of interest. -/
def loop (var : String) (body : Expr) (values : List Value) : Eval Value := do
  inScope [] (forEach ev var body values)
  return .symbol "done"

/-- What a loop over members runs over. -/
def members (source : Expr) : Eval (List Value) := do
  let value ← ev source
  match value with
  | .list items | .set items => return items
  | other => throw (.mismatch (.iteration other.kind))

/-- What a counting loop runs over; the step is 1 unless it is given. -/
def rangeOf (first : Expr) (step : Option Expr) (last : Expr) :
    Eval (List Value) := do
  let first ← ev first
  let step ← match step with
    | some step => ev step
    | none => pure (.int 1)
  let last ← ev last
  lift (Value.range first step last)

/-- Starting values of the locals of a block, computed outside it.  A local
without one stands for itself. -/
def locals : List Expr → Eval (List (String × Value))
  | [] => pure []
  | .ident name :: rest => do
      let others ← locals rest
      return (name, .symbol name) :: others
  | .binary .assign (.ident name) right :: rest => do
      let value ← ev right
      let others ← locals rest
      return (name, value) :: others
  | .binary .assign left _ :: _ => throw (.unsupported (.blockLocal left))
  | declaration :: _ => throw (.unsupported (.blockLocal declaration))

/-- `block([locals], body...)`, or a body alone. -/
def block (args : List Expr) : Eval Value :=
  match args with
  | [] => pure (.bool false)
  | .list declarations :: body => do
      let bindings ← locals ev declarations
      catchReturn (inScope bindings (sequence ev (.bool false) body))
  | body => catchReturn (inScope [] (sequence ev (.bool false) body))

/-- `errcatch(body...)`: the last value in a list, or an empty list as soon as
an error is trapped. -/
def trapped (body : List Expr) : Eval Value := fun machine =>
  match sequence ev (.bool false) body machine with
  | .ok value after => .ok (.list [value]) after
  | .error error after =>
      if error.isCatchable then .ok (.list []) after else .error error after

/-- `return(value)` leaves the block around it. -/
def leave (args : List Expr) : Eval Value := do
  match args with
  | [] => throw (.returned (.bool false))
  | [e] =>
      let value ← ev e
      throw (.returned value)
  | _ => throw (.arity "return" .atMostOne args.length)

/-- A call of a defined function. -/
def applyClosure (name : String) (function : Closure) (args : List Value) :
    Eval Value :=
  if function.params.length = args.length then
    inScope (function.params.zip args) (ev function.body)
  else throw (.arity name (.exactly function.params.length) args.length)

/-- A call with evaluated arguments: outside functions come first, then
defined ones, then builtins. -/
def apply (name : String) (args : List Value) : Eval Value := do
  let machine ← get
  match machine.hosts.get? name with
  | some host => lift (host args)
  | none =>
      match machine.functions.get? name with
      | some function => applyClosure ev name function args
      | none =>
          match Builtin.ofName? name with
          | some builtin => lift (builtin.apply args)
          | none => throw (.unknownFunction name)

/-- A call.  `block`, `errcatch` and `return` see their arguments
unevaluated. -/
def call (name : String) (args : List Expr) : Eval Value :=
  if name = "block" then block ev args
  else if name = "errcatch" then trapped ev args
  else if name = "return" then leave ev args
  else do
    let values ← all ev args
    apply ev name values

/-- Names of formal parameters. -/
def paramNames : List Expr → Except EvalError (List String)
  | [] => .ok []
  | e :: rest =>
      match e.asIdent? with
      | some name => (paramNames rest).map (name :: ·)
      | none => .error (.unsupported (.parameter e))

/-- `target: value` -/
def assignment (target value : Expr) : Eval Value :=
  match target with
  | .ident name => do
      let value ← ev value
      modifyEnv (·.assign name value)
      return value
  | _ => throw (.unsupported (.assignment target))

/-- `name(params) := body` -/
def definition (target body : Expr) : Eval Value :=
  match target with
  | .call name params => do
      let params ← lift (paramNames params)
      defineFunction name ⟨params, body⟩
      return .symbol name
  | _ => throw (.unsupported (.definition target))

/-- An infix expression; `and` and `or` stop at the first operand that
decides. -/
def binary (op : BinOp) (left right : Expr) : Eval Value :=
  match op with
  | .assign => assignment ev left right
  | .define => definition left right
  | .and => do
      if ← condition ev left then return .bool (← condition ev right)
      else return .bool false
  | .or => do
      if ← condition ev left then return .bool true
      else return .bool (← condition ev right)
  | _ => do
      let left ← ev left
      let right ← ev right
      lift (Value.applyOperator op left right)

/-- The value of an expression in terms of the values of its parts. -/
def step (e : Expr) : Eval Value :=
  match e with
  | .number text =>
      match Value.ofNumber? text with
      | some value => pure value
      | none => throw (.invalidNumber text)
  | .str text => pure (.str text)
  | .bool truth => pure (.bool truth)
  | .ident name => readName name
  | .call name args => call ev name args
  | .index target indices => do
      let target ← ev target
      items ev target indices
  | .list items => do return .list (← all ev items)
  | .set items => do return Value.setOf (← all ev items)
  | .group items => sequence ev (.bool false) items
  | .neg operand => do
      let value ← ev operand
      lift value.negate
  | .not operand => do return .bool (!(← condition ev operand))
  | .quote operand => pure (.symbol operand.print)
  | .factorial operand => do
      let value ← ev operand
      lift value.factorial
  | .binary op left right => binary ev op left right
  | .cond tests otherwise => branches ev otherwise tests
  | .forIn var source body => do
      let values ← members ev source
      loop ev var body values
  | .forRange var first step last body => do
      let values ← rangeOf ev first step last
      loop ev var body values

end Eval

/-- Evaluate an expression that may nest `fuel` deep.  Without fuel the step
budget is used up. -/
def Expr.evalWithin : Nat → Expr → Eval Value
  | 0, _ => do
      Eval.tick
      throw .gasExhausted
  | fuel + 1, e => do
      Eval.tick
      Eval.step (Expr.evalWithin fuel) e

/-- Evaluate an expression with the steps that are left. -/
def Expr.eval (e : Expr) : Eval Value := fun machine =>
  e.evalWithin machine.remaining machine

end SceneQuiz
