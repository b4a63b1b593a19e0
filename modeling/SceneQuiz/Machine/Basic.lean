import SceneQuiz.Machine.Builtin
import SceneQuiz.Machine.Environment
/-!
The state of an evaluator: variables, functions and a budget of steps.  An
evaluation is a state transition that ends in a value or in an error; the state
it leaves is kept either way.
-/

namespace SceneQuiz

/-- A function defined by evaluated code. -/
structure Closure where
  params : List String
  body : Expr
deriving Repr

/-- A function supplied from outside. -/
abbrev HostFunction := List Value → Except EvalError Value

/-- The state of an evaluator. -/
structure Machine where
  env : Environment
  functions : NameMap Closure
  hosts : NameMap HostFunction
  /-- Steps taken so far. -/
  gas : Nat
  /-- Steps that may be taken. -/
  limit : Nat

namespace Machine

/-- The step budget of a machine that is given none. -/
def defaultLimit : Nat := 1000000

/-- A machine that has run nothing. -/
def fresh (limit : Nat) : Machine := ⟨.initial, .empty, .empty, 0, limit⟩

instance : Inhabited Machine := ⟨fresh defaultLimit⟩

/-- Make an outside function callable.  It comes before a defined function or
a builtin of the same name. -/
def register (name : String) (function : HostFunction) (machine : Machine) :
    Machine :=
  { machine with hosts := machine.hosts.insert name function }

/-- Give a variable a value. -/
def assign (name : String) (value : Value) (machine : Machine) : Machine :=
  { machine with env := machine.env.assign name value }

/-- The value of a variable. -/
def get? (machine : Machine) (name : String) : Option Value :=
  machine.env.get? name

/-- Has evaluated code defined this function? -/
def defines (machine : Machine) (function : String) : Bool :=
  machine.functions.contains function

/-- Steps left before the budget is used up. -/
def remaining (machine : Machine) : Nat := machine.limit - machine.gas

end Machine

/-- An evaluation: a state transition with a value or an error. -/
abbrev Eval := EStateM EvalError Machine

namespace Eval

variable {α : Type}

/-- Count a step, and stop once the budget is used up. -/
def tick : Eval Unit := fun machine =>
  let after := { machine with gas := machine.gas + 1 }
  if after.limit < after.gas then .error .gasExhausted after else .ok () after

/-- Lift a computation that does not touch the state. -/
def lift (outcome : Except EvalError α) : Eval α := fun machine =>
  match outcome with
  | .ok value => .ok value machine
  | .error error => .error error machine

/-- Change the variables. -/
def modifyEnv (change : Environment → Environment) : Eval Unit := fun machine =>
  .ok () { machine with env := change machine.env }

/-- The value of a name, or the name itself as a symbol. -/
def readName (name : String) : Eval Value := fun machine =>
  .ok ((machine.env.get? name).getD (.symbol name)) machine

/-- Store a function. -/
def defineFunction (name : String) (function : Closure) : Eval Unit :=
  fun machine =>
    .ok () { machine with functions := machine.functions.insert name function }

/-- Run inside a scope of its own, which is closed however the run ends. -/
def inScope (bindings : List (String × Value)) (body : Eval α) : Eval α :=
  fun machine =>
    match body { machine with env := machine.env.push.defineAll bindings } with
    | .ok value after => .ok value { after with env := after.env.pop }
    | .error error after => .error error { after with env := after.env.pop }

/-- Turn a `return` that reaches this place into a value. -/
def catchReturn (body : Eval Value) : Eval Value := fun machine =>
  match body machine with
  | .error (.returned value) after => .ok value after
  | outcome => outcome

/-- Run with a value for `simp` that is taken back however the run ends. -/
def withSimp (value : Value) (body : Eval α) : Eval α := fun machine =>
  let saved := (machine.env.get? "simp").getD (.bool true)
  match body (machine.assign "simp" value) with
  | .ok result after => .ok result (after.assign "simp" saved)
  | .error error after => .error error (after.assign "simp" saved)

end Eval

end SceneQuiz
