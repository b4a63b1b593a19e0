import SceneQuiz.Machine.Run
import SceneQuiz.Proofs.Decimal.WholeNumber
/-!
How evaluations end, whatever they cost.  A run is followed from the variables
it starts with to the value or error it ends in and the variables it leaves;
the steps it counts are left out, so a run that the step budget ends early
satisfies every such statement.  Each construct has one rule here, and longer
runs are put together from the rules.
-/

namespace SceneQuiz

namespace Eval

variable {α β : Type}

theorem get_machine (machine : Machine) :
    (EStateM.get : Eval Machine) machine = .ok machine machine := rfl

/-- From the variables `env`, a run ends in `outcome` and leaves the variables
`after`, unless the step budget ends it first.  Functions stay as they are. -/
def Ends (machine : Machine) (env : Environment) (run : Eval α)
    (outcome : Except EvalError α) (after : Environment) : Prop :=
  ∀ gas,
    (∃ spent, run { machine with env := env, gas := gas } =
      .error .gasExhausted spent) ∨
    ∃ spent, run { machine with env := env, gas := gas } =
      lift outcome { machine with env := after, gas := spent }

namespace Ends

variable {machine : Machine} {env middle after : Environment}

theorem of_eq {run : Eval α} {outcome : Except EvalError α}
    (h : ∀ gas, run { machine with env := env, gas := gas } =
      lift outcome { machine with env := after, gas := gas }) :
    Ends machine env run outcome after :=
  fun gas => Or.inr ⟨gas, h gas⟩

theorem value (value : α) : Ends machine env (pure value) (.ok value) env :=
  of_eq fun _ => rfl

theorem lifted (outcome : Except EvalError α) :
    Ends machine env (lift outcome) outcome env :=
  of_eq fun _ => rfl

theorem modified (change : Environment → Environment) :
    Ends machine env (modifyEnv change) (.ok ()) (change env) :=
  of_eq fun _ => rfl

theorem read (name : String) :
    Ends machine env (readName name)
      (.ok ((env.get? name).getD (.symbol name))) env :=
  of_eq fun _ => rfl

theorem bind {run : Eval α} {next : α → Eval β} {value : α}
    {outcome : Except EvalError β}
    (hrun : Ends machine env run (.ok value) middle)
    (hnext : Ends machine middle (next value) outcome after) :
    Ends machine env (run >>= next) outcome after := by
  intro gas
  rcases hrun gas with ⟨spent, hgas⟩ | ⟨spent, hok⟩
  · refine Or.inl ⟨spent, ?_⟩
    change EStateM.bind run next _ = _
    simp [EStateM.bind, hgas]
  · have hbind : (run >>= next) { machine with env := env, gas := gas } =
        next value { machine with env := middle, gas := spent } := by
      change EStateM.bind run next _ = _
      simp [EStateM.bind, hok, lift]
    rw [hbind]
    exact hnext spent

theorem bind_error {run : Eval α} {next : α → Eval β} {error : EvalError}
    (hrun : Ends machine env run (.error error) after) :
    Ends machine env (run >>= next) (.error error) after := by
  intro gas
  rcases hrun gas with ⟨spent, hgas⟩ | ⟨spent, hfail⟩
  · refine Or.inl ⟨spent, ?_⟩
    change EStateM.bind run next _ = _
    simp [EStateM.bind, hgas]
  · refine Or.inr ⟨spent, ?_⟩
    change EStateM.bind run next _ = _
    simp [EStateM.bind, hfail, lift]

/-- A scope is closed however the run inside it ends. -/
theorem within {run : Eval α} {outcome : Except EvalError α}
    {bindings : List (String × Value)}
    (h : Ends machine (env.push.defineAll bindings) run outcome after) :
    Ends machine env (inScope bindings run) outcome after.pop := by
  intro gas
  rcases h gas with ⟨spent, hgas⟩ | ⟨spent, hrun⟩
  · exact Or.inl ⟨{ spent with env := spent.env.pop }, by simp [inScope, hgas]⟩
  · refine Or.inr ⟨spent, ?_⟩
    cases outcome <;> simp [inScope, hrun, lift]

/-- A value passes a catch of `return`. -/
theorem caught {run : Eval Value} {value : Value}
    (h : Ends machine env run (.ok value) after) :
    Ends machine env (catchReturn run) (.ok value) after := by
  intro gas
  rcases h gas with ⟨spent, hgas⟩ | ⟨spent, hrun⟩
  · exact Or.inl ⟨spent, by simp [catchReturn, hgas]⟩
  · exact Or.inr ⟨spent, by simp [catchReturn, hrun, lift]⟩

/-- A `return` ends at a catch of it. -/
theorem returned {run : Eval Value} {value : Value}
    (h : Ends machine env run (.error (.returned value)) after) :
    Ends machine env (catchReturn run) (.ok value) after := by
  intro gas
  rcases h gas with ⟨spent, hgas⟩ | ⟨spent, hrun⟩
  · exact Or.inl ⟨spent, by simp [catchReturn, hgas]⟩
  · exact Or.inr ⟨spent, by simp [catchReturn, hrun, lift]⟩

theorem ticked {run : Eval α} {outcome : Except EvalError α}
    (h : Ends machine env run outcome after) :
    Ends machine env (do tick; run) outcome after := by
  intro gas
  by_cases hover : machine.limit < gas + 1
  · refine Or.inl ⟨{ machine with env := env, gas := gas + 1 }, ?_⟩
    change EStateM.bind tick (fun _ => run) _ = _
    simp [EStateM.bind, tick, hover]
  · have hbind : (do tick; run : Eval α)
        { machine with env := env, gas := gas } =
          run { machine with env := env, gas := gas + 1 } := by
      change EStateM.bind tick (fun _ => run) _ = _
      simp [EStateM.bind, tick, hover]
    rw [hbind]
    exact h (gas + 1)

end Ends

end Eval

theorem Value.ofNumber?_toString {n : Nat} (h : n < 0x8000000000000000) :
    ofNumber? (toString n) = some (.int n) := by
  simp only [ofNumber?, Decimal.readWord?_toString h]

/-- Operators that need the values of both operands. -/
def BinOp.isStrict : BinOp → Bool
  | .assign | .define | .and | .or => false
  | _ => true

/-- No builtin is hidden by a function from outside or a defined one. -/
def Machine.HasBuiltins (machine : Machine) : Prop :=
  ∀ builtin : Builtin, machine.hosts.get? builtin.name = none ∧
    machine.functions.get? builtin.name = none

open Eval (Ends)

variable {machine : Machine} {env middle after : Environment}

namespace Expr

/-- From the variables `env`, an expression ends in `outcome` and leaves the
variables `after`, however deep it may nest. -/
def Evaluates (machine : Machine) (env : Environment) (e : Expr)
    (outcome : Except EvalError Value) (after : Environment) : Prop :=
  ∀ fuel, Ends machine env (e.evalWithin fuel) outcome after

/-- Expressions have these values, from left to right. -/
def AllEvaluate (machine : Machine) (env : Environment) (es : List Expr)
    (values : List Value) (after : Environment) : Prop :=
  ∀ fuel, Ends machine env (Eval.all (evalWithin fuel) es) (.ok values) after

/-- Expressions one after the other end in `outcome`; what came before them
does not matter unless there are none. -/
def Run (machine : Machine) (env : Environment) (last : Value)
    (es : List Expr) (outcome : Except EvalError Value)
    (after : Environment) : Prop :=
  ∀ fuel,
    Ends machine env (Eval.sequence (evalWithin fuel) last es) outcome after

theorem Evaluates.of_step {e : Expr} {outcome : Except EvalError Value}
    (h : ∀ fuel, Ends machine env (Eval.step (evalWithin fuel) e) outcome after) :
    e.Evaluates machine env outcome after := by
  intro fuel
  cases fuel with
  | zero =>
      intro gas
      refine Or.inl ⟨{ machine with env := env, gas := gas + 1 }, ?_⟩
      change EStateM.bind Eval.tick (fun _ => throw .gasExhausted) _ = _
      by_cases hover : machine.limit < gas + 1
      · simp [EStateM.bind, Eval.tick, hover]
      · simp only [EStateM.bind, Eval.tick, hover, if_false]
        rfl
  | succ fuel => exact (h fuel).ticked

theorem AllEvaluate.nil : AllEvaluate machine env [] [] env :=
  fun _ => Ends.value _

theorem AllEvaluate.cons {e : Expr} {es : List Expr} {value : Value}
    {values : List Value} (hhead : e.Evaluates machine env (.ok value) middle)
    (htail : AllEvaluate machine middle es values after) :
    AllEvaluate machine env (e :: es) (value :: values) after :=
  fun fuel => (hhead fuel).bind ((htail fuel).bind (Ends.value _))

theorem Run.nil {last : Value} : Run machine env last [] (.ok last) env :=
  fun _ => Ends.value _

theorem Run.cons {e : Expr} {es : List Expr} {last value : Value}
    {outcome : Except EvalError Value}
    (hhead : e.Evaluates machine env (.ok value) middle)
    (htail : Run machine middle value es outcome after) :
    Run machine env last (e :: es) outcome after :=
  fun fuel => (hhead fuel).bind (htail fuel)

theorem Run.cons_error {e : Expr} {es : List Expr} {last : Value}
    {error : EvalError}
    (hhead : e.Evaluates machine env (.error error) after) :
    Run machine env last (e :: es) (.error error) after :=
  fun fuel => (hhead fuel).bind_error

theorem sequence_append (ev : Expr → Eval Value) (last : Value)
    (first second : List Expr) :
    Eval.sequence ev last (first ++ second) =
      Eval.sequence ev last first >>= fun value =>
        Eval.sequence ev value second := by
  induction first generalizing last with
  | nil => simp only [List.nil_append, Eval.sequence, pure_bind]
  | cons e rest ih =>
      simp only [List.cons_append, Eval.sequence, bind_assoc]
      exact bind_congr fun value => ih value

theorem Run.append {first second : List Expr} {last value : Value}
    {outcome : Except EvalError Value}
    (hfirst : Run machine env last first (.ok value) middle)
    (hsecond : Run machine middle value second outcome after) :
    Run machine env last (first ++ second) outcome after := by
  intro fuel
  rw [sequence_append]
  exact (hfirst fuel).bind (hsecond fuel)

/-- An error ends all that would come after it. -/
theorem Run.append_error {first second : List Expr} {last : Value}
    {error : EvalError}
    (hfirst : Run machine env last first (.error error) after) :
    Run machine env last (first ++ second) (.error error) after := by
  intro fuel
  rw [sequence_append]
  exact (hfirst fuel).bind_error

theorem evaluates_str (text : String) :
    (Expr.str text).Evaluates machine env (.ok (.str text)) env :=
  .of_step fun _ => Ends.value _

theorem evaluates_bool (truth : Bool) :
    (Expr.bool truth).Evaluates machine env (.ok (.bool truth)) env :=
  .of_step fun _ => Ends.value _

theorem evaluates_number {text : String} {value : Value}
    (h : Value.ofNumber? text = some value) :
    (Expr.number text).Evaluates machine env (.ok value) env := by
  refine .of_step fun _ => ?_
  simp only [Eval.step, h]
  exact Ends.value value

theorem int_natCast (n : Nat) : Expr.int n = .number (toString n) := by
  have hsign : ¬ ((n : Int) < 0) := by omega
  simp [Expr.int, hsign]

/-- A literal of a whole number of less than 64 bits has that value. -/
theorem evaluates_nat {n : Nat} (h : n < 0x8000000000000000) :
    (Expr.int n).Evaluates machine env (.ok (.int n)) env := by
  rw [int_natCast]
  exact evaluates_number (Value.ofNumber?_toString h)

/-- A name has its value, or stands for itself. -/
theorem evaluates_ident (name : String) :
    (Expr.ident name).Evaluates machine env
      (.ok ((env.get? name).getD (.symbol name))) env :=
  .of_step fun _ => Ends.read name

theorem evaluates_list {items : List Expr} {values : List Value}
    (h : AllEvaluate machine env items values after) :
    (Expr.list items).Evaluates machine env (.ok (.list values)) after :=
  .of_step fun fuel => (h fuel).bind (Ends.value _)

theorem evaluates_group {items : List Expr} {outcome : Except EvalError Value}
    (h : Run machine env (.bool false) items outcome after) :
    (Expr.group items).Evaluates machine env outcome after :=
  .of_step fun fuel => h fuel

theorem evaluates_assign {name : String} {e : Expr} {value : Value}
    (h : e.Evaluates machine env (.ok value) middle) :
    (Expr.assign name e).Evaluates machine env (.ok value)
      (middle.assign name value) :=
  .of_step fun fuel =>
    (h fuel).bind ((Ends.modified _).bind (Ends.value _))

theorem evaluates_assign_error {name : String} {e : Expr} {error : EvalError}
    (h : e.Evaluates machine env (.error error) after) :
    (Expr.assign name e).Evaluates machine env (.error error) after :=
  .of_step fun fuel => (h fuel).bind_error

theorem evaluates_neg {e : Expr} {value : Value}
    (h : e.Evaluates machine env (.ok value) after) :
    (Expr.neg e).Evaluates machine env value.negate after :=
  .of_step fun fuel => (h fuel).bind (Ends.lifted _)

theorem evaluates_not {e : Expr} {truth : Bool}
    (h : e.Evaluates machine env (.ok (.bool truth)) after) :
    (Expr.not e).Evaluates machine env (.ok (.bool !truth)) after :=
  .of_step fun fuel => ((h fuel).bind (Ends.value truth)).bind (Ends.value _)

/-- A conjunction looks at its second part only if the first one holds. -/
theorem evaluates_and {left right : Expr} {first second : Bool}
    (hleft : left.Evaluates machine env (.ok (.bool first)) env)
    (hright : right.Evaluates machine env (.ok (.bool second)) env) :
    (Expr.binary .and left right).Evaluates machine env
      (.ok (.bool (first && second))) env := by
  refine .of_step fun fuel => ((hleft fuel).bind (Ends.value first)).bind ?_
  cases first with
  | true => exact ((hright fuel).bind (Ends.value second)).bind (Ends.value _)
  | false => exact Ends.value _

/-- A disjunction looks at its second part only if the first one fails. -/
theorem evaluates_or {left right : Expr} {first second : Bool}
    (hleft : left.Evaluates machine env (.ok (.bool first)) env)
    (hright : right.Evaluates machine env (.ok (.bool second)) env) :
    (Expr.binary .or left right).Evaluates machine env
      (.ok (.bool (first || second))) env := by
  refine .of_step fun fuel => ((hleft fuel).bind (Ends.value first)).bind ?_
  cases first with
  | true => exact Ends.value _
  | false => exact ((hright fuel).bind (Ends.value second)).bind (Ends.value _)

theorem step_operator {op : BinOp} (hop : op.isStrict = true)
    (ev : Expr → Eval Value) (left right : Expr) :
    Eval.step ev (.binary op left right) = (do
      let left ← ev left
      let right ← ev right
      Eval.lift (Value.applyOperator op left right)) := by
  cases op <;> first | rfl | simp [BinOp.isStrict] at hop

theorem evaluates_operator {op : BinOp} {left right : Expr}
    {first second : Value} {outcome : Except EvalError Value}
    (hop : op.isStrict = true)
    (hleft : left.Evaluates machine env (.ok first) middle)
    (hright : right.Evaluates machine middle (.ok second) after)
    (hvalue : Value.applyOperator op first second = outcome) :
    (Expr.binary op left right).Evaluates machine env outcome after := by
  refine .of_step fun fuel => ?_
  rw [step_operator hop]
  refine (hleft fuel).bind ((hright fuel).bind ?_)
  rw [hvalue]
  exact Ends.lifted _

theorem evaluates_operator_error {op : BinOp} {left right : Expr}
    {first : Value} {error : EvalError} (hop : op.isStrict = true)
    (hleft : left.Evaluates machine env (.ok first) middle)
    (hright : right.Evaluates machine middle (.error error) after) :
    (Expr.binary op left right).Evaluates machine env (.error error) after := by
  refine .of_step fun fuel => ?_
  rw [step_operator hop]
  exact (hleft fuel).bind (hright fuel).bind_error

theorem evaluates_ifThen {test body : Expr} {otherwise : Option Expr}
    {outcome : Except EvalError Value}
    (htest : test.Evaluates machine env (.ok (.bool true)) middle)
    (hbody : body.Evaluates machine middle outcome after) :
    (Expr.ifThen test body otherwise).Evaluates machine env outcome after :=
  .of_step fun fuel =>
    ((htest fuel).bind (Ends.value true)).bind (hbody fuel)

theorem evaluates_ifThen_else {test body other : Expr}
    {outcome : Except EvalError Value}
    (htest : test.Evaluates machine env (.ok (.bool false)) middle)
    (hother : other.Evaluates machine middle outcome after) :
    (Expr.ifThen test body (some other)).Evaluates machine env outcome after :=
  .of_step fun fuel =>
    ((htest fuel).bind (Ends.value false)).bind (hother fuel)

theorem evaluates_ifThen_skip {test body : Expr}
    (htest : test.Evaluates machine env (.ok (.bool false)) after) :
    (Expr.ifThen test body none).Evaluates machine env (.ok (.bool false))
      after :=
  .of_step fun fuel =>
    ((htest fuel).bind (Ends.value false)).bind (Ends.value _)

/-- One index into a list. -/
theorem evaluates_item {target index : Expr} {whole position value : Value}
    (htarget : target.Evaluates machine env (.ok whole) middle)
    (hindex : index.Evaluates machine middle (.ok position) after)
    (hvalue : whole.item position = .ok value) :
    (Expr.index target [index]).Evaluates machine env (.ok value) after := by
  refine .of_step fun fuel => (htarget fuel).bind ((hindex fuel).bind ?_)
  rw [hvalue]
  exact (Ends.lifted (.ok value)).bind (Ends.value value)

/-- `errcatch` puts a value into a list. -/
theorem evaluates_errcatch {body : List Expr} {value : Value}
    (h : Run machine env (.bool false) body (.ok value) after) :
    (Expr.call "errcatch" body).Evaluates machine env (.ok (.list [value]))
      after := by
  refine .of_step fun fuel gas => ?_
  change (∃ spent, Eval.trapped (evalWithin fuel) body _ = _) ∨
    ∃ spent, Eval.trapped (evalWithin fuel) body _ = _
  rcases h fuel gas with ⟨spent, hgas⟩ | ⟨spent, hrun⟩
  · exact Or.inl ⟨spent, by simp [Eval.trapped, hgas, EvalError.isCatchable]⟩
  · exact Or.inr ⟨spent, by simp [Eval.trapped, hrun, Eval.lift]⟩

/-- `errcatch` turns an error into an empty list, unless it is a `return` or
the end of the step budget. -/
theorem evaluates_errcatch_error {body : List Expr} {error : EvalError}
    (hcatch : error.isCatchable = true)
    (h : Run machine env (.bool false) body (.error error) after) :
    (Expr.call "errcatch" body).Evaluates machine env (.ok (.list []))
      after := by
  refine .of_step fun fuel gas => ?_
  change (∃ spent, Eval.trapped (evalWithin fuel) body _ = _) ∨
    ∃ spent, Eval.trapped (evalWithin fuel) body _ = _
  rcases h fuel gas with ⟨spent, hgas⟩ | ⟨spent, hrun⟩
  · exact Or.inl ⟨spent, by simp [Eval.trapped, hgas, EvalError.isCatchable]⟩
  · exact Or.inr ⟨spent, by simp [Eval.trapped, hrun, hcatch, Eval.lift]⟩

/-- A `return` passes `errcatch` by. -/
theorem evaluates_errcatch_returned {body : List Expr} {value : Value}
    (h : Run machine env (.bool false) body (.error (.returned value)) after) :
    (Expr.call "errcatch" body).Evaluates machine env (.error (.returned value))
      after := by
  refine .of_step fun fuel gas => ?_
  change (∃ spent, Eval.trapped (evalWithin fuel) body _ = _) ∨
    ∃ spent, Eval.trapped (evalWithin fuel) body _ = _
  rcases h fuel gas with ⟨spent, hgas⟩ | ⟨spent, hrun⟩
  · exact Or.inl ⟨spent, by simp [Eval.trapped, hgas, EvalError.isCatchable]⟩
  · exact Or.inr ⟨spent, by simp [Eval.trapped, hrun, EvalError.isCatchable, Eval.lift]⟩

/-- `return` ends what is around it with a value. -/
theorem evaluates_return {e : Expr} {value : Value}
    (h : e.Evaluates machine env (.ok value) after) :
    (Expr.call "return" [e]).Evaluates machine env (.error (.returned value))
      after :=
  .of_step fun fuel => (h fuel).bind (Ends.lifted (.error (.returned value)))

theorem ofName?_name (builtin : Builtin) :
    Builtin.ofName? builtin.name = some builtin := by
  cases builtin <;> rfl

/-- A builtin that nothing hides is applied to the values of its arguments. -/
theorem evaluates_builtin (builtin : Builtin) {args : List Expr}
    {values : List Value} {value : Value} (hplain : machine.HasBuiltins)
    (hargs : AllEvaluate machine env args values after)
    (hvalue : builtin.apply values = .ok value) :
    (Expr.call builtin.name args).Evaluates machine env (.ok value) after := by
  refine .of_step fun fuel => ?_
  have hcall : Eval.step (evalWithin fuel) (.call builtin.name args) =
      (do
        let values ← Eval.all (evalWithin fuel) args
        Eval.apply (evalWithin fuel) builtin.name values) := by
    cases builtin <;> rfl
  rw [hcall]
  refine (hargs fuel).bind (Ends.of_eq fun gas => ?_)
  simp only [Eval.apply, bind, EStateM.bind, get, getThe, MonadStateOf.get,
    Eval.get_machine, (hplain builtin).1, (hplain builtin).2, ofName?_name, hvalue]

/-- A function from outside is applied to the values of its arguments. -/
theorem evaluates_host {name : String} {host : HostFunction} {args : List Expr}
    {values : List Value} {outcome : Except EvalError Value}
    (hhost : machine.hosts.get? name = some host)
    (hspecial : name ≠ "block" ∧ name ≠ "errcatch" ∧ name ≠ "return")
    (hargs : AllEvaluate machine env args values after)
    (hvalue : host values = outcome) :
    (Expr.call name args).Evaluates machine env outcome after := by
  refine .of_step fun fuel => ?_
  have hcall : Eval.step (evalWithin fuel) (.call name args) =
      (do
        let values ← Eval.all (evalWithin fuel) args
        Eval.apply (evalWithin fuel) name values) := by
    simp [Eval.step, Eval.call, hspecial]
  rw [hcall]
  refine (hargs fuel).bind (Ends.of_eq fun gas => ?_)
  simp only [Eval.apply, bind, EStateM.bind, get, getThe, MonadStateOf.get,
    Eval.get_machine, hhost, hvalue]

/-- Declarations of a block start with these values, and change nothing. -/
def Declares (machine : Machine) (env : Environment)
    (declarations : List Expr) (bindings : List (String × Value)) : Prop :=
  ∀ fuel, Ends machine env (Eval.locals (evalWithin fuel) declarations)
    (.ok bindings) env

theorem Declares.nil : Declares machine env [] [] :=
  fun _ => Ends.value _

theorem Declares.plain (name : String) {rest : List Expr}
    {bindings : List (String × Value)}
    (hrest : Declares machine env rest bindings) :
    Declares machine env (.ident name :: rest)
      ((name, .symbol name) :: bindings) :=
  fun fuel => (hrest fuel).bind (Ends.value _)

theorem Declares.assigned (name : String) {e : Expr} {value : Value}
    {rest : List Expr} {bindings : List (String × Value)}
    (hvalue : e.Evaluates machine env (.ok value) env)
    (hrest : Declares machine env rest bindings) :
    Declares machine env (.assign name e :: rest) ((name, value) :: bindings) :=
  fun fuel => (hvalue fuel).bind ((hrest fuel).bind (Ends.value _))

theorem evaluates_block {declarations body : List Expr}
    {bindings : List (String × Value)} {value : Value}
    (hlocals : Declares machine env declarations bindings)
    (hbody : Run machine (env.push.defineAll bindings) (.bool false) body
      (.ok value) after) :
    (Expr.block declarations body).Evaluates machine env (.ok value) after.pop :=
  .of_step fun fuel => (hlocals fuel).bind (hbody fuel).within.caught

/-- A block is where a `return` inside it ends. -/
theorem evaluates_block_returned {declarations body : List Expr}
    {bindings : List (String × Value)} {value : Value}
    (hlocals : Declares machine env declarations bindings)
    (hbody : Run machine (env.push.defineAll bindings) (.bool false) body
      (.error (.returned value)) after) :
    (Expr.block declarations body).Evaluates machine env (.ok value) after.pop :=
  .of_step fun fuel => (hlocals fuel).bind (hbody fuel).within.returned

/-- A call of a defined function without parameters runs its body in a scope of
its own. -/
theorem ends_apply {name : String} {body : Expr} {value : Value}
    (hhost : machine.hosts.get? name = none)
    (hdefined : machine.functions.get? name = some ⟨[], body⟩)
    (hbody : body.Evaluates machine env.push (.ok value) after) (fuel : Nat) :
    Ends machine env (Eval.apply (evalWithin fuel) name []) (.ok value)
      after.pop := by
  have hcall : Ends machine env (Eval.inScope [] (body.evalWithin fuel))
      (.ok value) after.pop := (hbody fuel).within
  intro gas
  have happly : Eval.apply (evalWithin fuel) name []
      { machine with env := env, gas := gas } =
        Eval.inScope [] (body.evalWithin fuel)
          { machine with env := env, gas := gas } := by
    simp only [Eval.apply, bind, EStateM.bind, get, getThe, MonadStateOf.get,
      Eval.get_machine, hhost, hdefined, Eval.applyClosure, List.length_nil,
      if_true, List.zip_nil_left]
  rw [happly]
  exact hcall gas

end Expr

end SceneQuiz
