import SceneQuiz.Proofs.Machine.Deeper
/-!
From one machine to another.  An expression leads from a machine to an outcome
and to the machine it leaves, however deep it may nest, unless the budget ends
it.  Other than the rules for variables alone, the ones here hold for code that
defines functions on its way.  A passage through a block starts with its locals,
whose values may change variables themselves, and ends out of its scope; one
through a loop goes round by round, and a round that fails ends the loop.
-/

namespace SceneQuiz

namespace Eval

open Machine

variable {before middle after : Machine}

/-- `errcatch` around a run that gives a value. -/
theorem Leads.trapped {ev : Expr → Eval Value} {body : List Expr} {value : Value}
    (h : (sequence ev (.bool false) body).Leads before (.ok value) after) :
    (Eval.trapped ev body).Leads before (.ok (.list [value])) after := by
  intro start hstart
  rcases h start hstart with ⟨spent, hspent⟩ | ⟨_, final, ⟨⟩, hfinal, hend⟩
  · exact .inl ⟨spent, trapped_eq (hspent.trans (lift_error _ _).symm)⟩
  · exact .inr ⟨_, final, .ok _, hfinal, trapped_eq hend⟩

/-- Runs that keep the functions may have any budget. -/
theorem Leads.of_ends {α : Type} {run : Eval α} {outcome : Except EvalError α}
    {env : Environment}
    (h : ∀ limit, Ends { before with limit := limit } before.env run outcome env) :
    run.Leads before outcome { before with env := env } := by
  rintro ⟨startEnv, functions, hosts, gas, limit⟩ ⟨rfl, rfl, rfl⟩
  rcases h limit gas with ⟨spent, hspent⟩ | ⟨spent, hend⟩
  · exact .inl ⟨spent, hspent⟩
  · exact .inr ⟨outcome, { before with env := env, gas := spent, limit := limit },
      .refl outcome, ⟨rfl, rfl, rfl⟩, hend⟩

end Eval

namespace Expr

open Eval Machine

/-- From `before`, an expression ends in `outcome` and leaves `after`. -/
def LeadsTo (before : Machine) (e : Expr) (outcome : Except EvalError Value) (after : Machine) :
    Prop :=
  ∀ fuel, (e.evalWithin fuel).Leads before outcome after

/-- From `before`, expressions one after the other end in `outcome` and leave
`after`. -/
def RunLeadsTo (before : Machine) (last : Value) (items : List Expr)
    (outcome : Except EvalError Value) (after : Machine) : Prop :=
  ∀ fuel, (Eval.sequence (evalWithin fuel) last items).Leads before outcome after

variable {before middle after : Machine} {outcome : Except EvalError Value} {value last : Value}

namespace LeadsTo

theorem of_step {e : Expr}
    (h : ∀ fuel, (Eval.step (evalWithin fuel) e).Leads before outcome after) :
    e.LeadsTo before outcome after := by
  intro fuel
  cases fuel with
  | zero => exact fun start _ => .inl ⟨_, Follows.evalWithin_zero _ start⟩
  | succ fuel => exact (h fuel).ticked

/-- An evaluation that is not ended by its budget ends the same way on any
other. -/
theorem of_run {e : Expr} {fuel : Nat} (hrun : e.evalWithin fuel before = lift outcome after)
    (hgas : outcome ≠ .error .gasExhausted) : e.LeadsTo before outcome after := by
  intro other
  have hfollows : Follows [] (e.evalWithin fuel) (e.evalWithin other) := .refl e fuel other
  exact hfollows.leads hrun hgas (List.forall_mem_nil _)

theorem of_evaluates {e : Expr} {env : Environment}
    (h : ∀ limit, e.Evaluates { before with limit := limit } before.env outcome env) :
    e.LeadsTo before outcome { before with env := env } :=
  fun fuel => .of_ends fun limit => h limit fuel

theorem alike {e : Expr} {other : Machine} (h : e.LeadsTo before outcome after)
    (hother : other.Alike before) : e.LeadsTo other outcome after :=
  fun fuel => (h fuel).alike hother

/-- Assigning what only reads variables. -/
theorem assign {name : String} {e : Expr}
    (h : ∀ limit, e.Evaluates { before with limit := limit } before.env (.ok value) before.env) :
    (Expr.assign name e).LeadsTo before (.ok value) (before.assign name value) :=
  of_evaluates fun limit => evaluates_assign (h limit)

theorem group {items : List Expr} (h : RunLeadsTo before (.bool false) items outcome after) :
    (Expr.group items).LeadsTo before outcome after :=
  of_step h

theorem errcatch {body : List Expr} (h : RunLeadsTo before (.bool false) body (.ok value) after) :
    (Expr.call "errcatch" body).LeadsTo before (.ok (.list [value])) after :=
  of_step fun fuel => (h fuel).trapped

theorem operator {op : BinOp} {left right : Expr} {first second : Value}
    (hop : op.isStrict = true) (hleft : left.LeadsTo before (.ok first) middle)
    (hright : right.LeadsTo middle (.ok second) after)
    (hvalue : Value.applyOperator op first second = .ok value) :
    (Expr.binary op left right).LeadsTo before (.ok value) after := by
  apply of_step
  intro fuel
  rw [step_operator hop]
  apply (hleft fuel).bind
  apply (hright fuel).bind
  rw [hvalue]
  exact .value value (.refl after)

theorem ifThen_skip {test body : Expr} (h : test.LeadsTo before (.ok (.bool false)) after) :
    (Expr.ifThen test body none).LeadsTo before (.ok (.bool false)) after := by
  apply of_step
  intro fuel
  have htest : (Eval.condition (evalWithin fuel) test).Leads before (.ok false) after :=
    (h fuel).bind (.value false (.refl after))
  exact htest.bind (.value _ (.refl after))

/-- A block whose locals start with these values. -/
theorem block {declarations body : List Expr} {bindings : List (String × Value)}
    (hlocals : ∀ limit, Declares { before with limit := limit } before.env declarations bindings)
    (hbody : RunLeadsTo (before.under (.ofList bindings)) (.bool false) body outcome after)
    (hvalue : unwound outcome = .ok value) :
    (Expr.block declarations body).LeadsTo before (.ok value) after.closed := by
  apply of_step
  intro fuel
  have hstart : (Eval.locals (evalWithin fuel) declarations).Leads before (.ok bindings) before :=
    .of_ends fun limit => hlocals limit fuel
  apply hstart.bind
  apply Leads.caught _ hvalue
  apply Leads.within
  rw [Environment.push_defineAll]
  exact hbody fuel

end LeadsTo

namespace RunLeadsTo

theorem cons {e : Expr} {rest : List Expr} (hfirst : e.LeadsTo before (.ok value) middle)
    (hrest : RunLeadsTo middle value rest outcome after) :
    RunLeadsTo before last (e :: rest) outcome after :=
  fun fuel => (hfirst fuel).bind (hrest fuel)

theorem single {e : Expr} (h : e.LeadsTo before (.ok value) after) :
    RunLeadsTo before last [e] (.ok value) after :=
  .cons h fun _ => .value value (.refl after)

theorem of_run {items : List Expr} {env : Environment}
    (h : ∀ limit, Run { before with limit := limit } before.env last items outcome env) :
    RunLeadsTo before last items outcome { before with env := env } :=
  fun fuel => .of_ends fun limit => h limit fuel

end RunLeadsTo

/-- A call of a function without parameters. -/
theorem leads_applyClosure (name : String) {body : Expr}
    (h : body.LeadsTo (before.under .empty) outcome after) (fuel : Nat) :
    (Eval.applyClosure (evalWithin fuel) name ⟨[], body⟩ []).Leads before outcome after.closed := by
  change (Eval.inScope [] (body.evalWithin fuel)).Leads before outcome after.closed
  exact Leads.within (h fuel)

end Expr

namespace Eval

open Machine

variable {α : Type} {before middle after : Machine}

namespace Leads

theorem lifted (outcome : Except EvalError α) : (lift outcome).Leads before outcome before :=
  of_eq (.refl outcome) fun start hstart => ⟨start, hstart, rfl⟩

theorem modified (change : Environment → Environment) :
    (modifyEnv change).Leads before (.ok ()) { before with env := change before.env } :=
  of_eq (.ok ()) fun _ hstart => ⟨_, hstart.changed change, rfl⟩

/-- A block takes in what a `return` inside it brings, and any other error
passes. -/
theorem unwinds {run : Eval Value} {outcome : Except EvalError Value}
    (h : run.Leads before outcome after) :
    (catchReturn run).Leads before (unwound outcome) after := by
  intro start hstart
  rcases h start hstart with ⟨spent, hspent⟩ | ⟨seen, final, hseen, hfinal, hend⟩
  · exact .inl ⟨spent, catchReturn_eq (hspent.trans (lift_error _ _).symm)⟩
  · refine .inr ⟨unwound seen, final, ?_, hfinal, catchReturn_eq hend⟩
    cases hseen with
    | ok value => exact .ok value
    | error herror =>
        rcases herror with rfl | ⟨_, _, rfl, rfl⟩
        · exact .refl _
        · exact .error (.inr ⟨_, _, rfl, rfl⟩)

section Constructs

variable {ev : Expr → Eval Value} {e : Expr} {items : List Expr} {value : Value}
  {values : List Value} {error : EvalError}

theorem all_nil : (Eval.all ev []).Leads before (.ok []) before := lifted (.ok [])

theorem all_cons (hfirst : (ev e).Leads before (.ok value) middle)
    (hrest : (Eval.all ev items).Leads middle (.ok values) after) :
    (Eval.all ev (e :: items)).Leads before (.ok (value :: values)) after :=
  hfirst.bind (hrest.bind (.lifted (.ok _)))

theorem all_error (h : (ev e).Leads before (.error error) after) :
    (Eval.all ev (e :: items)).Leads before (.error error) after :=
  h.bind_error

variable {var : String} {outcome : Except EvalError Unit}

theorem forEach_cons (hround : (ev e).Leads { before with env := before.env.define var value }
      (.ok result) middle)
    (hrest : (forEach ev var e values).Leads middle outcome after) :
    (forEach ev var e (value :: values)).Leads before outcome after :=
  (modified _).bind (hround.bind hrest)

theorem forEach_error (h : (ev e).Leads { before with env := before.env.define var value }
      (.error error) after) :
    (forEach ev var e (value :: values)).Leads before (.error error) after :=
  (modified _).bind h.bind_error

theorem loop (h : (forEach ev var e values).Leads (before.under .empty) outcome after) :
    (Eval.loop ev var e values).Leads before (outcome.map fun _ => .symbol "done")
      after.closed := by
  have hscope : (inScope [] (forEach ev var e values)).Leads before outcome after.closed :=
    within h
  cases outcome with
  | ok => exact hscope.bind (.lifted (.ok _))
  | error error => exact hscope.bind_error

end Constructs

end Leads

end Eval

namespace Expr

open Eval Machine

variable {before middle after : Machine} {e : Expr} {value last : Value} {error : EvalError}
  {outcome : Except EvalError Value}

namespace LeadsTo

/-- Assigning a value, however it was computed. -/
theorem assigned (name : String) (h : e.LeadsTo before (.ok value) after) :
    (Expr.assign name e).LeadsTo before (.ok value) (after.assign name value) :=
  of_step fun fuel => (h fuel).bind ((Leads.modified _).bind (.lifted (.ok value)))

theorem assigned_error (name : String) (h : e.LeadsTo before (.error error) after) :
    (Expr.assign name e).LeadsTo before (.error error) after :=
  of_step fun fuel => (h fuel).bind_error

section Builtins

variable {args : List Expr} {values : List Value} {builtin : Builtin}

theorem step_builtin (builtin : Builtin) (ev : Expr → Eval Value) (args : List Expr) :
    Eval.step ev (.call builtin.name args) = (do
      let values ← Eval.all ev args
      Eval.apply ev builtin.name values) := by
  cases builtin <;> rfl

/-- A builtin that nothing hides, on arguments that may change variables. -/
theorem ofBuiltin (hplain : after.HasBuiltins)
    (hargs : ∀ fuel, (Eval.all (evalWithin fuel) args).Leads before (.ok values) after)
    (hvalue : builtin.apply values = .ok value) :
    (Expr.call builtin.name args).LeadsTo before (.ok value) after := by
  apply of_step
  intro fuel
  rw [step_builtin]
  apply (hargs fuel).bind
  refine .of_eq (.ok value) fun start hstart => ⟨start, hstart, ?_⟩
  rw [Follows.apply_eq_callee]
  unfold Follows.callee
  rw [hstart.hosts, hstart.functions, (hplain builtin).1, (hplain builtin).2]
  simp only [ofName?_name, hvalue]

theorem ofBuiltin_error
    (hargs : ∀ fuel, (Eval.all (evalWithin fuel) args).Leads before (.error error) after) :
    (Expr.call builtin.name args).LeadsTo before (.error error) after := by
  apply of_step
  intro fuel
  rw [step_builtin]
  exact (hargs fuel).bind_error

end Builtins

/-- A counting loop, from its bounds to the end of its rounds. -/
theorem forRange {var : String} {first limit body : Expr} {step : Option Expr}
    {values : List Value} {outcome : Except EvalError Unit}
    (hrange : ∀ budget fuel, Ends { before with limit := budget } before.env
      (Eval.rangeOf (evalWithin fuel) first step limit) (.ok values) before.env)
    (hrounds : ∀ fuel,
      (forEach (evalWithin fuel) var body values).Leads (before.under .empty) outcome after) :
    (Expr.forRange var first step limit body).LeadsTo before
      (outcome.map fun _ => .symbol "done") after.closed := by
  apply of_step
  intro fuel
  have hstart : (Eval.rangeOf (evalWithin fuel) first step limit).Leads before (.ok values)
      before := .of_ends fun budget => hrange budget fuel
  exact hstart.bind (.loop (hrounds fuel))

end LeadsTo

namespace RunLeadsTo

variable {first second : List Expr}

theorem cons_error {rest : List Expr} (h : e.LeadsTo before (.error error) after) :
    RunLeadsTo before last (e :: rest) (.error error) after :=
  fun fuel => (h fuel).bind_error

theorem one (h : e.LeadsTo before outcome after) : RunLeadsTo before last [e] outcome after := by
  cases outcome with
  | ok value => exact single h
  | error error => exact cons_error h

theorem append (hfirst : RunLeadsTo before last first (.ok value) middle)
    (hsecond : RunLeadsTo middle value second outcome after) :
    RunLeadsTo before last (first ++ second) outcome after := by
  intro fuel
  rw [sequence_append]
  exact (hfirst fuel).bind (hsecond fuel)

end RunLeadsTo

/-- From `before`, the declarations of a block start with these values and leave
`after`. -/
def DeclaresTo (before : Machine) (declarations : List Expr) (bindings : List (String × Value))
    (after : Machine) : Prop :=
  ∀ fuel, (Eval.locals (evalWithin fuel) declarations).Leads before (.ok bindings) after

namespace DeclaresTo

variable {rest : List Expr} {bindings : List (String × Value)}

theorem nil : DeclaresTo before [] [] before := fun _ => .lifted (.ok [])

theorem plain (name : String) (hrest : DeclaresTo before rest bindings after) :
    DeclaresTo before (.ident name :: rest) ((name, .symbol name) :: bindings) after :=
  fun fuel => (hrest fuel).bind (.lifted (.ok _))

theorem assigned (name : String) (hvalue : e.LeadsTo before (.ok value) middle)
    (hrest : DeclaresTo middle rest bindings after) :
    DeclaresTo before (.assign name e :: rest) ((name, value) :: bindings) after :=
  fun fuel => (hvalue fuel).bind ((hrest fuel).bind (.lifted (.ok _)))

end DeclaresTo

/-- A block, from its locals to the end of its scope. -/
theorem LeadsTo.scoped {declarations body : List Expr} {bindings : List (String × Value)}
    (hlocals : DeclaresTo before declarations bindings middle)
    (hbody : RunLeadsTo (middle.under (.ofList bindings)) (.bool false) body outcome after) :
    (Expr.block declarations body).LeadsTo before (unwound outcome) after.closed := by
  apply of_step
  intro fuel
  apply (hlocals fuel).bind
  apply Leads.unwinds
  apply Leads.within
  rw [Environment.push_defineAll]
  exact hbody fuel

end Expr

end SceneQuiz
