import SceneQuiz.Machine.Step
/-!
Two runs that do the same, whatever they cost.  A run follows another if, from
the same variables and functions, it ends in the same value or a similar error
and leaves the same variables and functions, unless one of them uses up its
step budget.

Runs may be compared as long as some names stay free of definitions: what is
only true of builtins then need not hold once one of them has been hidden.
-/

namespace SceneQuiz

/-- Errors that are equal, but for the code that an unsupported construct
quotes. -/
def EvalError.Resembles (first second : EvalError) : Prop :=
  first = second ∨
    ∃ cause other, first = .unsupported cause ∧ second = .unsupported other

namespace EvalError.Resembles

variable {first second : EvalError}

theorem refl (error : EvalError) : error.Resembles error := Or.inl rfl

theorem isCatchable (h : first.Resembles second) :
    second.isCatchable = first.isCatchable := by
  rcases h with rfl | ⟨_, _, rfl, rfl⟩ <;> rfl

end EvalError.Resembles

/-- Outcomes with the same value or similar errors. -/
inductive Similar {α : Type} :
    Except EvalError α → Except EvalError α → Prop where
  | ok (value : α) : Similar (.ok value) (.ok value)
  | error {first second : EvalError} (h : first.Resembles second) :
      Similar (.error first) (.error second)

theorem Similar.refl {α : Type} (outcome : Except EvalError α) :
    Similar outcome outcome := by
  cases outcome with
  | ok value => exact .ok value
  | error error => exact .error (.refl error)

namespace Machine

/-- Machines that differ at most in their budgets. -/
structure Alike (first second : Machine) : Prop where
  env : second.env = first.env
  functions : second.functions = first.functions
  hosts : second.hosts = first.hosts

/-- What was callable by a name still is. -/
structure Extends (earlier later : Machine) : Prop where
  hosts : later.hosts = earlier.hosts
  functions : ∀ name, later.functions.get? name = none →
    earlier.functions.get? name = none

/-- The names are neither those of outside functions nor of defined ones. -/
def Lacks (machine : Machine) (names : List String) : Prop :=
  ∀ name ∈ names, machine.hosts.get? name = none ∧
    machine.functions.get? name = none

instance (machine : Machine) (names : List String) :
    Decidable (machine.Lacks names) :=
  inferInstanceAs (Decidable (∀ name ∈ names, machine.hosts.get? name = none ∧
    machine.functions.get? name = none))

variable {first second third : Machine} {names : List String}

theorem Alike.refl (machine : Machine) : machine.Alike machine := ⟨rfl, rfl, rfl⟩

theorem Alike.symm (h : first.Alike second) : second.Alike first :=
  ⟨h.env.symm, h.functions.symm, h.hosts.symm⟩

theorem Alike.trans (hfirst : first.Alike second) (hsecond : second.Alike third) :
    first.Alike third :=
  ⟨hsecond.env.trans hfirst.env, hsecond.functions.trans hfirst.functions,
    hsecond.hosts.trans hfirst.hosts⟩

/-- The same change of variables keeps machines alike. -/
theorem Alike.changed (h : first.Alike second)
    (change : Environment → Environment) :
    { first with env := change first.env }.Alike
      { second with env := change second.env } :=
  ⟨congrArg change h.env, h.functions, h.hosts⟩

theorem Alike.lacks (h : first.Alike second) (hlacks : first.Lacks names) :
    second.Lacks names := by
  intro name hname
  rw [h.hosts, h.functions]
  exact hlacks name hname

theorem Extends.refl (machine : Machine) : machine.Extends machine :=
  ⟨rfl, fun _ h => h⟩

theorem Extends.trans (hfirst : first.Extends second)
    (hsecond : second.Extends third) : first.Extends third :=
  ⟨hsecond.hosts.trans hfirst.hosts,
    fun name h => hfirst.functions name (hsecond.functions name h)⟩

/-- A name that is free in the end has been free all the time. -/
theorem Extends.lacks (h : first.Extends second) (hlacks : second.Lacks names) :
    first.Lacks names := by
  intro name hname
  obtain ⟨hhost, hfunction⟩ := hlacks name hname
  exact ⟨h.hosts ▸ hhost, h.functions name hfunction⟩

end Machine

namespace Eval

variable {α β : Type}

/-- The budget ends the run. -/
def Exhausts (run : Eval α) (machine : Machine) : Prop :=
  ∃ spent, run machine = .error .gasExhausted spent

/-- From a machine like `before`, a run ends as `outcome` says in a machine like
`after`, unless its budget ends it first. -/
def Leads (run : Eval α) (before : Machine) (outcome : Except EvalError α)
    (after : Machine) : Prop :=
  ∀ start, before.Alike start → run.Exhausts start ∨
    ∃ seen final, Similar outcome seen ∧ after.Alike final ∧
      run start = lift seen final

theorem exists_eq_lift (result : EStateM.Result EvalError Machine α) :
    ∃ outcome after, result = lift outcome after := by
  cases result with
  | ok value after => exact ⟨.ok value, after, rfl⟩
  | error error after => exact ⟨.error error, after, rfl⟩

/-- The machine that a run leaves, however it ends. -/
def machineAfter : EStateM.Result EvalError Machine α → Machine
  | .ok _ after | .error _ after => after

@[simp] theorem machineAfter_lift (outcome : Except EvalError α) (machine : Machine) :
    machineAfter (lift outcome machine) = machine := by
  cases outcome <;> rfl

theorem bind_ok {run : Eval α} {next : α → Eval β} {before middle : Machine}
    {value : α} (h : run before = .ok value middle) :
    (run >>= next) before = next value middle := by
  change EStateM.bind run next before = _
  simp [EStateM.bind, h]

theorem bind_failed {run : Eval α} {next : α → Eval β} {before after : Machine}
    {error : EvalError} (h : run before = .error error after) :
    (run >>= next) before = .error error after := by
  change EStateM.bind run next before = _
  simp [EStateM.bind, h]

theorem lift_ok (value : α) (machine : Machine) :
    lift (.ok value) machine = .ok value machine := rfl

theorem lift_error (error : EvalError) (machine : Machine) :
    (lift (.error error) : Eval α) machine = .error error machine := rfl

theorem lift_injective {outcome other : Except EvalError α}
    {after final : Machine} (h : lift outcome after = lift other final) :
    outcome = other ∧ after = final := by
  cases outcome <;> cases other <;> simp_all [lift]

/-- What two runs one after the other can end in. -/
theorem bind_cases {run : Eval α} {next : α → Eval β} {before after : Machine}
    {outcome : Except EvalError β} (h : (run >>= next) before = lift outcome after) :
    (∃ value middle, run before = .ok value middle ∧
      next value middle = lift outcome after) ∨
    ∃ error, run before = .error error after ∧ outcome = .error error := by
  cases hrun : run before with
  | ok value middle =>
      exact Or.inl ⟨value, middle, rfl, (bind_ok hrun).symm.trans h⟩
  | error error middle =>
      have hsame : lift (.error error) middle = lift outcome after :=
        (bind_failed hrun).symm.trans h
      obtain ⟨rfl, rfl⟩ := lift_injective hsame
      exact Or.inr ⟨error, rfl, rfl⟩

/-- How a run in a scope of its own ends. -/
theorem inScope_eq {run : Eval α} {bindings : List (String × Value)}
    {before after : Machine} {outcome : Except EvalError α}
    (h : run { before with env := before.env.push.defineAll bindings } =
      lift outcome after) :
    inScope bindings run before =
      lift outcome { after with env := after.env.pop } := by
  rw [inScope, h]
  cases outcome <;> rfl

/-- A step is counted; it may be the one that uses up the budget. -/
theorem tick_cases (machine : Machine) :
    tick machine = .ok () { machine with gas := machine.gas + 1 } ∨
      tick machine =
        .error .gasExhausted { machine with gas := machine.gas + 1 } := by
  by_cases hover : machine.limit < machine.gas + 1
  · exact Or.inr (by simp [tick, hover])
  · exact Or.inl (by simp [tick, hover])

namespace Leads

variable {before middle after : Machine}

theorem of_eq {run : Eval α} {outcome seen : Except EvalError α}
    (hsimilar : Similar outcome seen)
    (h : ∀ start, before.Alike start →
      ∃ final, after.Alike final ∧ run start = lift seen final) :
    run.Leads before outcome after := by
  intro start hstart
  obtain ⟨final, hfinal, hrun⟩ := h start hstart
  exact Or.inr ⟨seen, final, hsimilar, hfinal, hrun⟩

theorem alike {run : Eval α} {outcome : Except EvalError α} {other : Machine}
    (h : run.Leads before outcome after) (hother : other.Alike before) :
    run.Leads other outcome after :=
  fun start hstart => h start (hother.symm.trans hstart)

theorem bind {run : Eval α} {next : α → Eval β} {value : α}
    {outcome : Except EvalError β} (hrun : run.Leads before (.ok value) middle)
    (hnext : (next value).Leads middle outcome after) :
    (run >>= next).Leads before outcome after := by
  intro start hstart
  rcases hrun start hstart with ⟨spent, hgas⟩ | ⟨_, final, ⟨⟩, hfinal, hend⟩
  · exact Or.inl ⟨spent, bind_failed hgas⟩
  · rcases hnext final hfinal with ⟨spent, hgas⟩ | ⟨seen, last, hseen, hlast, hrest⟩
    · exact Or.inl ⟨spent, (bind_ok hend).trans hgas⟩
    · exact Or.inr ⟨seen, last, hseen, hlast, (bind_ok hend).trans hrest⟩

theorem bind_error {run : Eval α} {next : α → Eval β} {error : EvalError}
    (hrun : run.Leads before (.error error) after) :
    (run >>= next).Leads before (.error error) after := by
  intro start hstart
  rcases hrun start hstart with ⟨spent, hgas⟩ | ⟨seen, final, hseen, hfinal, hend⟩
  · exact Or.inl ⟨spent, bind_failed hgas⟩
  · cases hseen with
    | error herror =>
        exact Or.inr ⟨_, final, .error herror, hfinal, bind_failed hend⟩

theorem value (value : α) (halike : before.Alike after) :
    Leads (pure value) before (.ok value) after :=
  of_eq (.ok value) fun start hstart => ⟨start, halike.symm.trans hstart, rfl⟩

theorem ticked {run : Eval α} {outcome : Except EvalError α}
    (h : run.Leads before outcome after) :
    Leads (do tick; run) before outcome after := by
  intro start hstart
  rcases tick_cases start with htick | htick
  · have hstep : before.Alike { start with gas := start.gas + 1 } :=
      hstart.trans ⟨rfl, rfl, rfl⟩
    rcases h _ hstep with ⟨spent, hgas⟩ | ⟨seen, final, hseen, hfinal, hend⟩
    · exact Or.inl ⟨spent, (bind_ok htick).trans hgas⟩
    · exact Or.inr ⟨seen, final, hseen, hfinal, (bind_ok htick).trans hend⟩
  · exact Or.inl ⟨_, bind_failed htick⟩

end Leads

/-- The run `right` ends like `left` unless one of them is ended by its budget,
as long as the names stay free.  Whatever `left` does, it hides nothing that was
callable. -/
structure Follows (names : List String) (left right : Eval α) : Prop where
  grows : ∀ {before outcome after}, left before = lift outcome after →
    before.Extends after
  leads : ∀ {before outcome after}, left before = lift outcome after →
    outcome ≠ .error .gasExhausted → after.Lacks names →
      right.Leads before outcome after

namespace Follows

variable {names : List String}

/-- Runs that end the same way wherever they start, after the same change. -/
theorem changed {left right : Eval α} {outcome seen : Except EvalError α}
    {change : Machine → Machine} (hsimilar : Similar outcome seen)
    (hleft : ∀ machine, left machine = lift outcome (change machine))
    (hright : ∀ machine, right machine = lift seen (change machine))
    (hextends : ∀ machine : Machine, machine.Extends (change machine))
    (halike : ∀ {first second : Machine}, first.Alike second →
      (change first).Alike (change second)) :
    Follows names left right where
  grows {before _ _} h := by
    obtain ⟨-, rfl⟩ := lift_injective ((hleft before).symm.trans h)
    exact hextends before
  leads {before _ _} h _ _ := by
    obtain ⟨rfl, rfl⟩ := lift_injective ((hleft before).symm.trans h)
    exact .of_eq hsimilar fun start hstart => ⟨_, halike hstart, hright start⟩

/-- A computation on values alone follows itself. -/
theorem lifted (outcome : Except EvalError α) :
    Follows names (lift outcome) (lift outcome) :=
  changed (.refl outcome) (fun _ => rfl) (fun _ => rfl) .refl fun h => h

theorem value (value : α) : Follows names (pure value) (pure value) :=
  lifted (.ok value)

theorem failed {first second : EvalError} (h : first.Resembles second) :
    Follows names (throw first : Eval α) (throw second) :=
  changed (.error h) (fun _ => rfl) (fun _ => rfl) .refl fun h => h

theorem modified (change : Environment → Environment) :
    Follows names (modifyEnv change) (modifyEnv change) :=
  changed (.ok ()) (fun _ => rfl) (fun _ => rfl) (fun _ => ⟨rfl, fun _ h => h⟩)
    fun h => h.changed change

/-- Storing a function hides none. -/
theorem defined (name : String) (function : Closure) :
    Follows names (defineFunction name function)
      (defineFunction name function) := by
  refine changed (.ok ()) (fun _ => rfl) (fun _ => rfl)
    (fun machine => ⟨rfl, fun other hother => ?_⟩) fun h => ?_
  · rw [NameMap.get?_insert] at hother
    split at hother
    · cases hother
    · exact hother
  · exact ⟨h.env, congrArg (·.insert name function) h.functions, h.hosts⟩

/-- Runs that may look at their machine first. -/
theorem of_looks {left right : Eval α}
    (h : ∀ machine, ∃ first second, Follows names first second ∧
      left machine = first machine ∧
        ∀ start, machine.Alike start → right start = second start) :
    Follows names left right where
  grows {before _ _} hrun := by
    obtain ⟨first, _, hfollows, hleft, -⟩ := h before
    exact hfollows.grows (hleft ▸ hrun)
  leads {before _ _} hrun hgas hlacks := by
    obtain ⟨first, second, hfollows, hleft, hright⟩ := h before
    intro start hstart
    rcases hfollows.leads (hleft ▸ hrun) hgas hlacks start hstart with
      ⟨spent, hspent⟩ | ⟨seen, final, hseen, hfinal, hend⟩
    · exact Or.inl ⟨spent, (hright start hstart).trans hspent⟩
    · exact Or.inr ⟨seen, final, hseen, hfinal, (hright start hstart).trans hend⟩

theorem read (name : String) : Follows names (readName name) (readName name) := by
  refine of_looks fun machine =>
    ⟨pure ((machine.env.get? name).getD (.symbol name)),
      pure ((machine.env.get? name).getD (.symbol name)), value _, rfl, ?_⟩
  intro start hstart
  rw [← hstart.env]
  rfl

theorem bind {left right : Eval α} {next other : α → Eval β}
    (hfirst : Follows names left right)
    (hnext : ∀ value, Follows names (next value) (other value)) :
    Follows names (left >>= next) (right >>= other) where
  grows h := by
    rcases bind_cases h with ⟨value, middle, hrun, hrest⟩ | ⟨error, hrun, -⟩
    · exact (hfirst.grows (hrun.trans (lift_ok value middle).symm)).trans
        ((hnext value).grows hrest)
    · exact hfirst.grows (hrun.trans (lift_error error _).symm)
  leads h hgas hlacks := by
    rcases bind_cases h with ⟨value, middle, hrun, hrest⟩ | ⟨error, hrun, rfl⟩
    · have hmiddle := ((hnext value).grows hrest).lacks hlacks
      have hvalue := hfirst.leads (hrun.trans (lift_ok value middle).symm)
        (by simp) hmiddle
      exact hvalue.bind ((hnext value).leads hrest hgas hlacks)
    · refine (hfirst.leads (hrun.trans (lift_error error _).symm) ?_ hlacks).bind_error
      rintro ⟨⟩
      exact hgas rfl

theorem ticked {left right : Eval α} (h : Follows names left right) :
    Follows names (do tick; left) (do tick; right) where
  grows {before _ _} hrun := by
    rcases tick_cases before with htick | htick
    · have hstep : before.Extends { before with gas := before.gas + 1 } :=
        ⟨rfl, fun _ h => h⟩
      exact hstep.trans (h.grows ((bind_ok htick).symm.trans hrun))
    · obtain ⟨-, rfl⟩ := lift_injective
        ((lift_error .gasExhausted _).trans ((bind_failed htick).symm.trans hrun))
      exact ⟨rfl, fun _ h => h⟩
  leads {before _ _} hrun hgas hlacks := by
    rcases tick_cases before with htick | htick
    · have hstep : before.Alike { before with gas := before.gas + 1 } :=
        ⟨rfl, rfl, rfl⟩
      exact ((h.leads ((bind_ok htick).symm.trans hrun) hgas hlacks).alike
        hstep).ticked
    · obtain ⟨rfl, -⟩ := lift_injective
        ((lift_error .gasExhausted _).trans ((bind_failed htick).symm.trans hrun))
      exact absurd rfl hgas

/-- A scope is closed however the runs inside it end. -/
theorem within {left right : Eval α} (h : Follows names left right)
    (bindings : List (String × Value)) :
    Follows names (inScope bindings left) (inScope bindings right) where
  grows {before _ _} hrun := by
    obtain ⟨outcome, inner, hinner⟩ := exists_eq_lift
      (left { before with env := before.env.push.defineAll bindings })
    have hgrows := h.grows hinner
    obtain ⟨-, rfl⟩ := lift_injective ((inScope_eq hinner).symm.trans hrun)
    exact ⟨hgrows.hosts, hgrows.functions⟩
  leads {before _ _} hrun hgas hlacks := by
    obtain ⟨outcome, inner, hinner⟩ := exists_eq_lift
      (left { before with env := before.env.push.defineAll bindings })
    obtain ⟨rfl, rfl⟩ := lift_injective ((inScope_eq hinner).symm.trans hrun)
    intro start hstart
    rcases h.leads hinner hgas hlacks _
      (hstart.changed fun env => env.push.defineAll bindings) with
      ⟨spent, hspent⟩ | ⟨seen, final, hseen, hfinal, hend⟩
    · exact Or.inl ⟨{ spent with env := spent.env.pop }, by simp [inScope, hspent]⟩
    · exact Or.inr ⟨seen, { final with env := final.env.pop }, hseen,
        hfinal.changed _, inScope_eq hend⟩

/-- Runs whose outcomes are passed through the same handler. -/
theorem handled {left right : Eval α} {wrapped other : Eval β}
    (handler : Except EvalError α → Except EvalError β)
    (hwrapped : ∀ before outcome after, left before = lift outcome after →
      wrapped before = lift (handler outcome) after)
    (hother : ∀ before outcome after, right before = lift outcome after →
      other before = lift (handler outcome) after)
    (hsimilar : ∀ {outcome seen}, Similar outcome seen →
      Similar (handler outcome) (handler seen))
    (hpasses : handler (.error .gasExhausted) = .error .gasExhausted)
    (h : Follows names left right) : Follows names wrapped other where
  grows {before _ _} hrun := by
    obtain ⟨outcome, after, hinner⟩ := exists_eq_lift (left before)
    obtain ⟨-, rfl⟩ := lift_injective ((hwrapped _ _ _ hinner).symm.trans hrun)
    exact h.grows hinner
  leads {before _ _} hrun hgas hlacks := by
    obtain ⟨outcome, after, hinner⟩ := exists_eq_lift (left before)
    obtain ⟨rfl, rfl⟩ := lift_injective ((hwrapped _ _ _ hinner).symm.trans hrun)
    have houtcome : outcome ≠ .error .gasExhausted := fun hbad =>
      hgas (hbad ▸ hpasses)
    intro start hstart
    rcases h.leads hinner houtcome hlacks start hstart with
      ⟨spent, hspent⟩ | ⟨seen, final, hseen, hfinal, hend⟩
    · refine Or.inl ⟨spent, ?_⟩
      rw [hother _ (.error .gasExhausted) _ hspent, hpasses]
      rfl
    · exact Or.inr ⟨_, final, hsimilar hseen, hfinal, hother _ _ _ hend⟩

end Follows

/-- An outcome after a `return` has been turned into a value. -/
def unwound : Except EvalError Value → Except EvalError Value
  | .error (.returned value) => .ok value
  | outcome => outcome

/-- An outcome after `errcatch`. -/
def trappedOutcome : Except EvalError Value → Except EvalError Value
  | .ok value => .ok (.list [value])
  | .error error => if error.isCatchable then .ok (.list []) else .error error

theorem catchReturn_eq {run : Eval Value} {before after : Machine}
    {outcome : Except EvalError Value} (h : run before = lift outcome after) :
    catchReturn run before = lift (unwound outcome) after := by
  rw [catchReturn, h]
  rcases outcome with error | value
  · cases error <;> rfl
  · rfl

theorem trapped_eq {ev : Expr → Eval Value} {body : List Expr} {before after : Machine}
    {outcome : Except EvalError Value}
    (h : sequence ev (.bool false) body before = lift outcome after) :
    trapped ev body before = lift (trappedOutcome outcome) after := by
  rw [trapped, h]
  cases outcome with
  | ok value => rfl
  | error error => cases hcatch : error.isCatchable <;>
      simp [lift, trappedOutcome, hcatch]

namespace Follows

variable {names : List String}

theorem caught {left right : Eval Value} (h : Follows names left right) :
    Follows names (catchReturn left) (catchReturn right) := by
  refine handled unwound (fun _ _ _ => catchReturn_eq) (fun _ _ _ => catchReturn_eq) ?_ rfl h
  intro outcome seen hsimilar
  cases hsimilar with
  | ok value => exact .ok value
  | error herror =>
      rcases herror with rfl | ⟨cause, other, rfl, rfl⟩
      · exact .refl _
      · exact .error (Or.inr ⟨cause, other, rfl, rfl⟩)

theorem trapped {ev other : Expr → Eval Value} {body code : List Expr}
    (h : Follows names (sequence ev (.bool false) body)
      (sequence other (.bool false) code)) :
    Follows names (Eval.trapped ev body) (Eval.trapped other code) := by
  refine handled trappedOutcome (fun _ _ _ => trapped_eq) (fun _ _ _ => trapped_eq) ?_ rfl h
  intro outcome seen hsimilar
  cases hsimilar with
  | ok value => exact .refl _
  | @error first second herror =>
      cases hcatch : first.isCatchable with
      | true =>
          simp only [trappedOutcome, herror.isCatchable, hcatch, if_true]
          exact .refl _
      | false =>
          simp only [trappedOutcome, herror.isCatchable, hcatch,
            Bool.false_eq_true, if_false]
          exact .error herror

end Follows

end Eval

end SceneQuiz
