import SceneQuiz.Proofs.Machine.Congruence
import SceneQuiz.Proofs.Machine.Trappable
/-!
The step budget.  Nothing but the count of steps ever meets the budget, and no
construct takes in that it is used up.  A run that the budget does not end
therefore does the same under a larger one, and a run that it ends has taken
exactly one step too many.

Nested evaluations are steps, so none is nested deeper than there are steps
left.  Evaluation unrolled to that depth is evaluation, whatever stands below.
-/

namespace SceneQuiz

namespace Machine

/-- No outside function ends as if the budget were used up. -/
def HostsKeepBudget (machine : Machine) : Prop :=
  ∀ name host, machine.hosts.get? name = some host → ∀ args, host args ≠ .error .gasExhausted

/-- With a larger budget. -/
def granted (extra : Nat) (machine : Machine) : Machine :=
  { machine with limit := machine.limit + extra }

/-- The budget is not used up, and what is left of it is less than `depth`. -/
structure Solvent (depth : Nat) (machine : Machine) : Prop where
  within : machine.gas ≤ machine.limit
  shallow : machine.limit < machine.gas + depth
  hosts : machine.HostsKeepBudget

/-- What a run may do to the count of steps, which says whether the budget ended
the run. -/
structure Spends (exhausted : Prop) (before after : Machine) : Prop where
  limit : after.limit = before.limit
  hosts : after.hosts = before.hosts
  counted : before.gas ≤ after.gas
  beyond : exhausted → after.gas = before.limit + 1
  within : ¬ exhausted → after.gas ≤ before.limit

variable {depth : Nat} {exhausted : Prop} {before middle after : Machine}

theorem Solvent.changed (h : before.Solvent depth) (env : Environment)
    (functions : NameMap Closure) :
    { before with env := env, functions := functions }.Solvent depth :=
  ⟨h.within, h.shallow, h.hosts⟩

theorem Spends.of_within (h : before.Solvent depth) (hexhausted : ¬ exhausted) (env : Environment)
    (functions : NameMap Closure) :
    Spends exhausted before { before with env := env, functions := functions } :=
  ⟨rfl, rfl, Nat.le_refl _, fun h => absurd h hexhausted, fun _ => h.within⟩

theorem Spends.trans (hfirst : Spends False before middle)
    (hsecond : Spends exhausted middle after) :
    Spends exhausted before after where
  limit := hsecond.limit.trans hfirst.limit
  hosts := hsecond.hosts.trans hfirst.hosts
  counted := Nat.le_trans hfirst.counted hsecond.counted
  beyond h := hfirst.limit ▸ hsecond.beyond h
  within h := hfirst.limit ▸ hsecond.within h

/-- A run that the budget did not end may be followed by another one. -/
theorem Spends.solvent (h : Spends False before after) (hsolvent : before.Solvent depth) :
    after.Solvent depth := by
  have hwithin := h.within id
  have hshallow := hsolvent.shallow
  have hcounted := h.counted
  refine ⟨h.limit ▸ hwithin, ?_, ?_⟩
  · rw [h.limit]
    omega
  · rw [HostsKeepBudget, h.hosts]
    exact hsolvent.hosts

end Machine

namespace Eval

open Machine

variable {α β : Type} {extra depth : Nat}

theorem tick_of_lt {machine : Machine} (h : machine.gas < machine.limit) :
    tick machine = .ok () { machine with gas := machine.gas + 1 } := by
  simp [tick, Nat.not_lt.mpr h]

theorem tick_of_ge {machine : Machine} (h : machine.limit ≤ machine.gas) :
    tick machine = .error .gasExhausted { machine with gas := machine.gas + 1 } := by
  simp [tick, Nat.lt_succ_of_le h]

/-- The run counts its steps against the budget, down to `depth`.  With `extra`
more steps to take, `other` does the same unless the budget ended the run. -/
structure Metered (extra depth : Nat) (run other : Eval α) : Prop where
  ends : ∀ {before outcome after}, before.Solvent depth → run before = lift outcome after →
    Spends (outcome = .error .gasExhausted) before after ∧
      (extra = 0 ∨ outcome ≠ .error .gasExhausted →
        other (before.granted extra) = lift outcome (after.granted extra))

namespace Metered

theorem lifted {outcome : Except EvalError α} (h : outcome ≠ .error .gasExhausted) :
    Metered extra depth (lift outcome) (lift outcome) := by
  constructor
  intro before found after hsolvent hrun
  obtain ⟨rfl, rfl⟩ := lift_injective hrun
  exact ⟨.of_within hsolvent h before.env before.functions, fun _ => rfl⟩

theorem value (value : α) : Metered extra depth (pure value) (pure value) := by
  change Metered extra depth (lift (.ok value)) (lift (.ok value))
  exact lifted nofun

theorem failed {error : EvalError} (h : error ≠ .gasExhausted) :
    Metered extra depth (throw error : Eval α) (throw error) := by
  change Metered extra depth (lift (.error error)) (lift (.error error))
  exact lifted fun heq => h (Except.error.inj heq)

theorem bind {run other : Eval α} {next more : α → Eval β} (hrun : Metered extra depth run other)
    (hnext : ∀ value, Metered extra depth (next value) (more value)) :
    Metered extra depth (run >>= next) (other >>= more) := by
  constructor
  intro before outcome after hsolvent hboth
  rcases bind_cases hboth with ⟨value, middle, hfirst, hrest⟩ | ⟨error, hfirst, rfl⟩
  · obtain ⟨hspent, hagain⟩ := hrun.ends hsolvent (hfirst.trans (lift_ok _ _).symm)
    have hspends : Spends False before middle := by simpa using hspent
    obtain ⟨hlast, hmore⟩ := (hnext value).ends (hspends.solvent hsolvent) hrest
    exact ⟨hspends.trans hlast, fun h => (bind_ok (hagain (.inr nofun))).trans (hmore h)⟩
  · obtain ⟨hspends, hagain⟩ := hrun.ends hsolvent (hfirst.trans (lift_error _ _).symm)
    simp only [ne_eq, Except.error.injEq] at hspends hagain ⊢
    exact ⟨hspends, fun h => bind_failed (hagain h)⟩

/-- Runs that may look at their machine first. -/
theorem of_looks {run other : Eval α}
    (h : ∀ machine : Machine, machine.HostsKeepBudget → ∃ first second : Eval α,
      Metered extra depth first second ∧ run machine = first machine ∧
        other (machine.granted extra) = second (machine.granted extra)) :
    Metered extra depth run other := by
  constructor
  intro before outcome after hsolvent hrun
  obtain ⟨first, second, hmetered, hfirst, hsecond⟩ := h before hsolvent.hosts
  rw [hsecond]
  exact hmetered.ends hsolvent (hfirst ▸ hrun)

theorem read (name : String) : Metered extra depth (readName name) (readName name) :=
  of_looks fun machine _ =>
    ⟨pure ((machine.env.get? name).getD (.symbol name)),
      pure ((machine.env.get? name).getD (.symbol name)), value _, rfl, rfl⟩

theorem modified (change : Environment → Environment) :
    Metered extra depth (modifyEnv change) (modifyEnv change) := by
  constructor
  intro before outcome after hsolvent hrun
  obtain ⟨rfl, rfl⟩ := lift_injective ((lift_ok () _).trans hrun)
  exact ⟨.of_within hsolvent nofun (change before.env) before.functions, fun _ => rfl⟩

theorem defined (name : String) (function : Closure) :
    Metered extra depth (defineFunction name function) (defineFunction name function) := by
  constructor
  intro before outcome after hsolvent hrun
  obtain ⟨rfl, rfl⟩ := lift_injective ((lift_ok () _).trans hrun)
  exact ⟨.of_within hsolvent nofun before.env (before.functions.insert name function),
    fun _ => rfl⟩

/-- A step, after which less is left of the budget. -/
theorem ticked {run other : Eval α} (h : Metered extra depth run other) :
    Metered extra (depth + 1) (do tick; run) (do tick; other) := by
  constructor
  rintro before outcome after ⟨hwithin, hshallow, hhosts⟩ hrun
  rcases Nat.lt_or_ge before.gas before.limit with hroom | hover
  · rw [bind_ok (tick_of_lt hroom)] at hrun
    have hcounted : { before with gas := before.gas + 1 }.Solvent depth :=
      ⟨hroom, by dsimp only; omega, hhosts⟩
    obtain ⟨hspends, hagain⟩ := h.ends hcounted hrun
    have hmore : (before.granted extra).gas < (before.granted extra).limit :=
      Nat.lt_add_right extra hroom
    refine ⟨⟨hspends.limit, hspends.hosts, Nat.le_of_succ_le hspends.counted, hspends.beyond,
      hspends.within⟩, fun hcondition => ?_⟩
    exact (bind_ok (tick_of_lt hmore)).trans (hagain hcondition)
  · rw [bind_failed (tick_of_ge hover)] at hrun
    obtain ⟨rfl, rfl⟩ := lift_injective ((lift_error .gasExhausted _).trans hrun)
    refine ⟨⟨rfl, rfl, Nat.le_succ _, fun _ => ?_, fun h => absurd rfl h⟩, ?_⟩
    · exact congrArg (· + 1) (Nat.le_antisymm hwithin hover)
    · rintro (rfl | hne)
      · exact bind_failed (tick_of_ge hover)
      · exact absurd rfl hne

/-- A scope is opened and closed at no cost. -/
theorem within {run other : Eval α} (h : Metered extra depth run other)
    (bindings : List (String × Value)) :
    Metered extra depth (inScope bindings run) (inScope bindings other) := by
  constructor
  intro before outcome after hsolvent hrun
  obtain ⟨found, last, hfound⟩ :=
    exists_eq_lift (run { before with env := before.env.push.defineAll bindings })
  obtain ⟨rfl, rfl⟩ := lift_injective ((inScope_eq hfound).symm.trans hrun)
  obtain ⟨hspends, hagain⟩ := h.ends (hsolvent.changed _ before.functions) hfound
  refine ⟨⟨hspends.limit, hspends.hosts, hspends.counted, hspends.beyond, hspends.within⟩,
    fun hcondition => ?_⟩
  exact (inScope_eq (hagain hcondition) : inScope bindings other (before.granted extra) = _)

/-- A handler of outcomes that does not take in the end of the budget. -/
theorem handled {run other : Eval α} {wrapped rewrapped : Eval β}
    (handler : Except EvalError α → Except EvalError β)
    (hwrapped : ∀ {before outcome after}, run before = lift outcome after →
      wrapped before = lift (handler outcome) after)
    (hrewrapped : ∀ {before outcome after}, other before = lift outcome after →
      rewrapped before = lift (handler outcome) after)
    (hpasses : ∀ outcome, handler outcome = .error .gasExhausted ↔ outcome = .error .gasExhausted)
    (h : Metered extra depth run other) : Metered extra depth wrapped rewrapped := by
  constructor
  intro before outcome after hsolvent hrun
  obtain ⟨found, last, hfound⟩ := exists_eq_lift (run before)
  obtain ⟨rfl, rfl⟩ := lift_injective ((hwrapped hfound).symm.trans hrun)
  obtain ⟨hspends, hagain⟩ := h.ends hsolvent hfound
  rw [ne_eq, hpasses]
  exact ⟨hspends, fun hcondition => hrewrapped (hagain hcondition)⟩

theorem caught {run other : Eval Value} (h : Metered extra depth run other) :
    Metered extra depth (catchReturn run) (catchReturn other) := by
  refine handled unwound catchReturn_eq catchReturn_eq ?_ h
  rintro (error | found)
  · cases error <;> simp [unwound]
  · simp [unwound]

section Constructs

variable {ev other : Expr → Eval Value}

theorem trapped {body code : List Expr}
    (h : Metered extra depth (Eval.sequence ev (.bool false) body)
      (Eval.sequence other (.bool false) code)) :
    Metered extra depth (Eval.trapped ev body) (Eval.trapped other code) := by
  refine handled trappedOutcome trapped_eq trapped_eq ?_ h
  rintro (error | found)
  · cases error <;> simp [trappedOutcome, EvalError.isCatchable]
  · simp [trappedOutcome]

theorem compositional : Compositional fun {_} run other => Metered extra depth run other where
  lifted h := lifted h.ne_gasExhausted
  bind := bind
  trapped := trapped

variable (h : ∀ e, Metered extra depth (ev e) (other e))

include h

theorem sequence (items : List Expr) (last : Value) :
    Metered extra depth (Eval.sequence ev last items) (Eval.sequence other last items) := by
  have hitems := compositional.sequence other (fun e => e) (fun e (_ : e ∈ items) => h e) last
  rwa [List.map_id'] at hitems

theorem locals (declarations : List Expr) :
    Metered extra depth (Eval.locals ev declarations) (Eval.locals other declarations) := by
  induction declarations with
  | nil => exact value []
  | cons e rest ih =>
      cases hlocal : e.isLocal with
      | true =>
          rcases Expr.exists_of_isLocal hlocal with ⟨name, rfl⟩ | ⟨name, right, rfl⟩
          · exact ih.bind fun others => value _
          · exact (h right).bind fun start => ih.bind fun others => value _
      | false =>
          obtain ⟨cause, hrefused⟩ := Follows.locals_refused hlocal rest
          rw [hrefused, hrefused]
          exact failed nofun

theorem block (args : List Expr) :
    Metered extra depth (Eval.block ev args) (Eval.block other args) := by
  unfold Eval.block
  split
  · exact value _
  · next declarations body =>
      exact (locals h declarations).bind fun bindings =>
        ((sequence h body _).within bindings).caught
  · exact ((sequence h args _).within []).caught

theorem apply (name : String) (args : List Value) :
    Metered extra depth (Eval.apply ev name args) (Eval.apply other name args) := by
  apply of_looks
  intro machine hhosts
  refine ⟨Follows.callee ev name args machine, Follows.callee other name args machine,
    ?_, rfl, rfl⟩
  unfold Follows.callee
  cases hhost : machine.hosts.get? name with
  | some host => exact lifted (hhosts name host hhost args)
  | none =>
      cases machine.functions.get? name with
      | some function =>
          dsimp only
          unfold applyClosure
          split
          · exact (h function.body).within _
          · exact failed nofun
      | none =>
          cases Builtin.ofName? name with
          | some builtin => exact lifted (builtin.trappable_apply args).ne_gasExhausted
          | none => exact failed nofun

theorem assignment (target source : Expr) :
    Metered extra depth (Eval.assignment ev target source)
      (Eval.assignment other target source) := by
  unfold Eval.assignment
  split
  · exact (h source).bind fun found => (modified _).bind fun _ => value found
  · exact failed nofun

omit h in
theorem definition (target body : Expr) :
    Metered extra depth (Eval.definition target body) (Eval.definition target body) := by
  unfold Eval.definition
  split
  · next name params =>
      apply (lifted (trappable_paramNames params).ne_gasExhausted).bind
      intro names
      exact (defined name ⟨names, body⟩).bind fun _ => value _
  · exact failed nofun

/-- One level of evaluation is metered if the parts are. -/
theorem step (e : Expr) : Metered extra depth (Eval.step ev e) (Eval.step other e) := by
  by_cases hroutine : e.isRoutine = true
  · have hstep := compositional.routine other (fun part => part) hroutine
      (fun part _ => h part) (apply h)
    rwa [Expr.mapParts_id] at hstep
  have hloop : ∀ var body values,
      Metered extra depth (Eval.loop ev var body values) (Eval.loop other var body values) :=
    fun var body => compositional.loop other (fun e => e) (fun hrun => hrun.within [])
      (fun _ => modified _) (h body)
  cases e with
  | ident name => exact read name
  | quote => exact value _
  | call name args =>
      by_cases hblock : name = "block"
      · subst hblock
        exact block h args
      · have hreturn : name = "return" := by simpa [Expr.isRoutine, hblock] using hroutine
        subst hreturn
        have hreturns : ∀ found, Metered extra depth (throw (.returned found) : Eval Value)
            (throw (.returned found)) := by
          intro found
          apply failed
          rintro ⟨⟩
        have hleave := compositional.leave other (fun e => e) hreturns fun e (_ : e ∈ args) => h e
        rwa [List.map_id'] at hleave
  | binary op left right =>
      cases op with
      | assign => exact assignment h left right
      | define => exact definition left right
      | _ => exact absurd rfl hroutine
  | forIn var source body =>
      exact (compositional.members other (fun e => e) (h source)).bind fun values =>
        hloop var body values
  | forRange var first width last body =>
      have hrange := compositional.rangeOf other (fun e => e) (h first)
        (fun e (_ : e ∈ width) => h e) (h last)
      rw [Option.map_id'] at hrange
      exact hrange.bind fun values => hloop var body values
  | _ => exact absurd rfl hroutine

end Constructs

end Metered

end Eval

namespace Expr

open Eval Machine

/-- Evaluation whose nested evaluations are written out to a depth, with
`bottom` in the place of those that are nested deeper. -/
def unrolled (bottom : Expr → Eval Value) : Nat → Expr → Eval Value
  | 0, e => bottom e
  | depth + 1, e => do
      Eval.tick
      Eval.step (unrolled bottom depth) e

/-- By induction on the fuel: a level takes a step, so that the levels below it
have less of the budget to use.  Where none is left, nothing is nested. -/
theorem metered_evalWithin (bottom : Expr → Eval Value) (extra : Nat) {fuel depth : Nat}
    (hdepth : fuel ≤ depth) (e : Expr) :
    Metered extra (fuel + 1) (e.evalWithin fuel) (e.unrolled bottom (depth + 1)) := by
  induction fuel generalizing depth e with
  | zero =>
      have hbroke : Metered extra 0 (throw .gasExhausted)
          (Eval.step (unrolled bottom depth) e) := by
        constructor
        rintro before outcome after ⟨hwithin, hshallow, -⟩
        omega
      exact hbroke.ticked
  | succ fuel ih =>
      obtain ⟨below, rfl⟩ : ∃ below, depth = below + 1 := ⟨depth - 1, by omega⟩
      exact (Metered.step (fun part => ih (by omega) part) e).ticked

variable {e : Expr} {machine : Machine}

theorem solvent_remaining (hgas : machine.gas ≤ machine.limit)
    (hhosts : machine.HostsKeepBudget) : machine.Solvent (machine.remaining + 1) :=
  ⟨hgas, by rw [remaining]; omega, hhosts⟩

/-- Nothing is nested deeper than there are steps left. -/
theorem unrolled_eq_eval (bottom : Expr → Eval Value) (hgas : machine.gas ≤ machine.limit)
    (hhosts : machine.HostsKeepBudget) {depth : Nat} (hdepth : machine.remaining ≤ depth) :
    e.unrolled bottom (depth + 1) machine = e.eval machine := by
  obtain ⟨outcome, after, hrun⟩ := exists_eq_lift (e.eval machine)
  rw [hrun]
  exact ((metered_evalWithin bottom 0 hdepth e).ends
    (solvent_remaining hgas hhosts) hrun).2 (.inl rfl)

/-- A budget bounds every evaluation, and nothing takes in that it is used up.
Evaluation nests no deeper than there are steps left, so it ends.  It takes at
most one step too many, and that step exactly if it ends because the budget is
used up.  If it ends otherwise, a larger budget changes nothing. -/
theorem eval_keeps_budget (e : Expr) (machine : Machine) (hgas : machine.gas ≤ machine.limit)
    (hhosts : machine.HostsKeepBudget) :
    ∃ outcome after, e.eval machine = lift outcome after ∧
      (∀ bottom, e.unrolled bottom (machine.remaining + 1) machine = lift outcome after) ∧
      after.gas ≤ machine.limit + 1 ∧
      (after.gas = machine.limit + 1 ↔ outcome = .error .gasExhausted) ∧
      (outcome ≠ .error .gasExhausted → ∀ limit, machine.limit ≤ limit →
        e.eval { machine with limit := limit } = lift outcome { after with limit := limit }) := by
  obtain ⟨outcome, after, hrun⟩ := exists_eq_lift (e.eval machine)
  have hsolvent := solvent_remaining hgas hhosts
  have hmetered := fun (extra depth : Nat) (hdepth : machine.remaining ≤ depth) =>
    (metered_evalWithin (fun part => part.eval) extra hdepth e).ends hsolvent hrun
  have hspends := (hmetered 0 machine.remaining (Nat.le_refl _)).1
  refine ⟨outcome, after, hrun, fun bottom => ?_, ?_, ⟨fun hover => ?_, hspends.beyond⟩,
    fun hne limit hlimit => ?_⟩
  · rw [unrolled_eq_eval bottom hgas hhosts (Nat.le_refl _), hrun]
  · by_cases hexhausted : outcome = .error .gasExhausted
    · exact Nat.le_of_eq (hspends.beyond hexhausted)
    · exact Nat.le_succ_of_le (hspends.within hexhausted)
  · by_cases hexhausted : outcome = .error .gasExhausted
    · exact hexhausted
    · have hwithin := hspends.within hexhausted
      omega
  · obtain ⟨extra, rfl⟩ := Nat.exists_eq_add_of_le hlimit
    have hroom : (machine.granted extra).gas ≤ (machine.granted extra).limit :=
      Nat.le_add_right_of_le hgas
    have hdepth : (machine.granted extra).remaining ≤ machine.remaining + extra := by
      simp only [remaining, granted]
      omega
    have hagain := (hmetered extra (machine.remaining + extra) (Nat.le_add_right _ _)).2 (.inr hne)
    rw [unrolled_eq_eval _ hroom hhosts hdepth] at hagain
    rw [granted, granted, hspends.limit] at hagain
    exact hagain

/-- Two functions that call each other for ever, and a host that fails. -/
def circular : Machine :=
  { (Machine.fresh 30).register "fails" fun _ => .error .overflow with
    functions := NameMap.ofList [("f", ⟨[], .call "errcatch" [.call "g" []]⟩),
      ("g", ⟨[], .block [] [.call "f" []]⟩)] }

/-- Rounds that trap whatever can be trapped. -/
def trappedRounds (function : String) : Expr :=
  .forIn "i" (.list [.number "1", .number "2"]) (.call "errcatch" [.call function []])

theorem circular_keeps_budget :
    (circular.gas ≤ circular.limit ∧ circular.HostsKeepBudget) ∧
    (∃ after, (trappedRounds "f").eval circular = lift (.error .gasExhausted) after ∧
      after.gas = 31) ∧
    ∃ outcome after, (trappedRounds "fails").eval circular = lift outcome after ∧
      after.gas = 8 ∧ ∀ limit, 30 ≤ limit →
        (trappedRounds "fails").eval { circular with limit := limit } =
          lift outcome { after with limit := limit } := by
  have hgas : circular.gas ≤ circular.limit := by decide
  have hhosts : circular.HostsKeepBudget := by
    intro name host hhost args
    rw [circular, register, NameMap.get?_insert] at hhost
    split at hhost
    · cases hhost
      nofun
    · cases hhost
  obtain ⟨outcome, after, hrun, -, -, hover, -⟩ :=
    eval_keeps_budget (trappedRounds "f") circular hgas hhosts
  obtain ⟨ended, last, hends, -, -, hspent, hmore⟩ :=
    eval_keeps_budget (trappedRounds "fails") circular hgas hhosts
  have hcount : after.gas = 31 := by
    rw [← machineAfter_lift outcome after, ← hrun]
    decide +kernel
  have hkept : last.gas = 8 := by
    rw [← machineAfter_lift ended last, ← hends]
    decide +kernel
  obtain rfl := hover.mp hcount
  refine ⟨⟨hgas, hhosts⟩, ⟨after, hrun, hcount⟩, ended, last, hends, hkept, hmore fun h => ?_⟩
  have hlimit := hspent.mpr h
  rw [hkept] at hlimit
  exact absurd hlimit (by decide)

end Expr

end SceneQuiz
