import Mathlib.Data.Set.Insert
import SceneQuiz.Expr.Usage
import SceneQuiz.Proofs.Machine.Congruence
import SceneQuiz.Proofs.Machine.Trappable
/-!
Runs on two machines at once.  A run respects a relation between machines if it
ends the same way on both machines of a pair and leaves a pair again, and if a
`return` takes out of it none but the values that may leave.  A relation may
hold of a machine and itself only; then to respect it is to keep what it says of
that machine.

Most constructs only pass on what their parts do, and one rule covers them all.
The rules for names, assignments, blocks, loops and calls say what the relation
has to give for them.  Nothing is said of machines whose budget is used up, for
no code goes on from there.
-/

namespace SceneQuiz

namespace Machine

/-- In a new scope with these bindings. -/
def opened (bindings : List (String × Value)) (machine : Machine) : Machine :=
  { machine with env := machine.env.push.defineAll bindings }

/-- Without the innermost scope. -/
def closed (machine : Machine) : Machine := { machine with env := machine.env.pop }

/-- After this many steps. -/
def counting (gas : Nat) (machine : Machine) : Machine := { machine with gas := gas }

/-- A relation between machines with the same functions and the same budget,
wherever in the budget they are. -/
structure Pairing (rel : Machine → Machine → Prop) : Prop where
  hosts : ∀ {first second}, rel first second → second.hosts = first.hosts
  functions : ∀ {first second}, rel first second → second.functions = first.functions
  gas : ∀ {first second}, rel first second → second.gas = first.gas
  limit : ∀ {first second}, rel first second → second.limit = first.limit
  counting : ∀ {first second}, rel first second → ∀ gas,
    rel (first.counting gas) (second.counting gas)

end Machine

namespace Eval

open Machine

variable {α β : Type} {rel : Machine → Machine → Prop} {leaving : Value → Prop}

/-- An outcome where a `return` brings none but values that may leave. -/
def Releases (leaving : Value → Prop) : Except EvalError α → Prop
  | .error (.returned value) => leaving value
  | _ => True

theorem releases_of_unreturned {outcome : Except EvalError α} (h : Unreturned outcome) :
    Releases leaving outcome := by
  cases outcome with
  | ok value => trivial
  | error error =>
      cases error with
      | returned => exact h.elim
      | _ => trivial

theorem Releases.error {error : EvalError} (h : Releases leaving (.error error : Except _ α)) :
    Releases leaving (.error error : Except _ β) := by
  cases error <;> exact h

/-- A run that ends the same way on related machines, and leaves related ones
unless it used up the budget. -/
structure Respects (rel : Machine → Machine → Prop) (leaving : Value → Prop) (run : Eval α) :
    Prop where
  ends : ∀ {first second outcome after}, rel first second → run first = lift outcome after →
    ∃ final, run second = lift outcome final ∧
      (outcome ≠ .error .gasExhausted → rel after final) ∧ Releases leaving outcome

namespace Respects

theorem lifted {outcome : Except EvalError α} (h : Releases leaving outcome) :
    Respects rel leaving (lift outcome) := by
  constructor
  intro first second found after hrel hrun
  obtain ⟨rfl, rfl⟩ := lift_injective hrun
  exact ⟨second, rfl, fun _ => hrel, h⟩

theorem value (value : α) : Respects rel leaving (pure value) := by
  change Respects rel leaving (lift (.ok value))
  exact lifted trivial

theorem failed {error : EvalError} (h : Releases leaving (.error error : Except _ α)) :
    Respects rel leaving (throw error : Eval α) :=
  lifted h

theorem bind {run : Eval α} {next : α → Eval β} (hrun : Respects rel leaving run)
    (hnext : ∀ value, Respects rel leaving (next value)) :
    Respects rel leaving (run >>= next) := by
  constructor
  intro first second outcome after hrel hboth
  rcases bind_cases hboth with ⟨value, middle, hfirst, hrest⟩ | ⟨error, hfirst, rfl⟩
  · obtain ⟨between, hsecond, hmiddle, -⟩ := hrun.ends hrel (hfirst.trans (lift_ok _ _).symm)
    obtain ⟨final, hfinal, hlast⟩ := (hnext value).ends (hmiddle nofun) hrest
    exact ⟨final, (bind_ok hsecond).trans hfinal, hlast⟩
  · obtain ⟨final, hsecond, hlast, hleaves⟩ := hrun.ends hrel (hfirst.trans (lift_error _ _).symm)
    refine ⟨final, bind_failed hsecond, fun hgas => hlast ?_, hleaves.error⟩
    rintro ⟨⟩
    exact hgas rfl

/-- Runs that may look at their machine first. -/
theorem of_looks {run : Eval α}
    (h : ∀ {first second}, rel first second → ∃ other : Eval α,
      Respects rel leaving other ∧ run first = other first ∧ run second = other second) :
    Respects rel leaving run := by
  constructor
  intro first second outcome after hrel hrun
  obtain ⟨other, hother, hfirst, hsecond⟩ := h hrel
  rw [hfirst] at hrun
  rw [hsecond]
  exact hother.ends hrel hrun

/-- A change of the machine that keeps the relation. -/
theorem changed {run : Eval Unit} {change : Machine → Machine}
    (hrun : ∀ machine, run machine = lift (.ok ()) (change machine))
    (h : ∀ {first second}, rel first second → rel (change first) (change second)) :
    Respects rel leaving run := by
  constructor
  intro first second outcome after hrel hends
  obtain ⟨rfl, rfl⟩ := lift_injective ((hrun first).symm.trans hends)
  exact ⟨_, hrun second, fun _ => h hrel, trivial⟩

theorem read {name : String}
    (h : ∀ {first second}, rel first second →
      (second.env.get? name).getD (.symbol name) = (first.env.get? name).getD (.symbol name)) :
    Respects rel leaving (readName name) := by
  apply of_looks
  intro first second hrel
  refine ⟨pure ((first.env.get? name).getD (.symbol name)), value _, rfl, ?_⟩
  rw [← h hrel]
  rfl

theorem assigned {name : String} {value : Value}
    (h : ∀ {first second}, rel first second →
      rel (first.assign name value) (second.assign name value)) :
    Respects rel leaving (modifyEnv (·.assign name value)) :=
  changed (fun _ => rfl) h

theorem ticked (hrel : Pairing rel) {run : Eval α} (h : Respects rel leaving run) :
    Respects rel leaving (do tick; run) := by
  have htick : Respects rel leaving tick := by
    constructor
    intro first second outcome after hpair hrun
    have hafter : rel (first.counting (first.gas + 1)) (second.counting (second.gas + 1)) := by
      rw [hrel.gas hpair]
      exact hrel.counting hpair _
    refine ⟨second.counting (second.gas + 1), ?_⟩
    by_cases hover : first.limit < first.gas + 1
    · have hspent : tick first =
          lift (.error .gasExhausted) (first.counting (first.gas + 1)) := by
        simp [tick, hover, lift, counting]
      obtain ⟨rfl, rfl⟩ := lift_injective (hspent.symm.trans hrun)
      refine ⟨?_, fun _ => hafter, trivial⟩
      simp [tick, hrel.gas hpair, hrel.limit hpair, hover, lift, counting]
    · have hcounted : tick first = lift (.ok ()) (first.counting (first.gas + 1)) := by
        simp [tick, hover, lift, counting]
      obtain ⟨rfl, rfl⟩ := lift_injective (hcounted.symm.trans hrun)
      refine ⟨?_, fun _ => hafter, trivial⟩
      simp [tick, hrel.gas hpair, hrel.limit hpair, hover, lift, counting]
  exact htick.bind fun _ => h

/-- Inside a scope the machines may be related in another way, as long as they
are in the old way once the scope is closed. -/
theorem within {run : Eval α} {bindings : List (String × Value)}
    (h : ∀ {first second}, rel first second → ∃ inner : Machine → Machine → Prop,
      inner (first.opened bindings) (second.opened bindings) ∧
        (∀ {last final}, inner last final → rel last.closed final.closed) ∧
          Respects inner leaving run) :
    Respects rel leaving (inScope bindings run) := by
  constructor
  intro first second outcome after hrel hrun
  obtain ⟨inner, hopened, hclosed, hinside⟩ := h hrel
  obtain ⟨found, last, hfound⟩ := exists_eq_lift (run (first.opened bindings))
  obtain ⟨rfl, rfl⟩ := lift_injective ((inScope_eq hfound).symm.trans hrun)
  obtain ⟨final, hfinal, hlast, hleaves⟩ := hinside.ends hopened hfound
  exact ⟨_, inScope_eq hfinal, fun hgas => hclosed (hlast hgas), hleaves⟩

/-- A run whose outcome is passed through a handler. -/
theorem handled {run : Eval α} {wrapped : Eval β} {outside : Value → Prop}
    (handler : Except EvalError α → Except EvalError β)
    (hwrapped : ∀ before outcome after, run before = lift outcome after →
      wrapped before = lift (handler outcome) after)
    (hgas : handler (.error .gasExhausted) = .error .gasExhausted)
    (hleaves : ∀ outcome, Releases leaving outcome → Releases outside (handler outcome))
    (h : Respects rel leaving run) : Respects rel outside wrapped := by
  constructor
  intro first second outcome after hrel hrun
  obtain ⟨found, last, hfound⟩ := exists_eq_lift (run first)
  obtain ⟨rfl, rfl⟩ := lift_injective ((hwrapped _ _ _ hfound).symm.trans hrun)
  obtain ⟨final, hfinal, hlast, hreleases⟩ := h.ends hrel hfound
  refine ⟨final, hwrapped _ _ _ hfinal, fun hends => hlast ?_, hleaves found hreleases⟩
  rintro rfl
  exact hends hgas

/-- A block takes in what a `return` inside it brings. -/
theorem caught {run : Eval Value} {outside : Value → Prop} (h : Respects rel leaving run) :
    Respects rel outside (catchReturn run) := by
  apply handled unwound (fun _ _ _ => catchReturn_eq) rfl _ h
  intro outcome _
  cases outcome with
  | ok value => trivial
  | error error => cases error <;> trivial

section Constructs

variable {ev : Expr → Eval Value}

theorem trapped {body : List Expr} (h : Respects rel leaving (sequence ev (.bool false) body)) :
    Respects rel leaving (Eval.trapped ev body) := by
  apply handled trappedOutcome (fun _ _ _ => trapped_eq) rfl _ h
  intro outcome hreleases
  cases outcome with
  | ok value => trivial
  | error error =>
      cases error with
      | returned => exact hreleases
      | _ => trivial

theorem inherited : Inherited fun {_} run => Respects rel leaving run where
  lifted h := lifted (releases_of_unreturned h.unreturned)
  bind := bind
  trapped := trapped

/-- Calls: what comes from outside must not bring what may not leave, and a
defined function is run in a scope of its own. -/
theorem apply (hrel : Pairing rel) {name : String} {args : List Value}
    (hhosts : ∀ {first second}, rel first second → ∀ host, first.hosts.get? name = some host →
      Releases leaving (host args))
    (hfunctions : ∀ {first second}, rel first second → ∀ function,
      first.functions.get? name = some function → function.params.length = args.length →
        Respects rel leaving (inScope (function.params.zip args) (ev function.body))) :
    Respects rel leaving (Eval.apply ev name args) := by
  apply of_looks
  intro first second hpair
  refine ⟨Follows.callee ev name args first, ?_, rfl, ?_⟩
  · unfold Follows.callee
    cases hhost : first.hosts.get? name with
    | some host => exact lifted (hhosts hpair host hhost)
    | none =>
        cases hfunction : first.functions.get? name with
        | some function =>
            dsimp only
            unfold applyClosure
            split
            · next hlength => exact hfunctions hpair function hfunction hlength
            · exact failed trivial
        | none =>
            cases Builtin.ofName? name with
            | some builtin =>
                exact lifted (releases_of_unreturned (builtin.trappable_apply args).unreturned)
            | none => exact failed trivial
  · rw [Follows.apply_eq_callee]
    unfold Follows.callee
    rw [hrel.hosts hpair, hrel.functions hpair]

/-- An assignment to a name, if the relation bears it. -/
theorem assignment {target source : Expr} (hsource : Respects rel leaving (ev source))
    (h : ∀ name, target = .ident name → ∀ value {first second}, rel first second →
      rel (first.assign name value) (second.assign name value)) :
    Respects rel leaving (Eval.assignment ev target source) := by
  unfold Eval.assignment
  split
  · next name =>
      apply hsource.bind
      intro result
      have hassigned : Respects rel leaving (modifyEnv (·.assign name result)) :=
        assigned (h name rfl result)
      exact hassigned.bind fun _ => value result
  · exact failed trivial

/-- A definition, if the relation bears the new function. -/
theorem definition {target body : Expr}
    (h : ∀ name params, target = .call name params → ∀ names {first second}, rel first second →
      rel { first with functions := first.functions.insert name ⟨names, body⟩ }
        { second with functions := second.functions.insert name ⟨names, body⟩ }) :
    Respects rel leaving (Eval.definition target body) := by
  unfold Eval.definition
  split
  · next name params =>
      apply (lifted (releases_of_unreturned (trappable_paramNames params).unreturned)).bind
      intro names
      have hdefined : Respects rel leaving (defineFunction name ⟨names, body⟩) :=
        changed (fun _ => rfl) (h name params rfl names)
      exact hdefined.bind fun _ => value _
  · exact failed trivial

/-- The locals of a block, and what goes on with them: bindings of at least the
names that are declared. -/
theorem locals {declarations : List Expr}
    (h : ∀ name right, .binary .assign (.ident name) right ∈ declarations →
      Respects rel leaving (ev right))
    {next : List (String × Value) → Eval α}
    (hnext : ∀ bindings : List (String × Value),
      (∀ name ∈ declarations.filterMap Expr.declaredName?, name ∈ bindings.map Prod.fst) →
        Respects rel leaving (next bindings)) :
    Respects rel leaving (Eval.locals ev declarations >>= next) := by
  induction declarations generalizing next with
  | nil => exact hnext [] nofun
  | cons e rest ih =>
      have hrest : ∀ name right, .binary .assign (.ident name) right ∈ rest →
          Respects rel leaving (ev right) := fun name right hmem =>
        h name right (List.mem_cons_of_mem e hmem)
      have hdeclared : ∀ {name : String} {start : Value} {bindings : List (String × Value)},
          e.declaredName? = some name →
          (∀ other ∈ rest.filterMap Expr.declaredName?, other ∈ bindings.map Prod.fst) →
            ∀ other ∈ (e :: rest).filterMap Expr.declaredName?,
              other ∈ ((name, start) :: bindings).map Prod.fst := by
        intro name start bindings hname hbindings
        rw [List.filterMap_cons_some hname, List.forall_mem_cons]
        exact ⟨List.mem_cons_self, fun other hother =>
          List.mem_cons_of_mem _ (hbindings other hother)⟩
      by_cases hlocal : e.isLocal = true
      · rcases Expr.exists_of_isLocal hlocal with ⟨name, rfl⟩ | ⟨name, right, rfl⟩
        · simp only [Eval.locals, bind_assoc, pure_bind]
          apply ih hrest
          intro bindings hbindings
          exact hnext _ (hdeclared rfl hbindings)
        · simp only [Eval.locals, bind_assoc, pure_bind]
          apply (h name right List.mem_cons_self).bind
          intro start
          apply ih hrest
          intro bindings hbindings
          exact hnext _ (hdeclared rfl hbindings)
      · rw [Bool.not_eq_true] at hlocal
        obtain ⟨cause, hrefused⟩ := Follows.locals_refused hlocal rest
        rw [hrefused]
        exact failed trivial

/-- A block with locals. -/
theorem block {declarations body : List Expr} {inside : Value → Prop}
    (hvalues : ∀ name right, .binary .assign (.ident name) right ∈ declarations →
      Respects rel leaving (ev right))
    (hbody : ∀ bindings : List (String × Value),
      (∀ name ∈ declarations.filterMap Expr.declaredName?, name ∈ bindings.map Prod.fst) →
        Respects rel inside (inScope bindings (Eval.sequence ev (.bool false) body))) :
    Respects rel leaving (Eval.block ev (.list declarations :: body)) :=
  locals hvalues fun bindings hbindings => (hbody bindings hbindings).caught

/-- A block without locals. -/
theorem bare {args : List Expr} {inside : Value → Prop}
    (hbare : ∀ declarations body, args ≠ .list declarations :: body)
    (h : Respects rel inside (inScope [] (Eval.sequence ev (.bool false) args))) :
    Respects rel leaving (Eval.block ev args) := by
  cases args with
  | nil => exact value _
  | cons e rest =>
      rw [Follows.block_bare fun items heq => hbare items rest (by rw [heq])]
      exact h.caught

/-- A loop over some values, in a scope where its variable is bound. -/
theorem loop {var : String} {body : Expr} {values : List Value}
    (h : ∀ {first second}, rel first second →
      ∃ between inner : Machine → Machine → Prop,
        between (first.opened []) (second.opened []) ∧
          (∀ {last final}, between last final → rel last.closed final.closed) ∧
            (∀ value {last final}, between last final →
              inner { last with env := last.env.define var value }
                { final with env := final.env.define var value }) ∧
              (∀ {last final}, inner last final → between last final) ∧
                Respects inner leaving (ev body)) :
    Respects rel leaving (Eval.loop ev var body values) := by
  have hscope : Respects rel leaving (inScope [] (forEach ev var body values)) := by
    apply within
    intro first second hpair
    obtain ⟨between, inner, hopened, hclosed, hbound, hround, hbody⟩ := h hpair
    refine ⟨between, hopened, hclosed, ?_⟩
    clear hopened
    induction values with
    | nil => exact value ()
    | cons start rest ih =>
        constructor
        intro last final outcome after hbetween hrun
        have hrest : Respects inner leaving (do let _ ← ev body; pure ()) :=
          hbody.bind fun _ => value ()
        have hsplit : ∀ machine, forEach ev var body (start :: rest) machine =
            ((do let _ ← ev body; pure ()) >>= fun _ => forEach ev var body rest)
              { machine with env := machine.env.define var start } := by
          intro machine
          simp only [forEach, bind_assoc, pure_bind]
          rfl
        rw [hsplit] at hrun ⊢
        rcases bind_cases hrun with ⟨_, middle, hfirst, hothers⟩ | ⟨error, hfirst, rfl⟩
        · obtain ⟨other, hsecond, hmiddle, -⟩ :=
            hrest.ends (hbound start hbetween) (hfirst.trans (lift_ok _ _).symm)
          obtain ⟨last, hlast, hends⟩ := ih.ends (hround (hmiddle nofun)) hothers
          exact ⟨last, (bind_ok hsecond).trans hlast, hends⟩
        · obtain ⟨other, hsecond, hother, hleaves⟩ :=
            hrest.ends (hbound start hbetween) (hfirst.trans (lift_error _ _).symm)
          refine ⟨other, bind_failed hsecond, fun hgas => hround (hother ?_), hleaves⟩
          rintro ⟨⟩
          exact hgas rfl
  exact hscope.bind fun _ => value _

end Constructs

/-- Evaluation respects what its first level respects under any smaller fuel. -/
theorem of_step (hrel : Pairing rel) {e : Expr} {fuel : Nat}
    (h : ∀ less < fuel, Respects rel leaving (Eval.step (Expr.evalWithin less) e)) :
    Respects rel leaving (e.evalWithin fuel) := by
  cases fuel with
  | zero =>
      have hspent : Respects rel leaving (throw .gasExhausted : Eval Value) := failed trivial
      exact hspent.ticked hrel
  | succ less => exact (h less (by omega)).ticked hrel

end Respects

/-- Relations between machines, one for each list of scopes opened since they
began to differ, where a scope binds at least the names given for it. -/
structure Layering (rel : List (Set String) → Machine → Machine → Prop) : Prop where
  pairing : ∀ {scopes}, Pairing (rel scopes)
  opened : ∀ {scopes names first second} {bindings : List (String × Value)},
    rel scopes first second → (∀ name ∈ names, name ∈ bindings.map Prod.fst) →
      rel (names :: scopes) (first.opened bindings) (second.opened bindings)
  closed : ∀ {scopes names first second}, rel (names :: scopes) first second →
    rel scopes first.closed second.closed
  defined : ∀ {scopes names first second}, rel (names :: scopes) first second →
    ∀ var value, rel (insert var names :: scopes)
      { first with env := first.env.define var value }
      { second with env := second.env.define var value }
  weaken : ∀ {scopes names fewer first second}, rel (names :: scopes) first second →
    fewer ⊆ names → rel (fewer :: scopes) first second

namespace Layering

variable {rel : List (Set String) → Machine → Machine → Prop} {scopes : List (Set String)}
  {ev : Expr → Eval Value}

/-- In a new scope that binds these names. -/
theorem within {run : Eval α} {bindings : List (String × Value)} {names : Set String}
    (hrel : Layering rel) (hbound : ∀ name ∈ names, name ∈ bindings.map Prod.fst)
    (h : Respects (rel (names :: scopes)) leaving run) :
    Respects (rel scopes) leaving (inScope bindings run) :=
  .within fun hpair => ⟨_, hrel.opened hpair hbound, hrel.closed, h⟩

/-- A block binds the names that it declares. -/
theorem block {declarations body : List Expr} {inside : Value → Prop} (hrel : Layering rel)
    (hvalues : ∀ name right, .binary .assign (.ident name) right ∈ declarations →
      Respects (rel scopes) leaving (ev right))
    (hbody : ∀ part ∈ body, Respects
      (rel ({name | name ∈ declarations.filterMap Expr.declaredName?} :: scopes)) inside
        (ev part)) :
    Respects (rel scopes) leaving (Eval.block ev (.list declarations :: body)) :=
  .block hvalues fun _ hbindings => hrel.within hbindings (Respects.inherited.sequence hbody _)

/-- A block without locals binds nothing. -/
theorem bare {args : List Expr} {inside : Value → Prop} (hrel : Layering rel)
    (hbare : ∀ declarations body, args ≠ .list declarations :: body)
    (hargs : ∀ arg ∈ args, Respects (rel (∅ :: scopes)) inside (ev arg)) :
    Respects (rel scopes) leaving (Eval.block ev args) :=
  .bare hbare (hrel.within (Set.forall_mem_empty.mpr trivial)
    (Respects.inherited.sequence hargs _))

/-- A loop binds its variable around its body.  Between rounds its scope need not
bind anything. -/
theorem loop {var : String} {body : Expr} (hrel : Layering rel)
    (hbody : Respects (rel ({var} :: scopes)) leaving (ev body)) (values : List Value) :
    Respects (rel scopes) leaving (Eval.loop ev var body values) := by
  apply Respects.loop
  intro first second hpair
  refine ⟨rel (∅ :: scopes), rel ({var} :: scopes), ?_⟩
  refine ⟨hrel.opened hpair (Set.forall_mem_empty.mpr trivial), hrel.closed, ?_, ?_, hbody⟩
  · intro value last final hbetween
    exact hrel.weaken (hrel.defined hbetween var value) (by simp)
  · exact fun hinner => hrel.weaken hinner (Set.empty_subset _)

theorem forIn {var : String} {source body : Expr} (hrel : Layering rel)
    (hsource : Respects (rel scopes) leaving (ev source))
    (hbody : Respects (rel ({var} :: scopes)) leaving (ev body)) :
    Respects (rel scopes) leaving (Eval.step ev (.forIn var source body)) :=
  (Respects.inherited.members hsource).bind fun values => hrel.loop hbody values

theorem forRange {var : String} {first last body : Expr} {step : Option Expr}
    (hrel : Layering rel) (hfirst : Respects (rel scopes) leaving (ev first))
    (hstep : ∀ width ∈ step, Respects (rel scopes) leaving (ev width))
    (hlast : Respects (rel scopes) leaving (ev last))
    (hbody : Respects (rel ({var} :: scopes)) leaving (ev body)) :
    Respects (rel scopes) leaving (Eval.step ev (.forRange var first step last body)) :=
  (Respects.inherited.rangeOf hfirst hstep hlast).bind fun values => hrel.loop hbody values

/-- Calls, where every value may leave: a defined function is run in a scope that
binds no more than its parameters. -/
theorem apply (hrel : Layering rel) {name : String} {args : List Value}
    (hfunctions : ∀ {first second}, rel scopes first second → ∀ function,
      first.functions.get? name = some function →
        Respects (rel (∅ :: scopes)) (fun _ => True) (ev function.body)) :
    Respects (rel scopes) (fun _ => True) (Eval.apply ev name args) := by
  apply Respects.apply hrel.pairing
  · intro _ _ _ host _
    cases host args with
    | ok found => trivial
    | error error => cases error <;> trivial
  · intro _ _ hpair function hfunction _
    exact hrel.within (Set.forall_mem_empty.mpr trivial) (hfunctions hpair function hfunction)

end Layering

end Eval

end SceneQuiz
