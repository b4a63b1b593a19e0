import SceneQuiz.Proofs.Machine.Congruence
import SceneQuiz.Proofs.Machine.Nearness
/-!
Code that does not see how machines differ.  Run from machines that are near
each other and have the same budget, code without the loose variables ends the
same way on both, and the machines it leaves are near each other again.
-/

namespace SceneQuiz

/-- Machines that are near each other and have the same budget. -/
structure Machine.Twin (rel : Value → Value → Prop) (loose : Set String)
    (first second : Machine) : Prop extends Near rel loose first second where
  gas : second.gas = first.gas
  limit : second.limit = first.limit

/-- Is a node, its parts aside, free of loose variables and no definition? -/
def Expr.Avoids (loose : Set String) : Expr → Prop
  | .ident name => name ∉ loose
  | .forIn var _ _ | .forRange var _ _ _ _ => var ∉ loose
  | .binary .define _ _ => False
  | _ => True

namespace Eval

open Machine

variable {rel : Value → Value → Prop} {loose : Set String} {α β : Type}

/-- A run that ends alike on machines with the same budget near each other. -/
structure Blind (rel : Value → Value → Prop) (loose : Set String) (run : Eval α) : Prop where
  ends : ∀ {first second outcome after}, Twin rel loose first second →
    run first = lift outcome after →
      ∃ final, run second = lift outcome final ∧ Twin rel loose after final

namespace Blind

theorem lifted (outcome : Except EvalError α) : Blind rel loose (lift outcome) := by
  constructor
  intro first second found after htwin hrun
  obtain ⟨rfl, rfl⟩ := lift_injective hrun
  exact ⟨second, rfl, htwin⟩

theorem value (value : α) : Blind rel loose (pure value) := lifted (.ok value)

theorem failed (error : EvalError) : Blind rel loose (throw error : Eval α) :=
  lifted (.error error)

theorem bind {run : Eval α} {next : α → Eval β} (hrun : Blind rel loose run)
    (hnext : ∀ value, Blind rel loose (next value)) : Blind rel loose (run >>= next) := by
  constructor
  intro first second outcome after htwin hboth
  rcases bind_cases hboth with ⟨value, middle, hfirst, hrest⟩ | ⟨error, hfirst, rfl⟩
  · obtain ⟨between, hsecond, hbetween⟩ := hrun.ends htwin (hfirst.trans (lift_ok _ _).symm)
    obtain ⟨final, hfinal, hlast⟩ := (hnext value).ends hbetween hrest
    exact ⟨final, (bind_ok hsecond).trans hfinal, hlast⟩
  · obtain ⟨final, hsecond, hlast⟩ := hrun.ends htwin (hfirst.trans (lift_error _ _).symm)
    exact ⟨final, bind_failed hsecond, hlast⟩

/-- A change of variables that keeps machines near each other. -/
theorem modified {change : Environment → Environment}
    (h : ∀ {first second : Machine}, Near rel loose first second →
      Near rel loose { first with env := change first.env }
        { second with env := change second.env }) : Blind rel loose (modifyEnv change) := by
  constructor
  intro first second outcome after htwin hrun
  obtain ⟨rfl, rfl⟩ := lift_injective ((lift_ok () _).trans hrun)
  exact ⟨_, rfl, h htwin.toNear, htwin.gas, htwin.limit⟩

/-- Runs that may look at their machine first. -/
theorem of_looks {run : Eval α}
    (h : ∀ {first second : Machine}, Near rel loose first second → ∃ other : Eval α,
      Blind rel loose other ∧ run first = other first ∧ run second = other second) :
    Blind rel loose run := by
  constructor
  intro first second outcome after htwin hrun
  obtain ⟨other, hblind, hfirst, hsecond⟩ := h htwin.toNear
  rw [hfirst] at hrun
  rw [hsecond]
  exact hblind.ends htwin hrun

theorem read {name : String} (hname : name ∉ loose) : Blind rel loose (readName name) := by
  apply of_looks
  intro first second hnear
  refine ⟨pure ((first.env.get? name).getD (.symbol name)), value _, rfl, ?_⟩
  rw [← hnear.get?_eq hname]
  rfl

theorem ticked {run : Eval α} (h : Blind rel loose run) : Blind rel loose (do tick; run) := by
  have htick : Blind rel loose tick := by
    constructor
    intro first second outcome after htwin hrun
    have hafter : Twin rel loose { first with gas := first.gas + 1 }
        { second with gas := second.gas + 1 } :=
      ⟨htwin.alike ⟨rfl, rfl, rfl⟩ ⟨rfl, rfl, rfl⟩, congrArg (· + 1) htwin.gas, htwin.limit⟩
    refine ⟨{ second with gas := second.gas + 1 }, ?_⟩
    by_cases hover : first.limit < first.gas + 1
    · have hspent : tick first =
          lift (.error .gasExhausted) { first with gas := first.gas + 1 } := by
        simp [tick, hover, lift]
      obtain ⟨rfl, rfl⟩ := lift_injective (hspent.symm.trans hrun)
      exact ⟨by simp [tick, htwin.gas, htwin.limit, hover, lift], hafter⟩
    · have hcounted : tick first = lift (.ok ()) { first with gas := first.gas + 1 } := by
        simp [tick, hover, lift]
      obtain ⟨rfl, rfl⟩ := lift_injective (hcounted.symm.trans hrun)
      exact ⟨by simp [tick, htwin.gas, htwin.limit, hover, lift], hafter⟩
  exact htick.bind fun _ => h

/-- A scope that binds no loose variable. -/
theorem within {run : Eval α} (h : Blind rel loose run) {bindings : List (String × Value)}
    (hbound : ∀ name ∈ bindings.map Prod.fst, name ∉ loose) :
    Blind rel loose (inScope bindings run) := by
  constructor
  intro first second outcome after htwin hrun
  obtain ⟨inner, last, hinner⟩ := exists_eq_lift
    (run { first with env := first.env.push.defineAll bindings })
  obtain ⟨rfl, rfl⟩ := lift_injective ((inScope_eq hinner).symm.trans hrun)
  obtain ⟨final, hfinal, hlast⟩ :=
    h.ends ⟨htwin.opened hbound, htwin.gas, htwin.limit⟩ hinner
  exact ⟨_, inScope_eq hfinal, hlast.closed fun _ hname => .inl hname, hlast.gas, hlast.limit⟩

/-- A run whose outcome is passed through a handler. -/
theorem handled {run : Eval α} {wrapped : Eval β}
    (handler : Except EvalError α → Except EvalError β)
    (hwrapped : ∀ before outcome after, run before = lift outcome after →
      wrapped before = lift (handler outcome) after)
    (h : Blind rel loose run) : Blind rel loose wrapped := by
  constructor
  intro first second outcome after htwin hrun
  obtain ⟨inner, last, hinner⟩ := exists_eq_lift (run first)
  obtain ⟨rfl, rfl⟩ := lift_injective ((hwrapped _ _ _ hinner).symm.trans hrun)
  obtain ⟨final, hfinal, hlast⟩ := h.ends htwin hinner
  exact ⟨final, hwrapped _ _ _ hfinal, hlast⟩

theorem caught {run : Eval Value} (h : Blind rel loose run) : Blind rel loose (catchReturn run) :=
  handled unwound (fun _ _ _ => catchReturn_eq) h

section Constructs

variable {ev : Expr → Eval Value}

theorem trapped {body : List Expr} (h : Blind rel loose (sequence ev (.bool false) body)) :
    Blind rel loose (Eval.trapped ev body) :=
  handled trappedOutcome (fun _ _ _ => trapped_eq) h

theorem inherited : Inherited fun {_} run => Blind rel loose run where
  lifted _ := lifted _
  bind := bind
  trapped := trapped

theorem loop {var : String} (hvar : var ∉ loose) {body : Expr} (h : Blind rel loose (ev body))
    (values : List Value) : Blind rel loose (Eval.loop ev var body values) := by
  apply inherited.loop _ _ h
  · exact fun hrun => hrun.within (List.forall_mem_nil _)
  · exact fun start => modified fun hnear => hnear.defined hvar start

/-- The locals of a block, and what goes on with them. -/
theorem locals {declarations : List Expr}
    (hplain : ∀ name, .ident name ∈ declarations → name ∉ loose)
    (h : ∀ name right, .binary .assign (.ident name) right ∈ declarations →
      name ∉ loose ∧ Blind rel loose (ev right))
    {next : List (String × Value) → Eval α}
    (hnext : ∀ bindings : List (String × Value),
      (∀ name ∈ bindings.map Prod.fst, name ∉ loose) → Blind rel loose (next bindings)) :
    Blind rel loose (Eval.locals ev declarations >>= next) := by
  induction declarations generalizing next with
  | nil => exact hnext [] (List.forall_mem_nil _)
  | cons e rest ih =>
      have hothers : ∀ {next : List (String × Value) → Eval α},
          (∀ bindings : List (String × Value), (∀ name ∈ bindings.map Prod.fst, name ∉ loose) →
            Blind rel loose (next bindings)) →
          Blind rel loose (Eval.locals ev rest >>= next) :=
        ih (fun name hmem => hplain name (List.mem_cons_of_mem e hmem))
          fun name right hmem => h name right (List.mem_cons_of_mem e hmem)
      by_cases hlocal : e.isLocal = true
      · rcases Expr.exists_of_isLocal hlocal with ⟨name, rfl⟩ | ⟨name, right, rfl⟩
        · simp only [Eval.locals, bind_assoc, pure_bind]
          apply hothers
          intro bindings hbindings
          exact hnext _ (List.forall_mem_cons.mpr ⟨hplain name List.mem_cons_self, hbindings⟩)
        · obtain ⟨hname, hright⟩ := h name right List.mem_cons_self
          simp only [Eval.locals, bind_assoc, pure_bind]
          apply hright.bind
          intro start
          apply hothers
          intro bindings hbindings
          exact hnext _ (List.forall_mem_cons.mpr ⟨hname, hbindings⟩)
      · rw [Bool.not_eq_true] at hlocal
        obtain ⟨cause, hrefused⟩ := Follows.locals_refused hlocal rest
        rw [hrefused]
        exact failed (.unsupported cause)

/-- Only outside functions and builtins can be called. -/
theorem apply (name : String) (args : List Value) : Blind rel loose (Eval.apply ev name args) := by
  apply of_looks
  intro first second hnear
  refine ⟨Follows.callee ev name args first, ?_, rfl, ?_⟩
  · unfold Follows.callee
    rw [hnear.bare.functions name]
    cases first.hosts.get? name with
    | some host => exact lifted (host args)
    | none =>
        cases Builtin.ofName? name with
        | some builtin => exact lifted (builtin.apply args)
        | none => exact failed _
  · rw [Follows.apply_eq_callee]
    unfold Follows.callee
    rw [hnear.hosts, hnear.functions]

/-- Code without loose variables is evaluated blindly. -/
def Oblivious (rel : Value → Value → Prop) (loose : Set String) (ev : Expr → Eval Value) : Prop :=
  ∀ {e : Expr}, e.Everywhere (Expr.Avoids loose) → Blind rel loose (ev e)

variable (hoblivious : Oblivious rel loose ev)

include hoblivious

theorem block {args : List Expr} (h : ∀ e ∈ args, e.Everywhere (Expr.Avoids loose)) :
    Blind rel loose (Eval.block ev args) := by
  cases args with
  | nil => exact value _
  | cons e rest =>
      rw [List.forall_mem_cons] at h
      have hrest : Blind rel loose (Eval.sequence ev (.bool false) rest) :=
        inherited.sequence (fun part hpart => hoblivious (h.2 part hpart)) _
      by_cases hlist : ∃ declarations, e = .list declarations
      · obtain ⟨declarations, rfl⟩ := hlist
        have hdeclared : ∀ part ∈ declarations, part.Everywhere (Expr.Avoids loose) :=
          fun part hpart => h.1.inside hpart
        apply locals
        · exact fun name hmem => (hdeclared _ hmem).here
        · intro name right hmem
          obtain ⟨hleft, hright⟩ := (Expr.forall_children_two rfl).mp
            fun part hpart => (hdeclared _ hmem).inside hpart
          exact ⟨hleft.here, hoblivious hright⟩
        · exact fun bindings hbindings => (hrest.within hbindings).caught
      · rw [Follows.block_bare fun items heq => hlist ⟨items, heq⟩]
        apply caught
        apply within _ (List.forall_mem_nil _)
        apply inherited.sequence
        exact fun part hpart => hoblivious (List.forall_mem_cons.mpr h part hpart)

theorem assignment {target source : Expr} (htarget : target.Everywhere (Expr.Avoids loose))
    (hsource : source.Everywhere (Expr.Avoids loose)) :
    Blind rel loose (Eval.assignment ev target source) := by
  unfold Eval.assignment
  split
  · next name =>
      apply (hoblivious hsource).bind
      intro result
      have hassigned : Blind rel loose (modifyEnv (·.assign name result)) :=
        modified fun hnear => hnear.assigned htarget.here result
      exact hassigned.bind fun _ => value result
  · exact failed _

/-- One level of evaluation is blind if the parts are. -/
theorem step {e : Expr} (h : e.Everywhere (Expr.Avoids loose)) :
    Blind rel loose (Eval.step ev e) := by
  have hparts : ∀ part ∈ e.children, Blind rel loose (ev part) :=
    fun part hpart => hoblivious (h.inside hpart)
  by_cases hroutine : e.isRoutine = true
  · exact inherited.routine hroutine hparts apply
  cases e with
  | ident name => exact read h.here
  | quote => exact value _
  | call name args =>
      by_cases hblock : name = "block"
      · subst hblock
        exact block hoblivious fun e he => h.inside he
      · have hreturn : name = "return" := by simpa [Expr.isRoutine, hblock] using hroutine
        subst hreturn
        exact inherited.leave (fun _ => failed _) hparts
  | binary op left right =>
      obtain ⟨hleft, hright⟩ := (Expr.forall_children_two rfl).mp fun part hpart => h.inside hpart
      cases op with
      | assign => exact assignment hoblivious hleft hright
      | define => exact h.here.elim
      | _ => exact absurd rfl hroutine
  | forIn var source body =>
      rw [Expr.forall_children_two rfl] at hparts
      exact (inherited.members hparts.1).bind fun values => loop h.here hparts.2 values
  | forRange var first step last body =>
      rw [Expr.forall_children_forRange] at hparts
      obtain ⟨hfirst, hstep, hlast, hbody⟩ := hparts
      exact (inherited.rangeOf hfirst hstep hlast).bind fun values => loop h.here hbody values
  | _ => exact absurd rfl hroutine

omit hoblivious

/-- Whole evaluations are blind, by induction on the fuel. -/
theorem evalWithin (fuel : Nat) : Oblivious rel loose (Expr.evalWithin fuel) := by
  induction fuel with
  | zero =>
      intro e _
      exact (failed .gasExhausted).ticked
  | succ fuel ih =>
      intro e h
      exact (step ih h).ticked

end Constructs

end Blind

end Eval

end SceneQuiz
