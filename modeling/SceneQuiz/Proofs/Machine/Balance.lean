import SceneQuiz.Machine.Run
import SceneQuiz.Proofs.Machine.Mirroring
/-!
Scopes that are opened are closed.  However an evaluation ends, it leaves as many
scopes as it found, each of them binds the names that it bound before, and no
global is gone.
-/

namespace SceneQuiz

/-- Entries stay bound or unbound, but for the last one, which may become bound. -/
theorem Reassigned.isSome_append {inner others : List (Option Value)} {last final : Option Value}
    (h : Reassigned (inner ++ [last]) (others ++ [final])) :
    others.map Option.isSome = inner.map Option.isSome ∧
      (last.isSome = true → final.isSome = true) := by
  induction inner generalizing others with
  | nil =>
      obtain rfl : others = [] := by simpa using h.length_eq
      cases h with
      | same => exact ⟨rfl, id⟩
      | here | globally => exact ⟨rfl, fun _ => rfl⟩
      | outward => exact ⟨rfl, id⟩
  | cons entry rest ih =>
      cases others with
      | nil => exact absurd h.length_eq (by simp)
      | cons seen others =>
          cases entry with
          | some value =>
              obtain ⟨other, hother⟩ := Reassigned.of_bound h
              obtain ⟨rfl, hrest⟩ := List.cons.inj hother
              obtain ⟨rfl, hlast⟩ := List.append_inj' hrest rfl
              obtain rfl := List.head_eq_of_cons_eq hlast
              exact ⟨rfl, id⟩
          | none =>
              obtain ⟨outer, houter, hinner⟩ := Reassigned.of_free h (by simp)
              obtain ⟨rfl, rfl⟩ := List.cons.inj houter
              obtain ⟨hsome, hlast⟩ := ih hinner
              exact ⟨congrArg (false :: ·) hsome, hlast⟩

namespace Environment

/-- The same number of scopes, which bind the same names, and no global less. -/
structure Balanced (before after : Environment) : Prop where
  depth : after.depth = before.depth
  locals : ∀ name, after.locals.map (·.contains name) = before.locals.map (·.contains name)
  globals : ∀ name, before.globals.contains name = true → after.globals.contains name = true

variable {before middle after : Environment}

theorem Balanced.refl (env : Environment) : env.Balanced env :=
  ⟨rfl, fun _ => rfl, fun _ h => h⟩

theorem Balanced.trans (hfirst : before.Balanced middle) (hsecond : middle.Balanced after) :
    before.Balanced after where
  depth := hsecond.depth.trans hfirst.depth
  locals name := (hsecond.locals name).trans (hfirst.locals name)
  globals name h := hsecond.globals name (hfirst.globals name h)

/-- Assignments leave scopes in balance. -/
theorem Changes.balanced {written : Set String} (h : Changes written before after) :
    before.Balanced after := by
  have hcolumns := fun name => (h name).1.isSome_append
  refine ⟨congrArg (· + 1) h.length_locals, fun name => ?_, fun name => (hcolumns name).2⟩
  simpa [Function.comp_def, NameMap.contains] using (hcolumns name).1

theorem balanced_assign (env : Environment) (name : String) (value : Value) :
    env.Balanced (env.assign name value) :=
  (Changes.assign env (Set.mem_univ name) value).balanced

end Environment

namespace Eval

variable {α β : Type}

/-- However the run ends, it leaves scopes in balance. -/
def Balances (run : Eval α) : Prop :=
  ∀ machine : Machine, machine.env.Balanced (machineAfter (run machine)).env

namespace Balances

theorem lifted (outcome : Except EvalError α) : Balances (lift outcome) := by
  intro machine
  rw [machineAfter_lift]
  exact .refl machine.env

theorem bind {run : Eval α} {next : α → Eval β} (hrun : run.Balances)
    (hnext : ∀ value, (next value).Balances) : (run >>= next).Balances := by
  intro machine
  have hfirst := hrun machine
  cases hmiddle : run machine with
  | ok value middle =>
      rw [hmiddle] at hfirst
      rw [bind_ok hmiddle]
      exact hfirst.trans (hnext value middle)
  | error error middle =>
      rw [hmiddle] at hfirst
      rwa [bind_failed hmiddle]

/-- `simp` is assigned before and after the run, which binds it at most globally. -/
theorem withSimp {run : Eval α} (h : run.Balances) (value : Value) :
    (withSimp value run).Balances := by
  intro machine
  have hassigned : machine.env.Balanced (machine.assign "simp" value).env :=
    machine.env.balanced_assign "simp" value
  have hrun := hassigned.trans (h (machine.assign "simp" value))
  unfold Eval.withSimp
  cases hafter : run (machine.assign "simp" value) <;>
  · rw [hafter] at hrun
    exact hrun.trans (Environment.balanced_assign _ "simp" _)

end Balances

end Eval

open Eval

theorem Expr.balances_eval (e : Expr) : e.eval.Balances := by
  intro machine
  obtain ⟨outcome, after, hrun⟩ := exists_eq_lift (e.eval machine)
  rw [hrun, machineAfter_lift]
  exact (changes_of_evalWithin hrun).balanced

theorem Statement.balances_eval (statement : Statement) : statement.eval.Balances := by
  unfold Statement.eval
  split
  · exact statement.expr.balances_eval
  · have hflagged := fun value => statement.expr.balances_eval.withSimp value
    dsimp only
    split
    · next e _ => exact e.balances_eval.bind hflagged
    · exact (Balances.lifted (.ok _)).bind hflagged

namespace Fragment

/-- By induction on the statements: each starts where the one before it ended. -/
theorem balances_evalFrom (last : Value) (fragment : Fragment) :
    (fragment.evalFrom last).Balances := by
  induction fragment generalizing last with
  | nil => exact .lifted (.ok last)
  | cons statement rest ih => exact statement.balances_eval.bind fun value => ih value

/-- Scopes are balanced on every path: an expression and a list of statements,
whether they end in a value or in an error, leave the number of scopes and the
names that each of them binds, and every global stays bound. -/
theorem eval_balances : (∀ e : Expr, e.eval.Balances) ∧
    ∀ fragment : Fragment, fragment.eval.Balances :=
  ⟨Expr.balances_eval, balances_evalFrom (.bool false)⟩

end Fragment

end SceneQuiz
