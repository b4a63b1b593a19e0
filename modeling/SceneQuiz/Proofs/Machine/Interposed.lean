import SceneQuiz.Proofs.Machine.Passage
/-!
Code that finds two scopes where it would find one.  The outer of the two has
what the one scope has, and beside it both bind names that the code leaves
alone.  The run ends the same way, in the same number of steps, and leaves those
names as they were.
-/

namespace SceneQuiz

/-- Two scopes on the second machine for one on the first.  They differ from it
in the hidden names only, and those keep what they have. -/
def Ground.splitting (inner outer : Scope) (hidden : Set String) : Ground where
  differs name first second := 1 < first.length ∧
    (name ∈ hidden → second = inner.get? name :: outer.get? name :: first.tail) ∧
    (name ∉ hidden → second = none :: first)
  unread := hidden
  fixed := hidden
  ne_nil := by
    rintro name first second ⟨hlength, hhidden, hother⟩
    refine ⟨List.ne_nil_of_length_pos (by omega), ?_⟩
    by_cases hname : name ∈ hidden
    · rw [hhidden hname]
      exact List.cons_ne_nil _ _
    · rw [hother hname]
      exact List.cons_ne_nil _ _
  read := by
    rintro name first second hname ⟨-, -, hother⟩
    rw [hother hname]
    rfl
  assign := by
    rintro name first second hname ⟨hlength, -, hother⟩ value
    refine ⟨by rwa [length_assignColumn], fun hhidden => absurd hhidden hname, fun _ => ?_⟩
    rw [hother hname, assignColumn_none value (List.ne_nil_of_length_pos (by omega))]

theorem Ground.length_splitting {inner outer : Scope} {hidden : Set String} {name : String}
    {first second : List (Option Value)}
    (h : (splitting inner outer hidden).differs name first second) :
    second.length = first.length + 1 := by
  obtain ⟨hlength, hhidden, hother⟩ := h
  by_cases hname : name ∈ hidden
  · rw [hhidden hname, List.length_cons, List.length_cons, List.length_tail]
    omega
  · rw [hother hname, List.length_cons]

namespace Machine

variable {inner outer scope : Scope} {hidden : Set String}

/-- The scopes at first. -/
theorem over_splitting {machine : Machine} (hfences : machine.Fences hidden)
    (hinner : ∀ name, name ∉ hidden → inner.get? name = none)
    (houter : ∀ name, name ∉ hidden → outer.get? name = scope.get? name) :
    Over (.splitting inner outer hidden) [] (machine.under scope)
      ((machine.under outer).under inner) := by
  refine ⟨rfl, rfl, rfl, rfl, fun name => .grounded ⟨?_, fun _ => rfl, fun hname => ?_⟩, hfences⟩
  · simp [under]
  · change inner.get? name :: outer.get? name :: _ = none :: scope.get? name :: _
    rw [hinner name hname, houter name hname]
    rfl

section Ends

variable {first second : Machine}

theorem Over.splits (h : Over (.splitting inner outer hidden) [] first second) (name : String) :
    (Ground.splitting inner outer hidden).differs name (first.env.column name)
      (second.env.column name) := by
  cases h.columns name with
  | grounded hname => exact hname

/-- The first machine still has its scope, and the second one its two. -/
theorem Over.exists_scopes (h : Over (.splitting inner outer hidden) [] first second) :
    first.env.locals ≠ [] ∧
      ∃ (top rest : Scope) (env : Environment), second.env = (env.under rest).under top := by
  have hopen : first.env.locals ≠ [] := by
    intro hnil
    have hlength := (h.splits "").1
    rw [Environment.length_column, hnil] at hlength
    exact absurd hlength (Nat.lt_irrefl 1)
  have hdepth : second.env.locals.length = first.env.locals.length + 1 := by
    have hlength := Ground.length_splitting (h.splits "")
    rwa [Environment.length_column, Environment.length_column, Nat.add_right_cancel_iff] at hlength
  obtain ⟨⟨scopes, globals⟩, functions, hosts, gas, limit⟩ := second
  obtain ⟨top, below, rfl⟩ := List.exists_cons_of_length_eq_add_one hdepth
  obtain ⟨rest, others, rfl⟩ := List.exists_cons_of_ne_nil fun hnil : below = [] =>
    hopen (List.length_eq_zero_iff.mp (by simpa [hnil] using hdepth))
  exact ⟨hopen, top, rest, ⟨others, globals⟩, rfl⟩

/-- The scopes in the end: the inner one is what it was, and the outer one has
what the one scope has in the end. -/
theorem Over.exists_split (h : Over (.splitting inner outer hidden) [] first second)
    (hinner : ∀ name, name ∉ hidden → inner.get? name = none) :
    ∃ rest : Scope, second = (first.closed.under rest).under inner ∧
      (∀ name ∈ hidden, rest.get? name = outer.get? name) ∧
        ∀ name, name ∉ hidden → (first.env.column name).head? = some (rest.get? name) := by
  obtain ⟨hopen, top, rest, env, henv⟩ := h.exists_scopes
  have hsplits : ∀ name, (Ground.splitting inner outer hidden).differs name
      (first.env.column name) (top.get? name :: rest.get? name :: env.column name) := by
    intro name
    have hname := h.splits name
    rwa [henv, Environment.column_under, Environment.column_under] at hname
  have hother : ∀ name, name ∉ hidden → top.get? name = none ∧
      rest.get? name :: env.column name = first.env.column name :=
    fun name hname => List.cons.inj ((hsplits name).2.2 hname)
  refine ⟨rest, ?_, fun name hname => ?_, fun name hname => ?_⟩
  · have hsame : second.env = (first.env.pop.under rest).under inner := by
      apply Environment.eq_of_column
      intro name
      rw [henv, Environment.column_under, Environment.column_under, Environment.column_under,
        Environment.column_under, Environment.column_pop_of_open hopen]
      by_cases hname : name ∈ hidden
      · obtain ⟨htop, hparts⟩ := List.cons.inj ((hsplits name).2.1 hname)
        rw [htop, (List.cons.inj hparts).2]
      · obtain ⟨htop, hcolumn⟩ := hother name hname
        rw [htop, hinner name hname, ← hcolumn]
        rfl
    obtain ⟨hfunctions, hhosts, hgas, hlimit, -, -⟩ := h
    obtain ⟨_, functions, hosts, gas, limit⟩ := second
    simp only at hfunctions hhosts hgas hlimit hsame
    rw [hsame, hfunctions, hhosts, hgas, hlimit]
    rfl
  · exact (List.cons.inj (List.cons.inj ((hsplits name).2.1 hname)).2).1
  · rw [← (hother name hname).2]
    rfl

end Ends

end Machine

namespace Expr

open Eval Machine

/-- Code that leaves the hidden names alone ends the same way in either scopes. -/
theorem evalWithin_splitting {inner outer scope : Scope} {hidden : Set String} {e : Expr}
    {fuel : Nat} {before last : Machine} {outcome : Except EvalError Value}
    (hinner : ∀ name, name ∉ hidden → inner.get? name = none)
    (houter : ∀ name, name ∉ hidden → outer.get? name = scope.get? name)
    (he : e.Fenced hidden hidden ∅) (hfences : before.Fences hidden)
    (hrun : e.evalWithin fuel (before.under scope) = lift outcome last)
    (hgas : outcome ≠ .error .gasExhausted) :
    ∃ rest : Scope, e.LeadsTo ((before.under outer).under inner) outcome
        ((last.closed.under rest).under inner) ∧
      (∀ name ∈ hidden, rest.get? name = outer.get? name) ∧
        ∀ name, name ∉ hidden → (last.env.column name).head? = some (rest.get? name) := by
  obtain ⟨final, hfinal, hlast, -⟩ := (blends_of_fenced fuel he (.none _)).ends
    (over_splitting hfences hinner houter) hrun
  obtain ⟨rest, rfl, hrest⟩ := (hlast hgas).exists_split hinner
  exact ⟨rest, LeadsTo.of_run hfinal hgas, hrest⟩

end Expr

end SceneQuiz
