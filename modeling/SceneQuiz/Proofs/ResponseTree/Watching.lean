import SceneQuiz.Proofs.Machine.RestrainedRun
import SceneQuiz.Proofs.ResponseTree.FunctionRun
/-!
Watching variables while the function of a response tree runs.  Some variables of
the function have known values, its marks; some names of the author still have
the values from before.  Code that spares them, and assignments to all other
variables of the function, leave both as they are.
-/

namespace SceneQuiz

namespace ResponseTree

/-- Variables with known values, and names with the values from before. -/
structure Stands (facts : List (String × Value)) (watched : Set String)
    (before env : Environment) : Prop where
  facts : ∀ fact ∈ facts, env.reading fact.1 = fact.2
  watched : ∀ name ∈ watched, env.reading name = before.reading name

namespace Stands

variable {facts fewer : List (String × Value)} {watched less : Set String}
  {before env after : Environment}

theorem later (h : Stands facts watched before env)
    (hfacts : ∀ fact ∈ facts, after.column fact.1 = env.column fact.1)
    (hwatched : ∀ name ∈ watched, after.column name = env.column name) :
    Stands facts watched before after := by
  constructor
  · intro fact hfact
    rw [Environment.reading_of_column (hfacts fact hfact), h.facts fact hfact]
  · intro name hname
    rw [Environment.reading_of_column (hwatched name hname), h.watched name hname]

theorem assign (h : Stands facts watched before env) {name : String}
    (hfacts : name ∉ facts.map Prod.fst) (hwatched : name ∉ watched) (value : Value) :
    Stands facts watched before (env.assign name value) := by
  apply h.later
  · intro fact hfact
    apply Environment.column_assign_of_ne
    rintro rfl
    exact hfacts (List.mem_map_of_mem hfact)
  · intro other hother
    apply Environment.column_assign_of_ne
    rintro rfl
    exact hwatched hother

theorem weaken (h : Stands facts watched before env) (hfacts : ∀ fact ∈ fewer, fact ∈ facts)
    (hwatched : less ⊆ watched) : Stands fewer less before env :=
  ⟨fun fact hfact => h.facts fact (hfacts fact hfact),
    fun name hname => h.watched name (hwatched hname)⟩

/-- Assigning a variable makes its value known. -/
theorem learn (h : Stands facts watched before env) {name : String}
    (hfacts : name ∉ facts.map Prod.fst) (hwatched : name ∉ watched) (value : Value) :
    Stands ((name, value) :: facts) watched before (env.assign name value) := by
  have hrest := h.assign hfacts hwatched value
  exact ⟨List.forall_mem_cons.mpr ⟨Environment.reading_assign env name value, hrest.facts⟩,
    hrest.watched⟩

end Stands

namespace Emit

open Eval

/-- The variables of the function whose values are followed. -/
def markNames : List String := [Vars.path, Vars.stop, Vars.updates, Vars.outcome]

/-- Code that spares the variables of the function, and names in `pool` unless
they are in `written`. -/
def Sparing (setting : Setting) (pool : Set String) (written : List String) (e : Expr) : Prop :=
  ∀ fuel, Spares setting {name | name ∈ ownNames ∨ name ∈ pool ∧ name ∉ written}
    (e.evalWithin fuel)

/-- A setting where calls spare the variables of the function and the names in
`pool`, which are neither of the function nor `simp`.  No function hides `cons`,
with which the path is extended. -/
structure Watches (setting : Setting) (pool : Set String) : Prop where
  apart : ∀ name ∈ pool, name ∉ "simp" :: ownNames
  plain : ∀ machine, setting.holds machine →
    machine.hosts.get? "cons" = none ∧ machine.functions.get? "cons" = none
  calls : ∀ fuel name args, Spares setting {name | name ∈ ownNames ∨ name ∈ pool}
    (Eval.apply (Expr.evalWithin fuel) name args)

/-- The course of a run outside of any trap.  An error may leave anything, and a
`return` can only be the one that gives up. -/
abbrev Proceeds {α : Type} (setting : Setting) (pre : Environment → Prop)
    (post : α → Environment → Prop) (run : Eval α) : Prop :=
  Brings setting pre post (fun _ => True) (fun value _ => value = .list []) run

section Steadiness

variable {setting : Setting} {bound fuel : Nat} {known : Environment → Prop} {e : Expr}
  {items : List Expr} {broken : Environment → Prop}

theorem Steady.brings (h : Steady setting bound known e) (hfuel : fuel < bound)
    (hbroken : ∀ env, known env → broken env) :
    Brings setting known (fun _ => known) broken (fun value _ => value = .list [])
      (e.evalWithin fuel) :=
  (steady_iff.mp h fuel hfuel).imp (fun _ hknown => hknown) (fun _ _ hknown => hknown) hbroken
    fun _ _ hleft => hleft.1

theorem SteadyAll.brings (h : SteadyAll setting bound known items) (hfuel : fuel < bound)
    (hbroken : ∀ env, known env → broken env) (last : Value) :
    Brings setting known (fun _ => known) broken (fun value _ => value = .list [])
      (sequence (Expr.evalWithin fuel) last items) :=
  (steadyAll_iff.mp h fuel hfuel last).imp (fun _ hknown => hknown) (fun _ _ hknown => hknown)
    hbroken fun _ _ hleft => hleft.1

/-- What is known may be one of several things. -/
theorem steadyAll_exists {ι : Type} {known : ι → Environment → Prop}
    (h : ∀ i, SteadyAll setting bound (known i) items) :
    SteadyAll setting bound (fun env => ∃ i, known i env) items := by
  rw [steadyAll_iff]
  intro fuel hfuel last
  apply Brings.of_exists
  intro i
  apply (steadyAll_iff.mp (h i) fuel hfuel last).imp (fun _ hknown => hknown)
  · exact fun _ _ hknown => ⟨i, hknown⟩
  · exact fun _ hknown => ⟨i, hknown⟩
  · exact fun _ _ hleft => ⟨hleft.1, i, hleft.2⟩

theorem steady_of_spares {names : Set String}
    (h : ∀ fuel, Spares setting names (e.evalWithin fuel))
    (hknown : ∀ {env after}, known env → (∀ name ∈ names, after.column name = env.column name) →
      known after) : Steady setting bound known e :=
  steady_iff.mpr fun fuel _ => (h fuel).brings hknown

end Steadiness

section Watching

variable {setting : Setting} {pool watched : Set String} {written : List String}
  {facts : List (String × Value)} {before : Environment} {bound : Nat}

/-- Code that spares what is watched leaves everything as it stands. -/
theorem Sparing.steady {e : Expr} (h : Sparing setting pool written e)
    (hfacts : ∀ name ∈ facts.map Prod.fst, name ∈ markNames)
    (hwatched : ∀ name ∈ watched, name ∈ pool ∧ name ∉ written) :
    Steady setting bound (Stands facts watched before) e := by
  have hmarks : ∀ name ∈ markNames, name ∈ ownNames := by decide
  apply steady_of_spares h
  intro env after hstands hcolumns
  apply hstands.later
  · exact fun fact hfact =>
      hcolumns fact.1 (.inl (hmarks _ (hfacts _ (List.mem_map_of_mem hfact))))
  · exact fun name hname => hcolumns name (.inr (hwatched name hname))

/-- The function leaves its marks alone where it assigns other variables. -/
theorem Watches.upholds (h : Watches setting pool)
    (hfacts : ∀ name ∈ facts.map Prod.fst, name ∈ markNames)
    (hwatched : ∀ name ∈ watched, name ∈ pool ∧ name ∉ written) :
    Upholds setting bound (Stands facts watched before)
      (fun name => name ∈ "simp" :: ownNames ∧ name ∉ facts.map Prod.fst) (fun _ => True)
      (Sparing setting pool written) := by
  have hapart : ∀ name ∈ "simp" :: ownNames, name ∉ watched := fun name hname hmem =>
    h.apart name (hwatched name hmem).1 hname
  have hassigned : ∀ {name}, name ∈ "simp" :: ownNames ∧ name ∉ facts.map Prod.fst →
      ∀ {env}, Stands facts watched before env → ∀ value,
        Stands facts watched before (env.assign name value) :=
    fun hname _ hstands value => hstands.assign hname.2 (hapart _ hname.1) value
  constructor
  · exact fun he => he.steady hfacts hwatched
  · intro fuel _ name args
    rw [← brings_iff_respects]
    apply (h.calls fuel name args).brings
    intro env after hstands hcolumns
    have hmarks : ∀ name ∈ markNames, name ∈ ownNames := by decide
    apply hstands.later
    · exact fun fact hfact =>
        hcolumns fact.1 (.inl (hmarks _ (hfacts _ (List.mem_map_of_mem hfact))))
    · exact fun name hname => hcolumns name (.inr (hwatched name hname).1)
  · exact hassigned
  · intro target _ env hstands
    have hscene : Vars.nextScene ∉ markNames := by decide
    exact hassigned ⟨by decide, fun hmem => hscene (hfacts _ hmem)⟩ hstands _
  · intro test htest
    apply steadyAll_unsimplified (htest.steady hfacts hwatched)
    have hfree : ∀ name ∈ ["simp", Vars.savedSimp, Vars.testResult],
        name ∈ "simp" :: ownNames ∧ name ∉ markNames := by decide
    intro name hname
    obtain ⟨hown, hmark⟩ := hfree name hname
    exact hassigned ⟨hown, fun hmem => hmark (hfacts name hmem)⟩

end Watching

end Emit

end ResponseTree

end SceneQuiz
