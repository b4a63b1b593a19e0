import Mathlib.Data.Set.Insert
import SceneQuiz.Proofs.Machine.Scope
/-!
What the scopes bind one name to, from the innermost scope to the globals: the
column of the name.  Opening a scope puts an entry on top of every column and
closing it takes the entry away again.  An assignment reaches one column only,
and there the first entry that is bound, or else the last one.
-/

namespace SceneQuiz

theorem NameMap.contains_ofList {α : Type} {entries : List (String × α)} {name : String} :
    (NameMap.ofList entries).contains name = true ↔ name ∈ entries.map Prod.fst := by
  have hfold : ∀ map : NameMap α,
      (entries.foldl (fun map entry => map.insert entry.1 entry.2) map).contains name = true ↔
        map.contains name = true ∨ name ∈ entries.map Prod.fst := by
    induction entries with
    | nil => simp
    | cons entry rest ih =>
        intro map
        rw [List.foldl_cons, ih, List.map_cons, List.mem_cons]
        by_cases heq : name = entry.1 <;> simp [NameMap.contains, heq]
  rw [NameMap.ofList, hfold]
  simp [NameMap.contains]

/-- Columns before and after any number of assignments to their name. -/
inductive Reassigned : List (Option Value) → List (Option Value) → Prop where
  | same (column : List (Option Value)) : Reassigned column column
  | here (before after : Value) (outer : List (Option Value)) :
      Reassigned (some before :: outer) (some after :: outer)
  | globally (before : Option Value) (after : Value) :
      Reassigned [before] [some after]
  | outward {before after : List (Option Value)} (h : Reassigned before after) :
      Reassigned (none :: before) (none :: after)

namespace Reassigned

variable {before middle after : List (Option Value)}

theorem length_eq (h : Reassigned before after) : after.length = before.length := by
  induction h with
  | same | here | globally => rfl
  | outward _ ih => simp [ih]

/-- Assignments to a bound name stay in the scope that binds it. -/
theorem of_bound {value : Value} {outer : List (Option Value)}
    (h : Reassigned (some value :: outer) after) :
    ∃ other, after = some other :: outer := by
  cases h with
  | same => exact ⟨value, rfl⟩
  | here _ other => exact ⟨other, rfl⟩
  | globally _ other => exact ⟨other, rfl⟩

/-- Assignments pass a scope by that does not bind their name. -/
theorem of_free {outer : List (Option Value)} (h : Reassigned (none :: outer) after)
    (houter : outer ≠ []) : ∃ other, after = none :: other ∧ Reassigned outer other := by
  cases h with
  | same => exact ⟨outer, rfl, .same outer⟩
  | globally => exact absurd rfl houter
  | outward hinner => exact ⟨_, rfl, hinner⟩

theorem trans (hfirst : Reassigned before middle) (hsecond : Reassigned middle after) :
    Reassigned before after := by
  induction hfirst generalizing after with
  | same => exact hsecond
  | here first _ outer =>
      obtain ⟨last, rfl⟩ := hsecond.of_bound
      exact .here first last outer
  | globally first =>
      obtain ⟨last, rfl⟩ := hsecond.of_bound
      exact .globally first last
  | outward hinner ih =>
      cases hsecond with
      | same => exact .outward hinner
      | globally _ last =>
          obtain rfl := List.length_eq_zero_iff.mp hinner.length_eq.symm
          exact .globally none last
      | outward hrest => exact .outward (ih hrest)

/-- Without the innermost entry the columns still match. -/
theorem tail {entry : Option Value} {outer : List (Option Value)}
    (h : Reassigned (entry :: outer) after) : Reassigned outer after.tail := by
  cases h with
  | same | here | globally => exact .same _
  | outward hinner => exact hinner

end Reassigned

namespace Environment

/-- What the scopes bind a name to, the innermost first and the globals last. -/
def column (env : Environment) (name : String) : List (Option Value) :=
  env.locals.map (·.get? name) ++ [env.globals.get? name]

@[simp] theorem column_under (env : Environment) (scope : Scope) (name : String) :
    (env.under scope).column name = scope.get? name :: env.column name := rfl

@[simp] theorem length_column (env : Environment) (name : String) :
    (env.column name).length = env.locals.length + 1 := by
  simp [column]

/-- Closing a scope takes the first entry away. -/
theorem column_pop {env : Environment} {name : String} {entry : Option Value}
    {outer : List (Option Value)} (h : env.column name = entry :: outer) (houter : outer ≠ []) :
    env.pop.column name = outer := by
  obtain ⟨locals, globals⟩ := env
  cases locals with
  | nil => exact absurd (List.cons.inj h).2.symm houter
  | cons scope rest => exact (List.cons.inj h).2

/-- The innermost binding is the one that is read. -/
theorem get?_eq_column (env : Environment) (name : String) :
    env.get? name = (env.column name).findSome? fun entry => entry := by
  obtain ⟨locals, globals⟩ := env
  induction locals with
  | nil => cases h : globals.get? name <;> simp [get?, lookup, column, h]
  | cons scope rest ih =>
      cases h : scope.get? name with
      | some value => simp [get?, lookup, column, h]
      | none => simpa [get?, lookup, column, h] using ih

theorem assign_nil (globals : Scope) (name : String) (value : Value) :
    (Environment.mk [] globals).assign name value = ⟨[], globals.insert name value⟩ := rfl

/-- An assignment changes the column of its name, and by one entry. -/
theorem reassigned_assign (env : Environment) (name : String) (value : Value) :
    Reassigned (env.column name) ((env.assign name value).column name) := by
  obtain ⟨locals, globals⟩ := env
  induction locals with
  | nil =>
      rw [assign_nil]
      simpa [column] using Reassigned.globally (globals.get? name) value
  | cons scope rest ih =>
      change Reassigned (column (under ⟨rest, globals⟩ scope) name)
        ((assign name value (under ⟨rest, globals⟩ scope)).column name)
      by_cases hbound : scope.contains name = true
      · obtain ⟨old, hold⟩ := Option.isSome_iff_exists.mp hbound
        rw [assign_under_bound value hbound]
        simpa [hold] using Reassigned.here old value _
      · rw [Bool.not_eq_true] at hbound
        have hfree : scope.get? name = none := by
          simpa [NameMap.contains] using hbound
        rw [assign_under_free value hbound, column_under, column_under, hfree]
        exact ih.outward

theorem column_assign_of_ne (env : Environment) {name other : String} (value : Value)
    (hne : other ≠ name) : (env.assign name value).column other = env.column other := by
  obtain ⟨locals, globals⟩ := env
  induction locals with
  | nil => simp [assign_nil, column, hne]
  | cons scope rest ih =>
      change (assign name value (under ⟨rest, globals⟩ scope)).column other =
        column (under ⟨rest, globals⟩ scope) other
      by_cases hbound : scope.contains name = true
      · simp [assign_under_bound value hbound, hne]
      · rw [Bool.not_eq_true] at hbound
        simp [assign_under_free value hbound, ih]

/-- Binding a name leaves the columns of others alone. -/
theorem column_define_of_ne (env : Environment) {name other : String} (value : Value)
    (hne : other ≠ name) : (env.define name value).column other = env.column other := by
  obtain ⟨locals, globals⟩ := env
  cases locals <;> simp [define, column, hne]

/-- Some assignments to the names in `written` lead from one environment to the
other, as far as any single name can tell. -/
def Changes (written : Set String) (before after : Environment) : Prop :=
  ∀ name, Reassigned (before.column name) (after.column name) ∧
    (name ∉ written → after.column name = before.column name)

namespace Changes

variable {written allowed : Set String} {before middle after : Environment}

theorem refl (env : Environment) : Changes written env env :=
  fun name => ⟨.same (env.column name), fun _ => rfl⟩

theorem trans (hfirst : Changes written before middle)
    (hsecond : Changes written middle after) : Changes written before after := by
  intro name
  refine ⟨(hfirst name).1.trans (hsecond name).1, fun hname => ?_⟩
  exact ((hsecond name).2 hname).trans ((hfirst name).2 hname)

theorem mono (h : Changes written before after) (hsub : written ⊆ allowed) :
    Changes allowed before after :=
  fun name => ⟨(h name).1, fun hname => (h name).2 fun hwritten => hname (hsub hwritten)⟩

theorem assign (env : Environment) {name : String} (hname : name ∈ written)
    (value : Value) : Changes written env (env.assign name value) := by
  intro other
  by_cases heq : other = name
  · subst heq
    exact ⟨env.reassigned_assign other value, fun hfree => absurd hname hfree⟩
  · rw [column_assign_of_ne env value heq]
    exact ⟨.same _, fun _ => rfl⟩

theorem length_locals (h : Changes written before after) :
    after.locals.length = before.locals.length := by
  simpa using (h "").1.length_eq

/-- Inside a scope that binds every further name that is written, only the
allowed names are changed outside it. -/
theorem exists_under {env : Environment} {scope : Scope}
    (h : Changes written (env.under scope) after)
    (hscope : ∀ name ∈ written, name ∈ allowed ∨ scope.contains name = true) :
    ∃ outer inner, after = Environment.under outer inner ∧ Changes allowed env outer := by
  obtain ⟨locals, globals⟩ := after
  cases locals with
  | nil => exact absurd h.length_locals (by simp [under])
  | cons inner rest =>
      refine ⟨⟨rest, globals⟩, inner, rfl, fun name => ⟨(h name).1.tail, fun hname => ?_⟩⟩
      by_cases hwritten : name ∈ written
      · obtain ⟨value, hvalue⟩ :=
          Option.isSome_iff_exists.mp ((hscope name hwritten).resolve_left hname)
        have hreassigned := (h name).1
        rw [column_under, hvalue] at hreassigned
        obtain ⟨other, hother⟩ := hreassigned.of_bound
        exact (List.cons.inj hother).2
      · exact (List.cons.inj ((h name).2 hwritten)).2

/-- Closing the scope again leaves the changes that were allowed. -/
theorem pop {env : Environment} {scope : Scope}
    (h : Changes written (env.under scope) after)
    (hscope : ∀ name ∈ written, name ∈ allowed ∨ scope.contains name = true) :
    Changes allowed env after.pop := by
  obtain ⟨outer, inner, rfl, houter⟩ := h.exists_under hscope
  exact houter

end Changes

end Environment

end SceneQuiz
