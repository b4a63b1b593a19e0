import SceneQuiz.Proofs.Machine.Column
import SceneQuiz.Proofs.Machine.Outcome
import SceneQuiz.Proofs.Machine.Following
/-!
Machines that differ in what a few variables hold.  The columns of such a
variable differ at most in the first entry that is bound, by values that are
related; all other columns are the same.  Opening and closing scopes keeps
machines near each other, and so do assignments of the same value to a variable
that does not differ or of related values to one that does.
-/

namespace SceneQuiz

/-- Columns that differ at most in their first bound entry. -/
inductive NearColumns (rel : Value → Value → Prop) :
    List (Option Value) → List (Option Value) → Prop where
  | same (column : List (Option Value)) : NearColumns rel column column
  | here {first second : Value} (h : rel first second) (outer : List (Option Value)) :
      NearColumns rel (some first :: outer) (some second :: outer)
  | outward {first second : List (Option Value)} (h : NearColumns rel first second) :
      NearColumns rel (none :: first) (none :: second)

namespace NearColumns

variable {rel : Value → Value → Prop} {first second : List (Option Value)}

theorem length_eq (h : NearColumns rel first second) : second.length = first.length := by
  induction h with
  | same | here => rfl
  | outward _ ih => simp [ih]

/-- Columns are the same where no values are related. -/
theorem eq (h : NearColumns rel first second) (hrel : ∀ value other, ¬ rel value other) :
    second = first := by
  induction h with
  | same => rfl
  | here hvalues => exact absurd hvalues (hrel _ _)
  | outward _ ih => rw [ih]

theorem mono {weaker : Value → Value → Prop} (h : NearColumns rel first second)
    (himp : ∀ value other, rel value other → weaker value other) :
    NearColumns weaker first second := by
  induction h with
  | same column => exact .same column
  | here hvalues outer => exact .here (himp _ _ hvalues) outer
  | outward _ ih => exact .outward ih

/-- Without their innermost entries the columns are still near each other. -/
theorem tail (h : NearColumns rel first second) : NearColumns rel first.tail second.tail := by
  cases h with
  | same | here => exact .same _
  | outward hinner => exact hinner

/-- Past a bound entry the columns are the same. -/
theorem tail_eq {value : Value} {outer : List (Option Value)}
    (h : NearColumns rel (some value :: outer) second) : second.tail = outer := by
  cases h with
  | same | here => rfl

/-- What is read of a variable is related or the same. -/
theorem findSome? (h : NearColumns rel first second) :
    second.findSome? (fun entry => entry) = first.findSome? (fun entry => entry) ∨
      ∃ value other, first.findSome? (fun entry => entry) = some value ∧
        second.findSome? (fun entry => entry) = some other ∧ rel value other := by
  induction h with
  | same => exact .inl rfl
  | here hvalues => exact .inr ⟨_, _, rfl, rfl, hvalues⟩
  | outward _ ih => exact ih

end NearColumns

/-- A column with a new value in the first entry that is bound, or else in the
last. -/
def assignColumn (value : Value) : List (Option Value) → List (Option Value)
  | [] => []
  | [_] => [some value]
  | some _ :: outer => some value :: outer
  | none :: outer => none :: assignColumn value outer

theorem length_assignColumn (value : Value) (column : List (Option Value)) :
    (assignColumn value column).length = column.length := by
  induction column with
  | nil => rfl
  | cons entry outer ih =>
      cases outer with
      | nil => rfl
      | cons next outer =>
          cases entry with
          | some old => rfl
          | none => exact congrArg (· + 1) ih

theorem assignColumn_none (value : Value) {outer : List (Option Value)} (h : outer ≠ []) :
    assignColumn value (none :: outer) = none :: assignColumn value outer := by
  cases outer with
  | nil => exact absurd rfl h
  | cons entry outer => rfl

theorem assignColumn_some (value old : Value) (outer : List (Option Value)) :
    assignColumn value (some old :: outer) = some value :: outer := by
  cases outer <;> rfl

theorem NearColumns.assign {rel : Value → Value → Prop} {first second : List (Option Value)}
    {value other : Value} (h : NearColumns rel first second) (hvalues : rel value other) :
    NearColumns rel (assignColumn value first) (assignColumn other second) := by
  have hsame : ∀ column,
      NearColumns rel (assignColumn value column) (assignColumn other column) := by
    intro column
    induction column with
    | nil => exact .same _
    | cons entry outer ih =>
        cases outer with
        | nil => exact .here hvalues []
        | cons next outer =>
            cases entry with
            | some _ => exact .here hvalues _
            | none => exact .outward ih
  induction h with
  | same column => exact hsame column
  | here _ outer => cases outer <;> exact .here hvalues _
  | @outward first second hinner ih =>
      cases first with
      | nil =>
          obtain rfl := List.length_eq_zero_iff.mp hinner.length_eq
          exact .here hvalues []
      | cons entry outer =>
          cases second with
          | nil => cases hinner.length_eq
          | cons next others => exact .outward ih

namespace Environment

theorem column_assign_self (env : Environment) (name : String) (value : Value) :
    (env.assign name value).column name = assignColumn value (env.column name) := by
  obtain ⟨locals, globals⟩ := env
  induction locals with
  | nil => simp [assign_nil, column, assignColumn]
  | cons scope rest ih =>
      change (assign name value (under ⟨rest, globals⟩ scope)).column name =
        assignColumn value (column (under ⟨rest, globals⟩ scope) name)
      obtain ⟨entry, outer, houter⟩ := List.exists_cons_of_length_eq_add_one
        (length_column ⟨rest, globals⟩ name)
      by_cases hbound : scope.contains name = true
      · obtain ⟨old, hold⟩ := Option.isSome_iff_exists.mp hbound
        rw [assign_under_bound value hbound, column_under, column_under, hold, houter]
        simp [assignColumn]
      · rw [Bool.not_eq_true] at hbound
        have hfree : scope.get? name = none := by
          simpa [NameMap.contains] using hbound
        rw [assign_under_free value hbound, column_under, column_under, hfree, ih, houter]
        rfl

theorem pop_of_closed {env : Environment} (h : env.locals = []) : env.pop = env := by
  obtain ⟨locals, globals⟩ := env
  cases h
  rfl

theorem column_pop_of_open {env : Environment} (h : env.locals ≠ []) (name : String) :
    env.pop.column name = (env.column name).tail := by
  obtain ⟨locals, globals⟩ := env
  cases locals with
  | nil => exact absurd rfl h
  | cons scope rest => rfl

theorem column_define_self (env : Environment) (name : String) (value : Value) :
    (env.define name value).column name = some value :: (env.column name).tail := by
  obtain ⟨locals, globals⟩ := env
  cases locals <;> simp [define, column]

end Environment

namespace Machine

/-- No function is defined, and no builtin is hidden by an outside one. -/
structure Bare (machine : Machine) : Prop where
  builtins : machine.HasBuiltins
  functions : ∀ name, machine.functions.get? name = none

theorem Bare.lacks {machine : Machine} (h : machine.Bare) {names : List String}
    (hnames : ∀ name ∈ names, ∃ builtin : Builtin, builtin.name = name) : machine.Lacks names := by
  intro name hname
  obtain ⟨builtin, rfl⟩ := hnames name hname
  exact h.builtins builtin

/-- Bare machines that differ at most in their budgets and, by related values,
in the loose variables. -/
structure Near (rel : Value → Value → Prop) (loose : Set String) (first second : Machine) :
    Prop where
  bare : first.Bare
  functions : second.functions = first.functions
  hosts : second.hosts = first.hosts
  columns : ∀ name, NearColumns (fun value other => name ∈ loose ∧ rel value other)
    (first.env.column name) (second.env.column name)

namespace Near

variable {rel : Value → Value → Prop} {loose : Set String} {first second : Machine}

theorem refl {machine : Machine} (h : machine.Bare) : Near rel loose machine machine :=
  ⟨h, rfl, rfl, fun _ => .same _⟩

/-- Budgets do not count. -/
theorem alike {before after : Machine} (h : Near rel loose first second)
    (hbefore : first.Alike before) (hafter : second.Alike after) :
    Near rel loose before after := by
  obtain ⟨⟨hbuiltins, hnone⟩, hfunctions, hhosts, hcolumns⟩ := h
  refine ⟨⟨fun builtin => ?_, fun name => ?_⟩, ?_, ?_, fun name => ?_⟩
  · rw [hbefore.hosts, hbefore.functions]
    exact hbuiltins builtin
  · rw [hbefore.functions]
    exact hnone name
  · rw [hafter.functions, hbefore.functions, hfunctions]
  · rw [hafter.hosts, hbefore.hosts, hhosts]
  · rw [hafter.env, hbefore.env]
    exact hcolumns name

theorem bare_second (h : Near rel loose first second) : second.Bare := by
  refine ⟨fun builtin => ?_, fun name => ?_⟩
  · rw [h.hosts, h.functions]
    exact h.bare.builtins builtin
  · rw [h.functions]
    exact h.bare.functions name

theorem changed {env other : Environment} (h : Near rel loose first second)
    {loosened : Set String}
    (hcolumns : ∀ name, NearColumns (fun value other => name ∈ loosened ∧ rel value other)
      (env.column name) (other.column name)) :
    Near rel loosened { first with env := env } { second with env := other } :=
  ⟨⟨h.bare.builtins, h.bare.functions⟩, h.functions, h.hosts, hcolumns⟩

theorem column_eq (h : Near rel loose first second) {name : String} (hname : name ∉ loose) :
    second.env.column name = first.env.column name :=
  (h.columns name).eq fun _ _ hdiffer => hname hdiffer.1

theorem loosened {looser : Set String} (h : Near rel loose first second)
    (hsub : loose ⊆ looser) : Near rel looser first second :=
  ⟨h.bare, h.functions, h.hosts, fun name =>
    (h.columns name).mono fun _ _ hdiffer => ⟨hsub hdiffer.1, hdiffer.2⟩⟩

theorem get?_eq (h : Near rel loose first second) {name : String} (hname : name ∉ loose) :
    second.env.get? name = first.env.get? name := by
  rw [Environment.get?_eq_column, Environment.get?_eq_column, h.column_eq hname]

/-- Only the column of its name sees an assignment. -/
theorem assigned_each (h : Near rel loose first second) {name : String} {value other : Value}
    (hname : NearColumns (fun value other => name ∈ loose ∧ rel value other)
      (assignColumn value (first.env.column name))
      (assignColumn other (second.env.column name))) :
    Near rel loose { first with env := first.env.assign name value }
      { second with env := second.env.assign name other } := by
  apply h.changed
  intro wanted
  by_cases heq : wanted = name
  · subst heq
    rw [Environment.column_assign_self, Environment.column_assign_self]
    exact hname
  · rw [Environment.column_assign_of_ne _ _ heq, Environment.column_assign_of_ne _ _ heq]
    exact h.columns wanted

theorem assigned (h : Near rel loose first second) {name : String} (hname : name ∉ loose)
    (value : Value) :
    Near rel loose { first with env := first.env.assign name value }
      { second with env := second.env.assign name value } := by
  apply h.assigned_each
  rw [h.column_eq hname]
  exact .same _

theorem assigned_loose (h : Near rel loose first second) {name : String} (hname : name ∈ loose)
    {value other : Value} (hvalues : rel value other) :
    Near rel loose { first with env := first.env.assign name value }
      { second with env := second.env.assign name other } :=
  h.assigned_each ((h.columns name).assign ⟨hname, hvalues⟩)

theorem defined (h : Near rel loose first second) {name : String} (hname : name ∉ loose)
    (value : Value) :
    Near rel loose { first with env := first.env.define name value }
      { second with env := second.env.define name value } := by
  apply h.changed
  intro wanted
  by_cases heq : wanted = name
  · subst heq
    rw [Environment.column_define_self, Environment.column_define_self, h.column_eq hname]
    exact .same _
  · rw [Environment.column_define_of_ne _ _ heq, Environment.column_define_of_ne _ _ heq]
    exact h.columns wanted

/-- A scope may bind what does not differ. -/
theorem opened (h : Near rel loose first second) {bindings : List (String × Value)}
    (hbound : ∀ name ∈ bindings.map Prod.fst, name ∉ loose) :
    Near rel loose { first with env := first.env.push.defineAll bindings }
      { second with env := second.env.push.defineAll bindings } := by
  apply h.changed
  intro name
  rw [Environment.push_defineAll, Environment.push_defineAll, Environment.column_under,
    Environment.column_under]
  by_cases hname : name ∈ loose
  · have hfree : (NameMap.ofList bindings).get? name = none := by
      apply Option.not_isSome_iff_eq_none.mp
      exact fun hsome => hbound name (NameMap.contains_ofList.mp hsome) hname
    rw [hfree]
    exact .outward (h.columns name)
  · rw [h.column_eq hname]
    exact .same _

/-- Closing a scope, inside of which one more variable may have differed if the
scope binds it. -/
theorem closed {tighter : Set String} (h : Near rel loose first second)
    (hbound : ∀ name ∈ loose, name ∈ tighter ∨
      ∃ value outer, first.env.column name = some value :: outer ∧ outer ≠ []) :
    Near rel tighter { first with env := first.env.pop }
      { second with env := second.env.pop } := by
  have hlocals : second.env.locals.length = first.env.locals.length := by
    simpa using (h.columns "").length_eq
  apply h.changed
  intro name
  by_cases hopen : first.env.locals = []
  · have hother : second.env.locals = [] := by simpa [hopen] using hlocals
    rw [Environment.pop_of_closed hopen, Environment.pop_of_closed hother]
    apply (h.columns name).mono
    rintro _ _ ⟨hname, hvalues⟩
    refine ⟨(hbound name hname).resolve_right ?_, hvalues⟩
    rintro ⟨_, outer, hcolumn, houter⟩
    have hlength := congrArg List.length hcolumn
    rw [Environment.length_column, hopen] at hlength
    exact houter (List.length_eq_zero_iff.mp (Nat.succ.inj hlength.symm))
  · have hother : second.env.locals ≠ [] := by
      intro hnil
      rw [hnil] at hlocals
      exact hopen (List.length_eq_zero_iff.mp hlocals.symm)
    rw [Environment.column_pop_of_open hopen, Environment.column_pop_of_open hother]
    by_cases hname : name ∈ loose
    · rcases hbound name hname with htighter | ⟨value, outer, hcolumn, -⟩
      · exact (h.columns name).tail.mono fun _ _ hdiffer => ⟨htighter, hdiffer.2⟩
      · have hcolumns := h.columns name
        rw [hcolumn] at hcolumns ⊢
        rw [hcolumns.tail_eq]
        exact .same _
    · rw [h.column_eq hname]
      exact .same _

end Near

end Machine

end SceneQuiz
