import SceneQuiz.Proofs.Machine.Nearness
import SceneQuiz.Proofs.Machine.Policy
import SceneQuiz.Proofs.Machine.Respect
/-!
Code that cannot tell on which of two grounds it runs.  Scopes that were opened
since it began are the same on both machines; below them the columns of a name
may differ, and may even have different lengths, as long as names that are read
there have the same value and assignments there keep the difference.  Code is
fenced if the names for which this does not hold are read or assigned only where
one of its own blocks, loops or parameters binds them.
-/

namespace SceneQuiz

/-- What is read of a name with this column: the innermost binding, or the
symbol of the name. -/
def readColumn (name : String) (column : List (Option Value)) : Value :=
  (column.findSome? fun entry => entry).getD (.symbol name)

theorem Environment.readColumn_column (env : Environment) (name : String) :
    readColumn name (env.column name) = (env.get? name).getD (.symbol name) := by
  rw [env.get?_eq_column]
  rfl

/-- How the columns of a name may differ below the scopes opened since. -/
structure Ground where
  differs : String → List (Option Value) → List (Option Value) → Prop
  /-- Names that may be read differently. -/
  unread : Set String
  /-- Names that may not be assigned. -/
  fixed : Set String
  ne_nil : ∀ {name first second}, differs name first second → first ≠ [] ∧ second ≠ []
  read : ∀ {name first second}, name ∉ unread → differs name first second →
    readColumn name second = readColumn name first
  assign : ∀ {name first second}, name ∉ fixed → differs name first second →
    ∀ value, differs name (assignColumn value first) (assignColumn value second)

/-- Columns of a name from inside scopes that each bind at least the names
given: they agree inside, and differ as the ground says below. -/
inductive Stacked (ground : Ground) (name : String) :
    List (Set String) → List (Option Value) → List (Option Value) → Prop where
  | grounded {first second : List (Option Value)} (h : ground.differs name first second) :
      Stacked ground name [] first second
  | inside {names : Set String} {scopes : List (Set String)} {entry : Option Value}
      {first second : List (Option Value)} (hbound : name ∈ names → entry.isSome = true)
      (h : Stacked ground name scopes first second) :
      Stacked ground name (names :: scopes) (entry :: first) (entry :: second)

namespace Stacked

variable {ground : Ground} {name : String} {scopes : List (Set String)}
  {first second : List (Option Value)}

theorem ne_nil (h : Stacked ground name scopes first second) : first ≠ [] ∧ second ≠ [] := by
  cases h with
  | grounded h => exact ground.ne_nil h
  | inside => exact ⟨List.cons_ne_nil _ _, List.cons_ne_nil _ _⟩

/-- A name that an inner scope binds is read alike, and so is one that the
ground lets be read. -/
theorem readColumn_eq (h : Stacked ground name scopes first second)
    (hname : name ∈ ground.unread → ∃ names ∈ scopes, name ∈ names) :
    readColumn name second = readColumn name first := by
  induction h with
  | grounded h =>
      apply ground.read _ h
      intro hunread
      obtain ⟨_, hmem, -⟩ := hname hunread
      cases hmem
  | @inside names scopes entry first second hbound _ ih =>
      cases entry with
      | some value => rfl
      | none =>
          apply ih
          intro hunread
          obtain ⟨found, hmem, hfound⟩ := hname hunread
          rcases List.mem_cons.mp hmem with rfl | hmem
          · cases hbound hfound
          · exact ⟨found, hmem, hfound⟩

/-- An assignment keeps the columns stacked if an inner scope binds the name, or
the ground lets it be assigned. -/
theorem assign (h : Stacked ground name scopes first second)
    (hname : name ∈ ground.fixed → ∃ names ∈ scopes, name ∈ names) (value : Value) :
    Stacked ground name scopes (assignColumn value first) (assignColumn value second) := by
  induction h with
  | grounded h =>
      refine .grounded (ground.assign ?_ h value)
      intro hfixed
      obtain ⟨_, hmem, -⟩ := hname hfixed
      cases hmem
  | @inside names scopes entry first second hbound hinner ih =>
      cases entry with
      | some old =>
          rw [assignColumn_some, assignColumn_some]
          exact .inside (fun _ => rfl) hinner
      | none =>
          rw [assignColumn_none value hinner.ne_nil.1, assignColumn_none value hinner.ne_nil.2]
          refine .inside hbound (ih ?_)
          intro hfixed
          obtain ⟨found, hmem, hfound⟩ := hname hfixed
          rcases List.mem_cons.mp hmem with rfl | hmem
          · cases hbound hfound
          · exact ⟨found, hmem, hfound⟩

theorem tail {names : Set String} (h : Stacked ground name (names :: scopes) first second) :
    Stacked ground name scopes first.tail second.tail := by
  cases h with
  | inside _ hinner => exact hinner

theorem rebound {names others : Set String}
    (h : Stacked ground name (names :: scopes) first second)
    (hbound : name ∈ others → name ∈ names) :
    Stacked ground name (others :: scopes) first second := by
  cases h with
  | inside hhere hinner => exact .inside (fun hname => hhere (hbound hname)) hinner

end Stacked

/-- Code that reads the unread names, and assigns the fixed ones, only where they
are bound by the code itself or are among the names `bound` around it.  The body
of a definition is evaluated elsewhere, so nothing around it counts there. -/
inductive Expr.Fenced (unread fixed : Set String) : Set String → Expr → Prop where
  | routine {bound : Set String} {e : Expr} (he : e.isRoutine = true)
      (hparts : ∀ part ∈ e.children, Fenced unread fixed bound part) :
      Fenced unread fixed bound e
  | ident {bound : Set String} {name : String} (h : name ∈ unread → name ∈ bound) :
      Fenced unread fixed bound (.ident name)
  | quote {bound : Set String} (operand : Expr) : Fenced unread fixed bound (.quote operand)
  | assign {bound : Set String} {target source : Expr}
      (htarget : ∀ name, target = .ident name → name ∈ fixed → name ∈ bound)
      (hsource : Fenced unread fixed bound source) :
      Fenced unread fixed bound (.binary .assign target source)
  | define {bound : Set String} (target : Expr) {body : Expr}
      (hbody : Fenced unread fixed ∅ body) :
      Fenced unread fixed bound (.binary .define target body)
  | leave {bound : Set String} {args : List Expr}
      (hargs : ∀ arg ∈ args, Fenced unread fixed bound arg) :
      Fenced unread fixed bound (.call "return" args)
  | block {bound : Set String} {declarations body : List Expr}
      (hvalues : ∀ left right, .binary .assign left right ∈ declarations →
        Fenced unread fixed bound right)
      (hbody : ∀ part ∈ body,
        Fenced unread fixed (bound ∪ Expr.declared declarations) part) :
      Fenced unread fixed bound (.call "block" (.list declarations :: body))
  | bare {bound : Set String} {args : List Expr}
      (hbare : ∀ declarations body, args ≠ .list declarations :: body)
      (hargs : ∀ arg ∈ args, Fenced unread fixed bound arg) :
      Fenced unread fixed bound (.call "block" args)
  | forIn {bound : Set String} {var : String} {source body : Expr}
      (hsource : Fenced unread fixed bound source)
      (hbody : Fenced unread fixed (insert var bound) body) :
      Fenced unread fixed bound (.forIn var source body)
  | forRange {bound : Set String} {var : String} {first last body : Expr} {step : Option Expr}
      (hfirst : Fenced unread fixed bound first)
      (hstep : ∀ width ∈ step, Fenced unread fixed bound width)
      (hlast : Fenced unread fixed bound last)
      (hbody : Fenced unread fixed (insert var bound) body) :
      Fenced unread fixed bound (.forRange var first step last body)

namespace Machine

/-- Machines that stand on a ground, inside the scopes that were opened since. -/
structure Over (ground : Ground) (scopes : List (Set String)) (first second : Machine) :
    Prop where
  functions : second.functions = first.functions
  hosts : second.hosts = first.hosts
  gas : second.gas = first.gas
  limit : second.limit = first.limit
  columns : ∀ name, Stacked ground name scopes (first.env.column name) (second.env.column name)
  fenced : ∀ name function, first.functions.get? name = some function →
    function.body.Fenced ground.unread ground.fixed ∅

namespace Over

variable {ground : Ground} {names : Set String} {scopes : List (Set String)}
  {first second : Machine}

theorem pairing : Pairing (Over ground scopes) where
  hosts h := h.hosts
  functions h := h.functions
  gas h := h.gas
  limit h := h.limit
  counting h _ := ⟨h.functions, h.hosts, rfl, h.limit, h.columns, h.fenced⟩

/-- Only the variables count. -/
theorem changed {inner : List (Set String)} {env other : Environment}
    (h : Over ground scopes first second)
    (hcolumns : ∀ name, Stacked ground name inner (env.column name) (other.column name)) :
    Over ground inner { first with env := env } { second with env := other } :=
  ⟨h.functions, h.hosts, h.gas, h.limit, hcolumns, h.fenced⟩

theorem read_eq (h : Over ground scopes first second) {name : String}
    (hname : name ∈ ground.unread → ∃ names ∈ scopes, name ∈ names) :
    (second.env.get? name).getD (.symbol name) = (first.env.get? name).getD (.symbol name) := by
  rw [← Environment.readColumn_column, ← Environment.readColumn_column]
  exact (h.columns name).readColumn_eq hname

theorem assigned (h : Over ground scopes first second) {name : String}
    (hname : name ∈ ground.fixed → ∃ names ∈ scopes, name ∈ names) (value : Value) :
    Over ground scopes (first.assign name value) (second.assign name value) := by
  apply h.changed
  intro other
  by_cases heq : other = name
  · subst heq
    rw [Environment.column_assign_self, Environment.column_assign_self]
    exact (h.columns other).assign hname value
  · rw [Environment.column_assign_of_ne _ _ heq, Environment.column_assign_of_ne _ _ heq]
    exact h.columns other

theorem opened (h : Over ground scopes first second) {bindings : List (String × Value)}
    (hbound : ∀ name ∈ names, name ∈ bindings.map Prod.fst) :
    Over ground (names :: scopes) (first.opened bindings) (second.opened bindings) := by
  apply h.changed
  intro name
  rw [Environment.push_defineAll, Environment.push_defineAll, Environment.column_under,
    Environment.column_under]
  exact .inside (fun hmem => NameMap.contains_ofList.mpr (hbound name hmem)) (h.columns name)

/-- A closed scope was open, for there is ground below it. -/
theorem closed (h : Over ground (names :: scopes) first second) :
    Over ground scopes first.closed second.closed := by
  apply h.changed
  intro name
  have hcolumns := h.columns name
  generalize hfirst : first.env.column name = above at hcolumns
  generalize hsecond : second.env.column name = others at hcolumns
  cases hcolumns with
  | inside _ hinner =>
      rw [Environment.column_pop hfirst hinner.ne_nil.1,
        Environment.column_pop hsecond hinner.ne_nil.2]
      exact hinner

/-- A loop binds its variable in its own scope. -/
theorem defined (h : Over ground (names :: scopes) first second) (var : String)
    (value : Value) :
    Over ground (insert var names :: scopes)
      { first with env := first.env.define var value }
      { second with env := second.env.define var value } := by
  apply h.changed
  intro name
  by_cases heq : name = var
  · subst heq
    rw [Environment.column_define_self, Environment.column_define_self]
    exact .inside (fun _ => rfl) (h.columns name).tail
  · rw [Environment.column_define_of_ne _ _ heq, Environment.column_define_of_ne _ _ heq]
    exact (h.columns name).rebound fun hmem => Set.mem_of_mem_insert_of_ne hmem heq

theorem weaken {fewer : Set String} (h : Over ground (names :: scopes) first second)
    (hsub : fewer ⊆ names) : Over ground (fewer :: scopes) first second :=
  ⟨h.functions, h.hosts, h.gas, h.limit,
    fun name => (h.columns name).rebound fun hmem => hsub hmem, h.fenced⟩

/-- A new function may be called from either machine. -/
theorem learned (h : Over ground scopes first second) (name : String) (params : List String)
    {body : Expr} (hbody : body.Fenced ground.unread ground.fixed ∅) :
    Over ground scopes { first with functions := first.functions.insert name ⟨params, body⟩ }
      { second with functions := second.functions.insert name ⟨params, body⟩ } := by
  refine ⟨congrArg (·.insert name ⟨params, body⟩) h.functions, h.hosts, h.gas, h.limit,
    h.columns, ?_⟩
  intro other function hother
  rw [NameMap.get?_insert] at hother
  split at hother
  · cases hother
    exact hbody
  · exact h.fenced other function hother

end Over

end Machine

namespace Eval

open Machine

/-- A run that ends the same way on both machines. -/
abbrev Blends (ground : Ground) (scopes : List (Set String)) {α : Type} (run : Eval α) : Prop :=
  Respects (Over ground scopes) (fun _ => True) run

theorem Over.layering {ground : Ground} : Layering (Over ground) where
  pairing := Over.pairing
  opened hover hbound := hover.opened hbound
  closed hover := hover.closed
  defined hover := hover.defined
  weaken hover := hover.weaken

/-- The names `bound` around some code are bound in scopes opened since. -/
def BoundIn (scopes : List (Set String)) (bound : Set String) : Prop :=
  ∀ name ∈ bound, ∃ names ∈ scopes, name ∈ names

theorem BoundIn.none (scopes : List (Set String)) : BoundIn scopes ∅ :=
  Set.forall_mem_empty.mpr trivial

theorem BoundIn.union {bound names : Set String} {scopes : List (Set String)}
    (h : BoundIn scopes bound) : BoundIn (names :: scopes) (bound ∪ names) := by
  rintro name (hname | hname)
  · obtain ⟨found, hmem, hfound⟩ := h name hname
    exact ⟨found, List.mem_cons_of_mem names hmem, hfound⟩
  · exact ⟨names, List.mem_cons_self, hname⟩

/-- Inside a loop its variable is bound as well. -/
theorem BoundIn.inLoop {bound : Set String} {scopes : List (Set String)}
    (h : BoundIn scopes bound) (var : String) :
    BoundIn ({var} :: scopes) (insert var bound) := by
  rw [← Set.union_singleton]
  exact h.union

/-- A scope that binds nothing takes nothing away. -/
theorem BoundIn.inside {bound : Set String} {scopes : List (Set String)}
    (h : BoundIn scopes bound) : BoundIn (∅ :: scopes) bound := by
  rw [← Set.union_empty bound]
  exact h.union

/-- Calls: whatever a function is given, it is fenced by itself. -/
theorem blends_apply {ground : Ground} {ev : Expr → Eval Value}
    (hev : ∀ {scopes : List (Set String)} {body : Expr},
      body.Fenced ground.unread ground.fixed ∅ → Blends ground scopes (ev body))
    {scopes : List (Set String)} (name : String) (args : List Value) :
    Blends ground scopes (Eval.apply ev name args) :=
  Over.layering.apply fun hover function hfunction =>
    hev (hover.fenced name function hfunction)

/-- Fenced code runs alike, by induction on the fuel and by the rule that fences
it. -/
theorem blends_of_fenced {ground : Ground} (fuel : Nat) :
    ∀ {scopes : List (Set String)} {bound : Set String} {e : Expr},
      e.Fenced ground.unread ground.fixed bound → BoundIn scopes bound →
        Blends ground scopes (e.evalWithin fuel) := by
  induction fuel using Nat.strongRecOn with
  | ind fuel ih =>
    intro scopes bound e he hbound
    apply Respects.of_step Over.pairing
    intro less hless
    have hpart : ∀ {scopes : List (Set String)} {bound : Set String} {part : Expr},
        part.Fenced ground.unread ground.fixed bound → BoundIn scopes bound →
          Blends ground scopes (part.evalWithin less) := ih less hless
    cases he with
    | routine he hparts =>
        apply Respects.inherited.routine he fun part hmem => hpart (hparts part hmem) hbound
        exact fun name args => blends_apply (fun hbody => hpart hbody (.none _)) name args
    | ident h =>
        apply Respects.read
        exact fun hover => hover.read_eq fun hunread => hbound _ (h hunread)
    | quote operand => exact .value _
    | assign htarget hsource =>
        apply Respects.assignment (hpart hsource hbound)
        exact fun name htarget' value _ _ hover =>
          hover.assigned (fun hfixed => hbound _ (htarget name htarget' hfixed)) value
    | define target hbody =>
        apply Respects.definition
        exact fun name _ _ names _ _ hover => hover.learned name names hbody
    | leave hargs =>
        apply Respects.inherited.leave fun _ => .failed trivial
        exact fun arg harg => hpart (hargs arg harg) hbound
    | block hvalues hbody =>
        apply Over.layering.block fun name right hmem => hpart (hvalues _ right hmem) hbound
        exact fun part hmem => hpart (hbody part hmem) hbound.union
    | bare hbare hargs =>
        exact Over.layering.bare hbare fun arg harg => hpart (hargs arg harg) hbound.inside
    | forIn hsource hbody =>
        exact Over.layering.forIn (hpart hsource hbound) (hpart hbody (hbound.inLoop _))
    | forRange hfirst hstep hlast hbody =>
        exact Over.layering.forRange (hpart hfirst hbound)
          (fun width hwidth => hpart (hstep width hwidth) hbound) (hpart hlast hbound)
          (hpart hbody (hbound.inLoop _))

end Eval

end SceneQuiz
