import SceneQuiz.Proofs.Machine.Nearness
import SceneQuiz.Proofs.Machine.Policy
import SceneQuiz.Proofs.Machine.Respect
/-!
Code that cannot tell what some names are bound to.  Two machines may differ in
the hidden names, as far as these were bound before the code began; scopes that
the code itself opened are the same on both.  Code is shielded if it reads a
hidden name only where one of its own blocks, loops or parameters binds it.
Scopes are dynamic, so a hidden name may be assigned anywhere: the assignment
stays in a scope that both machines share, or in the part that may differ.
-/

namespace SceneQuiz

/-- Columns of a name on two machines, from inside scopes that each bind at
least the names given: they agree inside, and may differ outside. -/
inductive Veiled (name : String) :
    List (Set String) → List (Option Value) → List (Option Value) → Prop where
  | outside {first second : List (Option Value)} (hlength : second.length = first.length)
      (hfirst : first ≠ []) : Veiled name [] first second
  | inside {names : Set String} {scopes : List (Set String)} {entry : Option Value}
      {first second : List (Option Value)} (hbound : name ∈ names → entry.isSome = true)
      (h : Veiled name scopes first second) :
      Veiled name (names :: scopes) (entry :: first) (entry :: second)

namespace Veiled

variable {name : String} {scopes : List (Set String)} {first second : List (Option Value)}

theorem length_eq (h : Veiled name scopes first second) : second.length = first.length := by
  induction h with
  | outside hlength => exact hlength
  | inside _ _ ih => exact congrArg (· + 1) ih

theorem ne_nil (h : Veiled name scopes first second) : first ≠ [] ∧ second ≠ [] := by
  cases h with
  | outside hlength hfirst =>
      refine ⟨hfirst, ?_⟩
      rintro rfl
      exact hfirst (List.length_eq_zero_iff.mp hlength.symm)
  | inside => exact ⟨List.cons_ne_nil _ _, List.cons_ne_nil _ _⟩

/-- A name that an inner scope binds is read alike. -/
theorem findSome?_eq (h : Veiled name scopes first second)
    (hbound : ∃ names ∈ scopes, name ∈ names) :
    second.findSome? (fun entry => entry) = first.findSome? fun entry => entry := by
  induction h with
  | outside =>
      obtain ⟨_, hmem, -⟩ := hbound
      cases hmem
  | @inside names scopes entry first second hhere _ ih =>
      cases entry with
      | some value => rfl
      | none =>
          obtain ⟨found, hmem, hname⟩ := hbound
          rcases List.mem_cons.mp hmem with rfl | hmem
          · cases hhere hname
          · exact ih ⟨found, hmem, hname⟩

/-- An assignment stays on its side of the veil. -/
theorem assign (h : Veiled name scopes first second) (value : Value) :
    Veiled name scopes (assignColumn value first) (assignColumn value second) := by
  induction h with
  | @outside first second hlength hfirst =>
      apply outside
      · rw [length_assignColumn, length_assignColumn, hlength]
      · intro hnil
        have hempty := length_assignColumn value first
        rw [hnil] at hempty
        exact hfirst (List.length_eq_zero_iff.mp hempty.symm)
  | @inside names scopes entry first second hbound hinner ih =>
      obtain ⟨hfirst, hsecond⟩ := hinner.ne_nil
      cases entry with
      | some old =>
          rw [assignColumn_some, assignColumn_some]
          exact inside (fun _ => rfl) hinner
      | none =>
          rw [assignColumn_none value hfirst, assignColumn_none value hsecond]
          exact inside hbound ih

theorem tail {names : Set String} (h : Veiled name (names :: scopes) first second) :
    Veiled name scopes first.tail second.tail := by
  cases h with
  | inside _ hinner => exact hinner

theorem rebound {names others : Set String} (h : Veiled name (names :: scopes) first second)
    (hbound : name ∈ others → name ∈ names) : Veiled name (others :: scopes) first second := by
  cases h with
  | inside hhere hinner => exact inside (fun hname => hhere (hbound hname)) hinner

end Veiled

/-- Code that reads a hidden name only where it is bound by the code itself, or
where it is one of the names `bound` around it.  Nothing is defined. -/
inductive Expr.Shielded (hidden : Set String) : Set String → Expr → Prop where
  | routine {bound : Set String} {e : Expr} (he : e.isRoutine = true)
      (hparts : ∀ part ∈ e.children, Shielded hidden bound part) : Shielded hidden bound e
  | ident {bound : Set String} {name : String} (h : name ∈ hidden → name ∈ bound) :
      Shielded hidden bound (.ident name)
  | quote {bound : Set String} (operand : Expr) : Shielded hidden bound (.quote operand)
  | assign {bound : Set String} (target : Expr) {source : Expr}
      (hsource : Shielded hidden bound source) :
      Shielded hidden bound (.binary .assign target source)
  | leave {bound : Set String} {args : List Expr}
      (hargs : ∀ arg ∈ args, Shielded hidden bound arg) :
      Shielded hidden bound (.call "return" args)
  | block {bound : Set String} {declarations body : List Expr}
      (hvalues : ∀ left right, .binary .assign left right ∈ declarations →
        Shielded hidden bound right)
      (hbody : ∀ part ∈ body,
        Shielded hidden (bound ∪ Expr.declared declarations) part) :
      Shielded hidden bound (.call "block" (.list declarations :: body))
  | bare {bound : Set String} {args : List Expr}
      (hbare : ∀ declarations body, args ≠ .list declarations :: body)
      (hargs : ∀ arg ∈ args, Shielded hidden bound arg) :
      Shielded hidden bound (.call "block" args)
  | forIn {bound : Set String} {var : String} {source body : Expr}
      (hsource : Shielded hidden bound source)
      (hbody : Shielded hidden (insert var bound) body) :
      Shielded hidden bound (.forIn var source body)
  | forRange {bound : Set String} {var : String} {first last body : Expr} {step : Option Expr}
      (hfirst : Shielded hidden bound first)
      (hstep : ∀ width ∈ step, Shielded hidden bound width)
      (hlast : Shielded hidden bound last)
      (hbody : Shielded hidden (insert var bound) body) :
      Shielded hidden bound (.forRange var first step last body)

theorem Expr.Shielded.mono {hidden bound wider : Set String} {e : Expr}
    (h : e.Shielded hidden bound) (hsub : bound ⊆ wider) : e.Shielded hidden wider := by
  induction h generalizing wider with
  | routine he _ ih => exact .routine he fun part hpart => ih part hpart hsub
  | ident h => exact .ident fun hname => hsub (h hname)
  | quote operand => exact .quote operand
  | assign target _ ih => exact .assign target (ih hsub)
  | leave _ ih => exact .leave fun arg harg => ih arg harg hsub
  | block _ _ ihvalues ihbody =>
      apply Shielded.block
      · exact fun left right hmem => ihvalues left right hmem hsub
      · exact fun part hpart => ihbody part hpart (Set.union_subset_union_left _ hsub)
  | bare hbare _ ih => exact .bare hbare fun arg harg => ih arg harg hsub
  | forIn _ _ ihsource ihbody =>
      exact .forIn (ihsource hsub) (ihbody (Set.insert_subset_insert hsub))
  | forRange _ _ _ _ ihfirst ihstep ihlast ihbody =>
      apply Shielded.forRange (ihfirst hsub) _ (ihlast hsub)
      · exact ihbody (Set.insert_subset_insert hsub)
      · exact fun width hwidth => ihstep width hwidth hsub

namespace Machine

/-- Machines that differ at most in the hidden names, and in these only outside
the scopes that were opened since. -/
structure Apart (hidden : Set String) (scopes : List (Set String)) (first second : Machine) :
    Prop where
  functions : second.functions = first.functions
  hosts : second.hosts = first.hosts
  gas : second.gas = first.gas
  limit : second.limit = first.limit
  same : ∀ name, name ∉ hidden → second.env.column name = first.env.column name
  veiled : ∀ name ∈ hidden, Veiled name scopes (first.env.column name) (second.env.column name)
  shielded : ∀ name function, first.functions.get? name = some function →
    function.body.Shielded hidden ∅

namespace Apart

variable {hidden names : Set String} {scopes : List (Set String)} {first second : Machine}

theorem pairing : Pairing (Apart hidden scopes) where
  hosts h := h.hosts
  functions h := h.functions
  gas h := h.gas
  limit h := h.limit
  counting h _ := ⟨h.functions, h.hosts, rfl, h.limit, h.same, h.veiled, h.shielded⟩

/-- Only the variables count. -/
theorem changed {inner : List (Set String)} {env other : Environment}
    (h : Apart hidden scopes first second)
    (hsame : ∀ name, name ∉ hidden → other.column name = env.column name)
    (hveiled : ∀ name ∈ hidden, Veiled name inner (env.column name) (other.column name)) :
    Apart hidden inner { first with env := env } { second with env := other } :=
  ⟨h.functions, h.hosts, h.gas, h.limit, hsame, hveiled, h.shielded⟩

theorem length_eq (h : Apart hidden scopes first second) (name : String) :
    (second.env.column name).length = (first.env.column name).length := by
  by_cases hname : name ∈ hidden
  · exact (h.veiled name hname).length_eq
  · rw [h.same name hname]

/-- A name is read alike if it is not hidden or bound by a shared scope. -/
theorem get?_eq (h : Apart hidden scopes first second) {name : String}
    (hname : name ∈ hidden → ∃ names ∈ scopes, name ∈ names) :
    second.env.get? name = first.env.get? name := by
  rw [Environment.get?_eq_column, Environment.get?_eq_column]
  by_cases hhidden : name ∈ hidden
  · exact (h.veiled name hhidden).findSome?_eq (hname hhidden)
  · rw [h.same name hhidden]

theorem assigned (h : Apart hidden scopes first second) (name : String) (value : Value) :
    Apart hidden scopes (first.assign name value) (second.assign name value) := by
  apply h.changed
  · intro other hother
    by_cases heq : other = name
    · subst heq
      rw [Environment.column_assign_self, Environment.column_assign_self, h.same other hother]
    · rw [Environment.column_assign_of_ne _ _ heq, Environment.column_assign_of_ne _ _ heq,
        h.same other hother]
  · intro other hother
    by_cases heq : other = name
    · subst heq
      rw [Environment.column_assign_self, Environment.column_assign_self]
      exact (h.veiled other hother).assign value
    · rw [Environment.column_assign_of_ne _ _ heq, Environment.column_assign_of_ne _ _ heq]
      exact h.veiled other hother

theorem opened (h : Apart hidden scopes first second) {bindings : List (String × Value)}
    (hbound : ∀ name ∈ names, name ∈ bindings.map Prod.fst) :
    Apart hidden (names :: scopes) (first.opened bindings) (second.opened bindings) := by
  apply h.changed
  · intro name hname
    rw [Environment.push_defineAll, Environment.push_defineAll, Environment.column_under,
      Environment.column_under, h.same name hname]
  · intro name hname
    rw [Environment.push_defineAll, Environment.push_defineAll, Environment.column_under,
      Environment.column_under]
    exact .inside (fun hmem => NameMap.contains_ofList.mpr (hbound name hmem))
      (h.veiled name hname)

theorem closed (h : Apart hidden (names :: scopes) first second) :
    Apart hidden scopes first.closed second.closed := by
  have hlocals : second.env.locals.length = first.env.locals.length := by
    simpa using h.length_eq ""
  by_cases hopen : first.env.locals = []
  · have hother : second.env.locals = [] := by simpa [hopen] using hlocals
    apply h.changed
    · intro name hname
      rw [Environment.pop_of_closed hopen, Environment.pop_of_closed hother, h.same name hname]
    · intro name hname
      have hlength : (first.env.column name).tail ≠ [] := (h.veiled name hname).tail.ne_nil.1
      have hnil : (first.env.column name).tail = [] := by
        apply List.length_eq_zero_iff.mp
        rw [List.length_tail, Environment.length_column, hopen]
        rfl
      exact absurd hnil hlength
  · have hother : second.env.locals ≠ [] := by
      intro hnil
      rw [hnil] at hlocals
      exact hopen (List.length_eq_zero_iff.mp hlocals.symm)
    apply h.changed
    · intro name hname
      rw [Environment.column_pop_of_open hopen, Environment.column_pop_of_open hother,
        h.same name hname]
    · intro name hname
      rw [Environment.column_pop_of_open hopen, Environment.column_pop_of_open hother]
      exact (h.veiled name hname).tail

/-- A loop binds its variable in its own scope. -/
theorem defined (h : Apart hidden (names :: scopes) first second) (var : String)
    (value : Value) :
    Apart hidden (insert var names :: scopes)
      { first with env := first.env.define var value }
      { second with env := second.env.define var value } := by
  apply h.changed
  · intro name hname
    by_cases heq : name = var
    · subst heq
      rw [Environment.column_define_self, Environment.column_define_self, h.same name hname]
    · rw [Environment.column_define_of_ne _ _ heq, Environment.column_define_of_ne _ _ heq,
        h.same name hname]
  · intro name hname
    by_cases heq : name = var
    · subst heq
      rw [Environment.column_define_self, Environment.column_define_self]
      exact .inside (fun _ => rfl) (h.veiled name hname).tail
    · rw [Environment.column_define_of_ne _ _ heq, Environment.column_define_of_ne _ _ heq]
      exact (h.veiled name hname).rebound fun hmem => Set.mem_of_mem_insert_of_ne hmem heq

theorem weaken {fewer : Set String} (h : Apart hidden (names :: scopes) first second)
    (hsub : fewer ⊆ names) : Apart hidden (fewer :: scopes) first second :=
  ⟨h.functions, h.hosts, h.gas, h.limit, h.same,
    fun name hname => (h.veiled name hname).rebound fun hmem => hsub hmem, h.shielded⟩

end Apart

end Machine

namespace Eval

open Machine

/-- Every outcome may leave. -/
abbrev Indistinct (hidden : Set String) (scopes : List (Set String)) {α : Type} (run : Eval α) :
    Prop :=
  Respects (Apart hidden scopes) (fun _ => True) run

theorem Apart.layering {hidden : Set String} : Layering (Apart hidden) where
  pairing := Apart.pairing
  opened hapart hbound := hapart.opened hbound
  closed hapart := hapart.closed
  defined hapart := hapart.defined
  weaken hapart := hapart.weaken

/-- The names `bound` around some code are bound in scopes opened since. -/
def Covers (hidden : Set String) (scopes : List (Set String)) (bound : Set String) : Prop :=
  ∀ name ∈ bound, name ∈ hidden → ∃ names ∈ scopes, name ∈ names

theorem Covers.none (hidden : Set String) (scopes : List (Set String)) :
    Covers hidden scopes ∅ :=
  Set.forall_mem_empty.mpr trivial

theorem Covers.union {hidden bound names : Set String} {scopes : List (Set String)}
    (h : Covers hidden scopes bound) : Covers hidden (names :: scopes) (bound ∪ names) := by
  rintro name (hname | hname) hhidden
  · obtain ⟨found, hmem, hfound⟩ := h name hname hhidden
    exact ⟨found, List.mem_cons_of_mem names hmem, hfound⟩
  · exact ⟨names, List.mem_cons_self, hname⟩

/-- Inside a loop its variable is bound as well. -/
theorem Covers.inLoop {hidden bound : Set String} {scopes : List (Set String)}
    (h : Covers hidden scopes bound) (var : String) :
    Covers hidden ({var} :: scopes) (insert var bound) := by
  rw [← Set.union_singleton]
  exact h.union

/-- A scope that binds nothing takes nothing away. -/
theorem Covers.inside {hidden bound : Set String} {scopes : List (Set String)}
    (h : Covers hidden scopes bound) : Covers hidden (∅ :: scopes) bound := by
  rw [← Set.union_empty bound]
  exact h.union

/-- Calls, where the functions are shielded: whatever a function is given, it
sees no more than its parameters. -/
theorem indistinct_apply {hidden : Set String} {ev : Expr → Eval Value}
    (hev : ∀ {scopes : List (Set String)} {body : Expr}, body.Shielded hidden ∅ →
      Indistinct hidden scopes (ev body))
    {scopes : List (Set String)} (name : String) (args : List Value) :
    Indistinct hidden scopes (Eval.apply ev name args) :=
  Apart.layering.apply fun hapart function hfunction =>
    hev (hapart.shielded name function hfunction)

/-- Shielded code runs alike, by induction on the fuel and by the rule that
shields it. -/
theorem indistinct_of_shielded {hidden : Set String} (fuel : Nat) :
    ∀ {scopes : List (Set String)} {bound : Set String} {e : Expr}, e.Shielded hidden bound →
      Covers hidden scopes bound → Indistinct hidden scopes (e.evalWithin fuel) := by
  induction fuel using Nat.strongRecOn with
  | ind fuel ih =>
    intro scopes bound e he hcovers
    apply Respects.of_step Apart.pairing
    intro less hless
    have hpart : ∀ {scopes : List (Set String)} {bound : Set String} {part : Expr},
        part.Shielded hidden bound → Covers hidden scopes bound →
          Indistinct hidden scopes (part.evalWithin less) := ih less hless
    cases he with
    | routine he hparts =>
        apply Respects.inherited.routine he fun part hmem => hpart (hparts part hmem) hcovers
        exact fun name args => indistinct_apply (fun hbody => hpart hbody (.none _ _)) name args
    | ident h =>
        apply Respects.read
        intro first second hapart
        rw [hapart.get?_eq fun hhidden => hcovers _ (h hhidden) hhidden]
    | quote operand => exact .value _
    | assign target hsource =>
        apply Respects.assignment (hpart hsource hcovers)
        exact fun name _ value _ _ hapart => hapart.assigned name value
    | leave hargs =>
        apply Respects.inherited.leave fun _ => .failed trivial
        exact fun arg harg => hpart (hargs arg harg) hcovers
    | block hvalues hbody =>
        apply Apart.layering.block fun name right hmem => hpart (hvalues _ right hmem) hcovers
        exact fun part hmem => hpart (hbody part hmem) hcovers.union
    | bare hbare hargs =>
        exact Apart.layering.bare hbare fun arg harg => hpart (hargs arg harg) hcovers.inside
    | forIn hsource hbody =>
        exact Apart.layering.forIn (hpart hsource hcovers) (hpart hbody (hcovers.inLoop _))
    | forRange hfirst hstep hlast hbody =>
        exact Apart.layering.forRange (hpart hfirst hcovers)
          (fun width hwidth => hpart (hstep width hwidth) hcovers) (hpart hlast hcovers)
          (hpart hbody (hcovers.inLoop _))

end Eval

end SceneQuiz
