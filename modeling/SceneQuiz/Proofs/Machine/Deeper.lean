import SceneQuiz.Proofs.Expr.Parts
import SceneQuiz.Proofs.Machine.Fencing
import SceneQuiz.Proofs.Machine.Mirroring
import SceneQuiz.Proofs.Machine.Restraint
/-!
Code that runs one scope deeper.  A scope that binds only names the code leaves
alone makes no difference: the run ends the same way, in the same number of
steps, and the scope is still there around what it leaves.  A scope may also
hold copies of some names.  Then the code reads and assigns the copies, and a
copy always has the value that the name has without the scope.
-/

namespace SceneQuiz

theorem Environment.eq_of_column {env other : Environment}
    (h : ∀ name, env.column name = other.column name) : env = other := by
  obtain ⟨scopes, globals⟩ := env
  obtain ⟨others, around⟩ := other
  induction scopes generalizing others with
  | nil =>
      cases others with
      | nil =>
          have hglobals : globals = around := NameMap.eq_of_get? fun name => by
            simpa [column] using h name
          rw [hglobals]
      | cons scope rest => simpa using congrArg List.length (h "")
  | cons scope rest ih =>
      cases others with
      | nil => simpa using congrArg List.length (h "")
      | cons found outer =>
          have hparts : ∀ name, scope.get? name = found.get? name ∧
              column ⟨rest, globals⟩ name = column ⟨outer, around⟩ name :=
            fun name => List.cons.inj (h name)
          have hscope : scope = found := NameMap.eq_of_get? fun name => (hparts name).1
          cases ih outer fun name => (hparts name).2
          rw [hscope]

theorem NameMap.eq_of_get?_single {α : Type} {name other : String} {value found : α}
    (h : (NameMap.empty.insert name value).get? other = some found) : found = value := by
  rw [get?_insert] at h
  split at h
  · exact (Option.some.inj h).symm
  · cases h

/-- A name that is bound stays bound. -/
theorem Reassigned.isSome {before after : List (Option Value)} (h : Reassigned before after)
    (hbound : (before.findSome? fun entry => entry).isSome = true) :
    (after.findSome? fun entry => entry).isSome = true := by
  induction h with
  | same => exact hbound
  | here | globally => rfl
  | outward _ ih => exact ih hbound

theorem readColumn_assignColumn (name : String) (value : Value) {column : List (Option Value)}
    (h : column ≠ []) : readColumn name (assignColumn value column) = value := by
  induction column with
  | nil => exact absurd rfl h
  | cons entry outer ih =>
      cases outer with
      | nil => rfl
      | cons next outer =>
          cases entry with
          | some old => rfl
          | none => exact ih (List.cons_ne_nil _ _)

theorem assignColumn_ne_nil {value : Value} {column : List (Option Value)} (h : column ≠ []) :
    assignColumn value column ≠ [] := by
  intro hnil
  have hlength := length_assignColumn value column
  rw [hnil] at hlength
  exact h (List.length_eq_zero_iff.mp hlength.symm)

/-- One more scope on the second machine.  Of the names that it binds, the
copies have the value that is read on the first machine, and the hidden ones are
left alone. -/
def Ground.beneath (scope : Scope) (copies hidden : Set String)
    (hscope : ∀ name, name ∉ hidden → name ∉ copies → scope.get? name = none) : Ground where
  differs name first second := first ≠ [] ∧
    (name ∈ copies → ∃ outer, second = some (readColumn name first) :: outer) ∧
    (name ∉ copies → second = scope.get? name :: first)
  unread := hidden
  fixed := hidden
  ne_nil := by
    rintro name first second ⟨hfirst, hcopy, hother⟩
    refine ⟨hfirst, ?_⟩
    by_cases hname : name ∈ copies
    · obtain ⟨outer, rfl⟩ := hcopy hname
      exact List.cons_ne_nil _ _
    · rw [hother hname]
      exact List.cons_ne_nil _ _
  read := by
    rintro name first second hhidden ⟨-, hcopy, hother⟩
    by_cases hname : name ∈ copies
    · obtain ⟨outer, rfl⟩ := hcopy hname
      rfl
    · rw [hother hname, hscope name hhidden hname]
      rfl
  assign := by
    rintro name first second hhidden ⟨hfirst, hcopy, hother⟩ value
    refine ⟨assignColumn_ne_nil hfirst, fun hname => ?_, fun hname => ?_⟩
    · obtain ⟨outer, rfl⟩ := hcopy hname
      rw [readColumn_assignColumn name value hfirst]
      exact ⟨outer, assignColumn_some value _ outer⟩
    · rw [hother hname, hscope name hhidden hname, assignColumn_none value hfirst]

namespace Expr

/-- Code where some names do not occur. -/
def Omits (names : List String) (e : Expr) : Prop :=
  e.Everywhere fun part => ∀ name ∈ names, part.asIdent? ≠ some name

instance (names : List String) (e : Expr) : Decidable (e.Omits names) :=
  inferInstanceAs (Decidable (e.Everywhere fun part => ∀ name ∈ names, part.asIdent? ≠ some name))

/-- Fenced from the names of a list, whatever is bound around. -/
abbrev FencedFrom (names : List String) (e : Expr) : Prop :=
  ∀ bound, e.Fenced {name | name ∈ names} {name | name ∈ names} bound

variable {names : List String}

theorem fencedFrom_call {name : String} {args : List Expr}
    (h : ∀ arg ∈ args, arg.Everywhere (FencedFrom names)) : (call name args).FencedFrom names := by
  intro bound
  have hargs := fun arg harg => (h arg harg).here bound
  by_cases hblock : name = "block"
  · subst hblock
    by_cases hlist : ∃ declarations body, args = .list declarations :: body
    · obtain ⟨declarations, body, rfl⟩ := hlist
      rw [List.forall_mem_cons] at h
      refine .block (fun left right hmem => ?_) fun part hpart => (h.2 part hpart).here _
      exact ((h.1.inside hmem).inside (by simp [children])).here bound
    · exact .bare (fun declarations body heq => hlist ⟨declarations, body, heq⟩) hargs
  · by_cases hreturn : name = "return"
    · subst hreturn
      exact .leave hargs
    · exact .routine (by simp [isRoutine, hblock, hreturn]) hargs

/-- By induction on the parts.  An initial value of a local is a part of a part,
so the property is carried for all of them. -/
theorem fencedFrom_everywhere {e : Expr} (h : e.Omits names) :
    e.Everywhere (FencedFrom names) := by
  induction e using Expr.ofParts with
  | hstep e ih =>
    have hinside := fun part hpart => ih part hpart (h.inside hpart)
    have hparts := fun bound part hpart => (hinside part hpart).here bound
    refine .node (fun bound => ?_) hinside
    cases e with
    | ident name => exact .ident fun hname => absurd rfl (h.here name hname)
    | quote operand => exact .quote operand
    | call name args => exact fencedFrom_call hinside bound
    | binary op target source =>
        by_cases hassign : op = .assign
        · subst hassign
          refine .assign (fun name heq hname => ?_) (hparts bound source (by simp [children]))
          have htarget := h.inside (by simp [children] : target ∈ _)
          exact absurd (congrArg asIdent? heq) (htarget.here name hname)
        · by_cases hdefine : op = .define
          · subst hdefine
            exact .define target (hparts ∅ source (by simp [children]))
          · exact .routine (by simp [isRoutine, hassign, hdefine]) (hparts bound)
    | forIn var source body =>
        exact .forIn (hparts bound source (by simp [children]))
          (hparts _ body (by simp [children]))
    | forRange var first step last body =>
        have hrange := fun bound => forall_children_forRange.mp (hparts bound)
        exact .forRange (hrange bound).1 (hrange bound).2.1 (hrange bound).2.2.1
          (hrange _).2.2.2
    | _ => exact .routine rfl (hparts bound)

theorem Omits.fencedFrom {e : Expr} (h : e.Omits names) : e.FencedFrom names :=
  (fencedFrom_everywhere h).here

end Expr

namespace Machine

/-- With one more scope. -/
def under (scope : Scope) (machine : Machine) : Machine :=
  { machine with env := machine.env.under scope }

/-- No function reads or assigns these names unless it binds them. -/
def Fences (hidden : Set String) (machine : Machine) : Prop :=
  ∀ name function, machine.functions.get? name = some function →
    function.body.Fenced hidden hidden ∅

theorem fences_of_omits {names : List String} {machine : Machine}
    (h : ∀ name function, machine.functions.get? name = some function →
      function.body.Omits names) : machine.Fences {name | name ∈ names} :=
  fun name function hfunction => (h name function hfunction).fencedFrom ∅

theorem Fences.under {hidden : Set String} {machine : Machine} (h : machine.Fences hidden)
    (scope : Scope) : (machine.under scope).Fences hidden := h

variable {scope : Scope} {copies hidden : Set String}
  {hscope : ∀ name, name ∉ hidden → name ∉ copies → scope.get? name = none}

/-- A scope with copies of what is read without it. -/
theorem over_under {machine : Machine} (hfences : machine.Fences hidden)
    (hcopies : ∀ name ∈ copies, scope.get? name = some (machine.env.reading name)) :
    Over (.beneath scope copies hidden hscope) [] machine (machine.under scope) := by
  refine ⟨rfl, rfl, rfl, rfl, fun name => .grounded ⟨?_, fun hname => ?_, fun _ => rfl⟩, hfences⟩
  · simp [Environment.column]
  · refine ⟨machine.env.column name, ?_⟩
    rw [Environment.readColumn_column]
    exact congrArg (· :: _) (hcopies name hname)

theorem Over.column {first second : Machine}
    (h : Over (.beneath scope copies hidden hscope) [] first second) {name : String}
    (hname : name ∉ copies) :
    second.env.column name = scope.get? name :: first.env.column name := by
  cases h.columns name with
  | grounded hground => exact hground.2.2 hname

end Machine

namespace Expr

open Eval Machine

/-- A scope that binds only names the code leaves alone does not change what it
does. -/
theorem evalWithin_under {scope : Scope} {hidden : Set String}
    (hscope : ∀ name, name ∉ hidden → scope.get? name = none) {e : Expr} {fuel : Nat}
    {before after : Machine} {outcome : Except EvalError Value}
    (he : e.Fenced hidden hidden ∅) (hfences : before.Fences hidden)
    (hrun : e.evalWithin fuel before = lift outcome after)
    (hgas : outcome ≠ .error .gasExhausted) :
    e.evalWithin fuel (before.under scope) = lift outcome (after.under scope) ∧
      after.Fences hidden := by
  have hscope' : ∀ name, name ∉ hidden → name ∉ (∅ : Set String) → scope.get? name = none :=
    fun name hname _ => hscope name hname
  have hover := @over_under scope ∅ hidden hscope' before hfences (fun _ hname => hname.elim)
  obtain ⟨final, hfinal, hlast, -⟩ :=
    (blends_of_fenced fuel he (.none _)).ends hover hrun
  have hafter := hlast hgas
  refine ⟨?_, hafter.fenced⟩
  have henv : final.env = after.env.under scope :=
    Environment.eq_of_column fun name => hafter.column id
  have heq : final = after.under scope := by
    obtain ⟨hfunctions, hhosts, hspent, hlimit, -, -⟩ := hafter
    cases final
    simp_all [under]
  rw [hfinal, heq]

end Expr

end SceneQuiz
