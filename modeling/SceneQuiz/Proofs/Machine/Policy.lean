import SceneQuiz.Expr.Usage
import SceneQuiz.Proofs.Machine.Column
import SceneQuiz.Proofs.Machine.Congruence
import SceneQuiz.Proofs.Machine.Trappable
/-!
What code may do, and that it does no more.  A policy names the variables that
functions may assign, the functions that may be defined, and says whether a
`return` may be used.  Code obeys it if each of its constructs does; a block, a
loop and a function may assign their own locals besides.

Evaluation of code that obeys a policy keeps to it however it ends, in a value
or in an error: outside the names that may be assigned, every scope binds what
it bound before.
-/

namespace SceneQuiz

/-- What code may do. -/
structure Policy where
  /-- Names that functions may assign. -/
  writes : Set String
  /-- Names that may be given a function. -/
  defines : Set String
  /-- Names that outside functions may have. -/
  hosts : Set String
  /-- May a `return` be used? -/
  returns : Prop

/-- Is an expression permitted, its parts aside, where the names in `written`
may be assigned? -/
def Policy.Permits (policy : Policy) (written : Set String) : Expr → Prop
  | .binary .assign (.ident name) _ => name ∈ written
  | .binary .define _ _ => False
  | .call name _ => name = "return" → policy.returns
  | _ => True

/-- Names that the declarations of a block bind. -/
def Expr.declared (declarations : List Expr) : Set String :=
  {name | name ∈ declarations.filterMap Expr.declaredName?}

/-- Code that obeys a policy where the names in `written` may be assigned.  The
body of a definition is evaluated elsewhere, so what may be assigned around the
definition does not count there. -/
inductive Expr.Obeys (policy : Policy) : Set String → Expr → Prop where
  | node {written : Set String} {e : Expr} (hhere : policy.Permits written e)
      (hparts : ∀ part ∈ e.children, Obeys policy written part) :
      Obeys policy written e
  | quote {written : Set String} (operand : Expr) :
      Obeys policy written (.quote operand)
  | define {written : Set String} {left body : Expr}
      (hname : ∀ name params, left = .call name params → name ∈ policy.defines)
      (hbody : Obeys policy policy.writes body) :
      Obeys policy written (.binary .define left body)
  | block {written : Set String} {declarations body : List Expr}
      (hvalues : ∀ left right, .binary .assign left right ∈ declarations →
        Obeys policy written right)
      (hbody : ∀ part ∈ body,
        Obeys policy (written ∪ Expr.declared declarations) part) :
      Obeys policy written (.call "block" (.list declarations :: body))
  | forIn {written : Set String} {var : String} {source body : Expr}
      (hsource : Obeys policy written source)
      (hbody : Obeys policy (insert var written) body) :
      Obeys policy written (.forIn var source body)
  | forRange {written : Set String} {var : String} {first last body : Expr}
      {step : Option Expr} (hfirst : Obeys policy written first)
      (hstep : ∀ width ∈ step, Obeys policy written width)
      (hlast : Obeys policy written last)
      (hbody : Obeys policy (insert var written) body) :
      Obeys policy written (.forRange var first step last body)

namespace Policy

variable {policy : Policy} {written allowed : Set String}

theorem Permits.mono {e : Expr} (h : policy.Permits written e)
    (hsub : written ⊆ allowed) : policy.Permits allowed e := by
  unfold Permits at h ⊢
  split at h
  · exact hsub h
  · exact h
  · exact h
  · trivial

end Policy

namespace Expr.Obeys

variable {policy : Policy} {written allowed : Set String}

theorem mono {e : Expr} (h : e.Obeys policy written) (hsub : written ⊆ allowed) :
    e.Obeys policy allowed := by
  induction h generalizing allowed with
  | node hhere _ ih => exact .node (hhere.mono hsub) fun part hpart => ih part hpart hsub
  | quote operand => exact .quote operand
  | define hname hbody => exact .define hname hbody
  | block _ _ ihvalues ihbody =>
      apply Obeys.block
      · exact fun left right hmem => ihvalues left right hmem hsub
      · exact fun part hpart => ihbody part hpart (Set.union_subset_union_left _ hsub)
  | forIn _ _ ihsource ihbody =>
      exact .forIn (ihsource hsub) (ihbody (Set.insert_subset_insert hsub))
  | forRange _ _ _ _ ihfirst ihstep ihlast ihbody =>
      apply Obeys.forRange (ihfirst hsub) _ (ihlast hsub)
      · exact ihbody (Set.insert_subset_insert hsub)
      · exact fun width hwidth => ihstep width hwidth hsub

/-- A block evaluates the values of its locals outside and its body inside. -/
theorem of_block {declarations body : List Expr}
    (h : (Expr.call "block" (.list declarations :: body)).Obeys policy written) :
    (∀ left right, .binary .assign left right ∈ declarations →
      right.Obeys policy written) ∧
    ∀ part ∈ body, part.Obeys policy (written ∪ Expr.declared declarations) := by
  cases h with
  | block hvalues hbody => exact ⟨hvalues, hbody⟩
  | node _ hparts =>
      simp only [children, List.forall_mem_cons] at hparts
      obtain ⟨hlist, hbody⟩ := hparts
      refine ⟨fun left right hmem => ?_, fun part hpart =>
        (hbody part hpart).mono Set.subset_union_left⟩
      cases hlist with
      | node _ hdeclarations =>
          cases hdeclarations _ hmem with
          | node _ hsides => exact hsides right (by simp [children])

theorem of_forIn {var : String} {source body : Expr}
    (h : (Expr.forIn var source body).Obeys policy written) :
    source.Obeys policy written ∧ body.Obeys policy (insert var written) := by
  cases h with
  | forIn hsource hbody => exact ⟨hsource, hbody⟩
  | node _ hparts =>
      rw [forall_children_two rfl] at hparts
      exact ⟨hparts.1, hparts.2.mono (Set.subset_insert var written)⟩

theorem of_forRange {var : String} {first last body : Expr} {step : Option Expr}
    (h : (Expr.forRange var first step last body).Obeys policy written) :
    first.Obeys policy written ∧ (∀ width ∈ step, width.Obeys policy written) ∧
      last.Obeys policy written ∧ body.Obeys policy (insert var written) := by
  cases h with
  | forRange hfirst hstep hlast hbody => exact ⟨hfirst, hstep, hlast, hbody⟩
  | node _ hparts =>
      rw [forall_children_forRange] at hparts
      obtain ⟨hfirst, hstep, hlast, hbody⟩ := hparts
      exact ⟨hfirst, hstep, hlast, hbody.mono (Set.subset_insert var written)⟩

/-- What the node rule says, for code that no other rule is about. -/
theorem of_node {e : Expr} (h : e.Obeys policy written) (hverbatim : e.isVerbatim = false)
    (hblock : ∀ declarations body, e ≠ .call "block" (.list declarations :: body))
    (hforIn : ∀ var source body, e ≠ .forIn var source body)
    (hforRange : ∀ var first step last body, e ≠ .forRange var first step last body) :
    policy.Permits written e ∧ ∀ part ∈ e.children, part.Obeys policy written := by
  cases h with
  | node hhere hparts => exact ⟨hhere, hparts⟩
  | quote | define => cases hverbatim
  | block => exact absurd rfl (hblock _ _)
  | forIn => exact absurd rfl (hforIn _ _ _)
  | forRange => exact absurd rfl (hforRange _ _ _ _ _)

theorem of_routine {e : Expr} (h : e.Obeys policy written) (he : e.isRoutine = true) :
    ∀ part ∈ e.children, part.Obeys policy written := by
  cases h with
  | node _ hparts => exact hparts
  | block => simp [isRoutine] at he
  | quote | define | forIn | forRange => cases he

end Expr.Obeys

namespace Policy

/-- The functions of the machine obey the policy, and what comes from outside
ends in a `return` only if that is allowed. -/
structure Governs (policy : Policy) (machine : Machine) : Prop where
  functions : ∀ name function, machine.functions.get? name = some function →
    name ∈ policy.defines ∧ function.body.Obeys policy policy.writes
  hosts : ∀ name host, machine.hosts.get? name = some host →
    name ∈ policy.hosts ∧ (policy.returns ∨ ∀ args, Unreturned (host args))

/-- What a run under a policy leaves of the machine it starts in. -/
structure Kept (policy : Policy) (written : Set String) (before after : Machine) :
    Prop where
  governs : policy.Governs after
  changes : before.env.Changes written after.env

/-- An outcome under a policy, with a value that is as it should be. -/
def Allows {α : Type} (policy : Policy) (good : α → Prop) :
    Except EvalError α → Prop
  | .ok value => good value
  | .error (.returned _) => policy.returns
  | .error _ => True

variable {policy : Policy} {written allowed : Set String} {α β : Type}
  {good : α → Prop} {before middle after : Machine}

theorem Kept.refl (h : policy.Governs before) : policy.Kept written before before :=
  ⟨h, .refl _⟩

theorem Kept.trans (hfirst : policy.Kept written before middle)
    (hsecond : policy.Kept written middle after) : policy.Kept written before after :=
  ⟨hsecond.governs, hfirst.changes.trans hsecond.changes⟩

theorem Kept.mono (h : policy.Kept written before after) (hsub : written ⊆ allowed) :
    policy.Kept allowed before after :=
  ⟨h.governs, h.changes.mono hsub⟩

/-- Variables and budget play no part in whether a policy governs. -/
theorem Governs.changed (h : policy.Governs before)
    (hfunctions : after.functions = before.functions) (hhosts : after.hosts = before.hosts) :
    policy.Governs after := by
  constructor
  · rw [hfunctions]
    exact h.functions
  · rw [hhosts]
    exact h.hosts

theorem allows_of_unreturned {outcome : Except EvalError α} (h : Unreturned outcome) :
    policy.Allows (fun _ => True) outcome := by
  cases outcome with
  | ok value => trivial
  | error error =>
      cases error with
      | returned => exact h.elim
      | _ => trivial

/-- An error says nothing about the value there would have been. -/
theorem Allows.error {other : β → Prop} {error : EvalError}
    (h : policy.Allows good (.error error)) : policy.Allows other (.error error) := by
  cases error <;> exact h

end Policy

namespace Eval

open Policy

variable {policy : Policy} {written allowed : Set String} {α β : Type}

/-- A run that keeps to a policy, assigns none but the names in `written`, and
gives values with a property. -/
structure Keeps (policy : Policy) (written : Set String) (good : α → Prop) (run : Eval α) :
    Prop where
  ends : ∀ {before outcome after}, policy.Governs before → run before = lift outcome after →
    policy.Kept written before after ∧ policy.Allows good outcome

namespace Keeps

variable {good : α → Prop} {fine : β → Prop}

/-- What an outcome without effect may be. -/
theorem lifted {outcome : Except EvalError α} (h : policy.Allows good outcome) :
    Keeps policy written good (lift outcome) := by
  constructor
  intro before found after hgoverns hrun
  obtain ⟨rfl, rfl⟩ := lift_injective hrun
  exact ⟨.refl hgoverns, h⟩

theorem value {value : α} (h : good value) : Keeps policy written good (pure value) := by
  change Keeps policy written good (lift (.ok value))
  exact lifted h

theorem failed {error : EvalError} (h : policy.Allows good (.error error)) :
    Keeps policy written good (throw error) := by
  change Keeps policy written good (lift (.error error))
  exact lifted h

/-- Runs that may look at their machine first. -/
theorem of_looks {run : Eval α}
    (h : ∀ machine, policy.Governs machine →
      ∃ other, Keeps policy written good other ∧ run machine = other machine) :
    Keeps policy written good run := by
  constructor
  intro before outcome after hgoverns hrun
  obtain ⟨other, hkeeps, heq⟩ := h before hgoverns
  exact hkeeps.ends hgoverns (heq.symm.trans hrun)

theorem read {good : Value → Prop} (hgood : ∀ value, good value) (name : String) :
    Keeps policy written good (readName name) :=
  of_looks fun _ _ => ⟨pure _, value (hgood _), rfl⟩

theorem assigned {name : String} (hname : name ∈ written) (value : Value) :
    Keeps policy written (fun _ => True) (modifyEnv (·.assign name value)) := by
  constructor
  intro before outcome after hgoverns hrun
  obtain ⟨rfl, rfl⟩ := lift_injective ((lift_ok () _).trans hrun)
  exact ⟨⟨hgoverns.changed rfl rfl, .assign before.env hname value⟩, trivial⟩

theorem defined {name : String} {function : Closure} (hname : name ∈ policy.defines)
    (hbody : function.body.Obeys policy policy.writes) :
    Keeps policy written (fun _ => True) (defineFunction name function) := by
  constructor
  intro before outcome after hgoverns hrun
  obtain ⟨rfl, rfl⟩ := lift_injective ((lift_ok () _).trans hrun)
  refine ⟨⟨⟨fun other found hfound => ?_, hgoverns.hosts⟩, .refl _⟩, trivial⟩
  rw [NameMap.get?_insert] at hfound
  by_cases heq : other = name
  · rw [if_pos heq] at hfound
    cases hfound
    exact ⟨heq ▸ hname, hbody⟩
  · rw [if_neg heq] at hfound
    exact hgoverns.functions other found hfound

theorem bind {run : Eval α} {next : α → Eval β} (hrun : Keeps policy written good run)
    (hnext : ∀ value, good value → Keeps policy written fine (next value)) :
    Keeps policy written fine (run >>= next) := by
  constructor
  intro before outcome after hgoverns hboth
  rcases bind_cases hboth with ⟨value, middle, hfirst, hrest⟩ | ⟨error, hfirst, rfl⟩
  · obtain ⟨hkept, hgood⟩ := hrun.ends hgoverns (hfirst.trans (lift_ok value middle).symm)
    obtain ⟨hlast, hfine⟩ := (hnext value hgood).ends hkept.governs hrest
    exact ⟨hkept.trans hlast, hfine⟩
  · obtain ⟨hkept, hallows⟩ := hrun.ends hgoverns (hfirst.trans (lift_error error after).symm)
    exact ⟨hkept, hallows.error⟩

theorem mono {run : Eval α} {fair : α → Prop} (h : Keeps policy written good run)
    (hsub : written ⊆ allowed) (hgood : ∀ value, good value → fair value) :
    Keeps policy allowed fair run := by
  constructor
  intro before outcome after hgoverns hrun
  obtain ⟨hkept, hallows⟩ := h.ends hgoverns hrun
  refine ⟨hkept.mono hsub, ?_⟩
  cases outcome with
  | ok value => exact hgood value hallows
  | error error => exact hallows.error

theorem ticked {run : Eval α} (h : Keeps policy written good run) :
    Keeps policy written good (do tick; run) := by
  constructor
  intro before outcome after hgoverns hrun
  have hcounted : policy.Kept written before { before with gas := before.gas + 1 } :=
    ⟨hgoverns.changed rfl rfl, .refl _⟩
  rcases tick_cases before with htick | htick
  · obtain ⟨hkept, hallows⟩ := h.ends hcounted.governs ((bind_ok htick).symm.trans hrun)
    exact ⟨hcounted.trans hkept, hallows⟩
  · obtain ⟨rfl, rfl⟩ := lift_injective
      ((lift_error .gasExhausted _).trans ((bind_failed htick).symm.trans hrun))
    exact ⟨hcounted, trivial⟩

/-- A scope of its own may have its names assigned. -/
theorem within {run : Eval α} {bindings : List (String × Value)}
    (h : Keeps policy written good run)
    (hbound : ∀ name ∈ written, name ∈ allowed ∨ name ∈ bindings.map Prod.fst) :
    Keeps policy allowed good (inScope bindings run) := by
  constructor
  intro before outcome after hgoverns hrun
  obtain ⟨inner, last, hinner⟩ := exists_eq_lift
    (run { before with env := before.env.push.defineAll bindings })
  obtain ⟨rfl, rfl⟩ := lift_injective ((inScope_eq hinner).symm.trans hrun)
  have hinside : policy.Governs { before with env := before.env.push.defineAll bindings } :=
    hgoverns.changed rfl rfl
  obtain ⟨hkept, hallows⟩ := h.ends hinside hinner
  have hchanges := hkept.changes
  rw [Environment.push_defineAll] at hchanges
  refine ⟨⟨hkept.governs.changed rfl rfl, hchanges.pop fun name hname => ?_⟩, hallows⟩
  exact (hbound name hname).imp_right NameMap.contains_ofList.mpr

/-- What a `return` brings is not known. -/
theorem caught {run : Eval Value} {good : Value → Prop} (h : Keeps policy written good run)
    (hreturns : policy.returns → ∀ value, good value) :
    Keeps policy written good (catchReturn run) := by
  constructor
  intro before outcome after hgoverns hrun
  obtain ⟨inner, last, hinner⟩ := exists_eq_lift (run before)
  obtain ⟨hkept, hallows⟩ := h.ends hgoverns hinner
  obtain ⟨rfl, rfl⟩ := lift_injective ((catchReturn_eq hinner).symm.trans hrun)
  refine ⟨hkept, ?_⟩
  cases inner with
  | ok value => exact hallows
  | error error =>
      cases error with
      | returned value => exact hreturns hallows value
      | _ => trivial

/-- Trapping an error lets a `return` pass. -/
theorem trapped {ev : Expr → Eval Value} {body : List Expr} {good : Value → Prop}
    (h : Keeps policy written good (sequence ev (.bool false) body)) :
    Keeps policy written (fun _ => True) (Eval.trapped ev body) := by
  constructor
  intro before outcome after hgoverns hrun
  obtain ⟨inner, last, hinner⟩ := exists_eq_lift (sequence ev (.bool false) body before)
  obtain ⟨hkept, hallows⟩ := h.ends hgoverns hinner
  obtain ⟨rfl, rfl⟩ := lift_injective ((trapped_eq hinner).symm.trans hrun)
  refine ⟨hkept, ?_⟩
  cases inner with
  | ok value => trivial
  | error error =>
      cases error with
      | returned => exact hallows
      | _ => trivial

end Keeps

end Eval

end SceneQuiz
