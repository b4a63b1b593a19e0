import SceneQuiz.Proofs.Machine.Obedience
import SceneQuiz.Proofs.Machine.Outcome
/-!
What a variable holds while code runs.  A run is followed from what is known of
the variables before it to what is known of them and of its value after it; a
run that may not assign a variable keeps all that is known of its column.

A loop that only ever adds good values to a list ends with a list of good
values, whatever else its rounds do.
-/

namespace SceneQuiz

theorem NameMap.get?_ofList_of_forall {α : Type} {entries : List (String × α)} {name : String}
    {value : α} (hmem : name ∈ entries.map Prod.fst)
    (h : ∀ entry ∈ entries, entry.1 = name → entry.2 = value) :
    (NameMap.ofList entries).get? name = some value := by
  have hfold : ∀ map : NameMap α, (∀ stored, map.get? name = some stored → stored = value) →
      ∀ stored, (entries.foldl (fun map entry => map.insert entry.1 entry.2) map).get? name =
        some stored → stored = value := by
    clear hmem
    induction entries with
    | nil => exact fun map hmap => hmap
    | cons entry rest ih =>
        rw [List.forall_mem_cons] at h
        intro map hmap
        apply ih h.2
        intro stored hstored
        rw [NameMap.get?_insert] at hstored
        by_cases heq : name = entry.1
        · rw [if_pos heq] at hstored
          exact (Option.some.inj hstored).symm.trans (h.1 heq.symm)
        · rw [if_neg heq] at hstored
          exact hmap stored hstored
  obtain ⟨stored, hstored⟩ :=
    Option.isSome_iff_exists.mp (NameMap.contains_ofList.mpr hmem)
  rw [hstored, hfold .empty nofun stored hstored]

/-- A column whose first entry that is bound is a good value. -/
def Holds (good : Value → Prop) (column : List (Option Value)) : Prop :=
  ∃ value, column.findSome? (fun entry => entry) = some value ∧ good value

/-- A column whose first entry that is bound, `depth` scopes out, is a list of
good values. -/
def Collected (good : Value → Prop) (depth : Nat) (column : List (Option Value)) : Prop :=
  ∃ values outer, column = List.replicate depth none ++ some (.list values) :: outer ∧
    ∀ value ∈ values, good value

namespace Collected

variable {good : Value → Prop} {depth : Nat} {column : List (Option Value)}

theorem holds (h : Collected good depth column) :
    Holds (fun found => ∃ values, found = .list values ∧ ∀ value ∈ values, good value) column := by
  obtain ⟨values, outer, rfl, hgood⟩ := h
  refine ⟨.list values, ?_, values, rfl, hgood⟩
  induction depth with
  | zero => rfl
  | succ depth ih => exact ih

/-- Assignments stay in the scope that binds the list. -/
theorem reassigned {after : List (Option Value)} {values : List Value}
    (h : Collected good depth column) (hafter : Reassigned column after)
    (hread : after.findSome? (fun entry => entry) = some (.list values))
    (hgood : ∀ value ∈ values, good value) : Collected good depth after := by
  obtain ⟨old, outer, rfl, -⟩ := h
  suffices hform : ∃ value, after = List.replicate depth none ++ some value :: outer by
    obtain ⟨value, rfl⟩ := hform
    have hvalue : value = .list values := by
      clear hafter
      induction depth with
      | zero => exact Option.some.inj hread
      | succ depth ih => exact ih hread
    exact ⟨values, outer, by rw [hvalue], hgood⟩
  clear hread
  induction depth generalizing after with
  | zero => exact hafter.of_bound
  | succ depth ih =>
      rw [List.replicate_succ, List.cons_append] at hafter
      obtain ⟨other, rfl, hother⟩ := hafter.of_free (by simp)
      obtain ⟨value, rfl⟩ := ih hother
      exact ⟨value, rfl⟩

end Collected

namespace Eval

open Policy

variable {policy : Policy} {written : Set String} {α β : Type}

/-- From variables with `pre`, a run under a policy that gives a value leaves
variables with `post` of it. -/
structure Tracks (policy : Policy) (pre : Environment → Prop)
    (post : α → Environment → Prop) (run : Eval α) : Prop where
  ends : ∀ {before value after}, policy.Governs before → pre before.env →
    run before = .ok value after → policy.Governs after ∧ post value after.env

namespace Tracks

variable {pre : Environment → Prop} {mid : α → Environment → Prop}
  {post : β → Environment → Prop}

theorem value {value : α} (h : ∀ env, pre env → mid value env) :
    Tracks policy pre mid (pure value) := by
  constructor
  intro before found after hgoverns hpre hrun
  cases hrun
  exact ⟨hgoverns, h _ hpre⟩

theorem bind {run : Eval α} {next : α → Eval β} (hrun : Tracks policy pre mid run)
    (hnext : ∀ value, Tracks policy (mid value) post (next value)) :
    Tracks policy pre post (run >>= next) := by
  constructor
  intro before found after hgoverns hpre hboth
  rcases bind_cases (hboth.trans (lift_ok found after).symm) with
    ⟨value, middle, hfirst, hrest⟩ | ⟨error, -, hbad⟩
  · obtain ⟨hmiddle, hmid⟩ := hrun.ends hgoverns hpre hfirst
    exact (hnext value).ends hmiddle hmid hrest
  · cases hbad

theorem imp {run : Eval α} {fine : α → Environment → Prop} (h : Tracks policy pre mid run)
    (himp : ∀ value env, mid value env → fine value env) : Tracks policy pre fine run := by
  constructor
  intro before found after hgoverns hpre hrun
  exact (h.ends hgoverns hpre hrun).imp_right (himp found after.env)

theorem weaken {run : Eval α} {start : Environment → Prop} (h : Tracks policy pre mid run)
    (himp : ∀ env, start env → pre env) : Tracks policy start mid run :=
  ⟨fun hgoverns hstart hrun => h.ends hgoverns (himp _ hstart) hrun⟩

theorem of_keeps {good : α → Prop} {run : Eval α} (h : Keeps policy written good run) :
    Tracks policy pre (fun value _ => good value) run := by
  constructor
  intro before found after hgoverns _ hrun
  obtain ⟨hkept, hgood⟩ := h.ends hgoverns (hrun.trans (lift_ok found after).symm)
  exact ⟨hkept.governs, hgood⟩

/-- What may not be assigned is kept. -/
theorem frame {good : α → Prop} {run : Eval α} (h : Keeps policy written good run)
    {name : String} (hname : name ∉ written) (known : List (Option Value) → Prop) :
    Tracks policy (fun env => known (env.column name))
      (fun value env => good value ∧ known (env.column name)) run := by
  constructor
  intro before found after hgoverns hknown hrun
  obtain ⟨hkept, hgood⟩ := h.ends hgoverns (hrun.trans (lift_ok found after).symm)
  refine ⟨hkept.governs, hgood, ?_⟩
  rwa [(hkept.changes name).2 hname]

/-- What a variable holds is what is read. -/
theorem read {good : Value → Prop} (name : String)
    (h : ∀ env, pre env → Holds good (env.column name)) :
    Tracks policy pre (fun value env => pre env ∧ good value) (readName name) := by
  constructor
  intro before found after hgoverns hpre hrun
  cases hrun
  obtain ⟨value, hvalue, hgood⟩ := h _ hpre
  refine ⟨hgoverns, hpre, ?_⟩
  rwa [Environment.get?_eq_column, hvalue]

theorem assigned (name : String) (value : Value) :
    Tracks policy pre (fun _ env => ∃ old, pre old ∧ env = old.assign name value)
      (modifyEnv (·.assign name value)) := by
  constructor
  intro before found after hgoverns hpre hrun
  cases hrun
  exact ⟨hgoverns.changed rfl rfl, before.env, hpre, rfl⟩

/-- What a variable is assigned it holds. -/
theorem assigned_holds {good : Value → Prop} (name : String) {value : Value}
    (h : ∀ env, pre env → good value) :
    Tracks policy pre (fun _ env => Holds good (env.column name))
      (modifyEnv (·.assign name value)) := by
  apply (assigned name value).imp
  rintro _ _ ⟨old, hold, rfl⟩
  refine ⟨value, ?_, h old hold⟩
  rw [← Environment.get?_eq_column, Environment.get?_assign_self]

/-- A builtin that nothing may hide. -/
theorem applied {ev : Expr → Eval Value} (builtin : Builtin) (args : List Value)
    (hdefines : builtin.name ∉ policy.defines) (hhosts : builtin.name ∉ policy.hosts) :
    Tracks policy pre (fun value env => pre env ∧ builtin.apply args = .ok value)
      (Eval.apply ev builtin.name args) := by
  constructor
  intro before found after hgoverns hpre hrun
  have hhost : before.hosts.get? builtin.name = none := by
    apply Option.eq_none_iff_forall_ne_some.mpr
    exact fun host hfound => hhosts (hgoverns.hosts _ host hfound).1
  have hfunction : before.functions.get? builtin.name = none := by
    apply Option.eq_none_iff_forall_ne_some.mpr
    exact fun function hfound => hdefines (hgoverns.functions _ function hfound).1
  rw [Follows.apply_eq_callee, Follows.callee, hhost] at hrun
  simp only [hfunction, Expr.ofName?_name] at hrun
  obtain ⟨hvalue, rfl⟩ := lift_injective (hrun.trans (lift_ok found after).symm)
  exact ⟨hgoverns, hpre, hvalue⟩

theorem of_step {post : Value → Environment → Prop} {e : Expr}
    (h : ∀ fuel, Tracks policy pre post (Eval.step (Expr.evalWithin fuel) e)) (fuel : Nat) :
    Tracks policy pre post (e.evalWithin fuel) := by
  constructor
  intro before found after hgoverns hpre hrun
  obtain ⟨rest, hstep⟩ :=
    Follows.exists_step (hrun.trans (lift_ok found after).symm) (by simp)
  have hcounted : policy.Governs { before with gas := before.gas + 1 } :=
    hgoverns.changed rfl rfl
  exact (h rest).ends hcounted hpre hstep

theorem all_cons {ev : Expr → Eval Value} {mid : Value → Environment → Prop}
    {post : List Value → Environment → Prop} {e : Expr} {rest : List Expr}
    (he : Tracks policy pre mid (ev e))
    (hrest : ∀ value, Tracks policy (mid value) (fun values env => post (value :: values) env)
      (Eval.all ev rest)) : Tracks policy pre post (Eval.all ev (e :: rest)) := by
  apply he.bind
  intro first
  apply (hrest first).bind
  exact fun _ => value fun _ hpost => hpost

section Loops

variable {ev : Expr → Eval Value} {name var : String} {good : Value → Prop} {body : Expr}

/-- The rounds of a loop add to a list outside its scope. -/
theorem forEach (hvar : name ≠ var)
    (h : Tracks policy (fun env => Collected good 1 (env.column name))
      (fun _ env => Collected good 1 (env.column name)) (ev body)) (values : List Value) :
    Tracks policy (fun env => Collected good 1 (env.column name))
      (fun _ env => Collected good 1 (env.column name)) (Eval.forEach ev var body values) := by
  induction values with
  | nil => exact value fun _ hpre => hpre
  | cons first rest ih =>
      have hround : Tracks policy (fun env => Collected good 1 (env.column name))
          (fun _ env => Collected good 1 (env.column name)) (modifyEnv (·.define var first)) := by
        constructor
        intro before found after hgoverns hpre hrun
        cases hrun
        refine ⟨hgoverns.changed rfl rfl, ?_⟩
        rwa [Environment.column_define_of_ne _ _ hvar]
      exact hround.bind fun _ => h.bind fun _ => ih

theorem loop (hvar : name ≠ var)
    (h : Tracks policy (fun env => Collected good 1 (env.column name))
      (fun _ env => Collected good 1 (env.column name)) (ev body)) (values : List Value) :
    Tracks policy (fun env => Collected good 0 (env.column name))
      (fun _ env => Collected good 0 (env.column name)) (Eval.loop ev var body values) := by
  have hrounds : Tracks policy (fun env => Collected good 0 (env.column name))
      (fun _ env => Collected good 0 (env.column name))
      (inScope [] (Eval.forEach ev var body values)) := by
    constructor
    intro before found after hgoverns hpre hrun
    obtain ⟨outcome, last, hinner⟩ := exists_eq_lift
      (Eval.forEach ev var body values { before with env := before.env.push.defineAll [] })
    obtain ⟨rfl, rfl⟩ := lift_injective
      ((inScope_eq hinner).symm.trans (hrun.trans (lift_ok found after).symm))
    obtain ⟨items, outer, hcolumn, hgood⟩ := hpre
    have hinside : Collected good 1
        ((before.env.push.defineAll []).column name) := by
      refine ⟨items, outer, ?_, hgood⟩
      rw [Environment.push_defineAll, Environment.column_under, hcolumn]
      rfl
    have hstart : policy.Governs { before with env := before.env.push.defineAll [] } :=
      hgoverns.changed rfl rfl
    obtain ⟨hlast, items, outer, hcolumn, hgood⟩ :=
      (forEach hvar h values).ends hstart hinside hinner
    exact ⟨hlast.changed rfl rfl, items, outer, Environment.column_pop hcolumn (by simp), hgood⟩
  exact hrounds.bind fun _ => value fun _ hpre => hpre

end Loops

end Tracks

end Eval

end SceneQuiz
