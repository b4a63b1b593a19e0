import Mathlib.Data.List.Forall2
import SceneQuiz.Proofs.Machine.Restraint
/-!
The course of a run under a restraint: from what is known of the variables
before it to what is known of them after it, whether it gives a value, fails in
an error that can be trapped, or leaves by `return`.  A run that uses up the
step budget may leave anything, for no code goes on from there.

A run heeds the restraint if, wherever it starts, it keeps the names and leaves
no block.  Such runs are what the parts of longer courses are made of.
-/

namespace SceneQuiz

namespace Eval

variable {α β : Type} {rule : Restraint} {trusted : Set Expr}

/-- An outcome and what it leaves: a value with `post`, an error with `broken`,
or a `return` with `left`. -/
def Allowed (post : α → Environment → Prop) (broken : Environment → Prop)
    (left : Value → Environment → Prop) : Except EvalError α → Environment → Prop
  | .ok value, env => post value env
  | .error .gasExhausted, _ => True
  | .error (.returned value), env => left value env
  | .error _, env => broken env

/-- The course of a run from variables with `pre`. -/
structure Brings (setting : Setting) (pre : Environment → Prop)
    (post : α → Environment → Prop) (broken : Environment → Prop)
    (left : Value → Environment → Prop) (run : Eval α) : Prop where
  ends : ∀ {before outcome after}, setting.holds before → pre before.env →
    run before = lift outcome after → outcome ≠ .error .gasExhausted →
      setting.holds after ∧ Allowed post broken left outcome after.env

namespace Brings

variable {setting : Setting} {pre : Environment → Prop} {mid : α → Environment → Prop}
  {post : β → Environment → Prop} {broken : Environment → Prop}
  {left : Value → Environment → Prop}

theorem value {value : α} (h : ∀ env, pre env → mid value env) :
    Brings setting pre mid broken left (pure value) := by
  constructor
  intro before outcome after hgoverns hpre hrun _
  obtain ⟨rfl, rfl⟩ := lift_injective ((lift_ok value before).trans hrun)
  exact ⟨hgoverns, h _ hpre⟩

theorem failed {error : EvalError}
    (h : ∀ env, pre env → Allowed mid broken left (.error error) env) :
    Brings setting pre mid broken left (throw error) := by
  constructor
  intro before outcome after hgoverns hpre hrun _
  obtain ⟨rfl, rfl⟩ := lift_injective ((lift_error error before).trans hrun)
  exact ⟨hgoverns, h _ hpre⟩

theorem bind {run : Eval α} {next : α → Eval β} (hrun : Brings setting pre mid broken left run)
    (hnext : ∀ value, Brings setting (mid value) post broken left (next value)) :
    Brings setting pre post broken left (run >>= next) := by
  constructor
  intro before outcome after hgoverns hpre hboth hgas
  rcases bind_cases hboth with ⟨value, middle, hfirst, hrest⟩ | ⟨error, hfirst, rfl⟩
  · obtain ⟨hmiddle, hmid⟩ :=
      hrun.ends hgoverns hpre (hfirst.trans (lift_ok value middle).symm) nofun
    exact (hnext value).ends hmiddle hmid hrest hgas
  · obtain ⟨hafter, hends⟩ :=
      hrun.ends hgoverns hpre (hfirst.trans (lift_error error after).symm) fun heq =>
        hgas (by cases heq; rfl)
    refine ⟨hafter, ?_⟩
    cases error <;> exact hends

/-- Less to start from, and more to end in. -/
theorem imp {run : Eval α} {start : Environment → Prop} {fine : α → Environment → Prop}
    {worse : Environment → Prop} {gone : Value → Environment → Prop}
    (h : Brings setting pre mid broken left run) (hstart : ∀ env, start env → pre env)
    (hvalue : ∀ value env, mid value env → fine value env)
    (hbroken : ∀ env, broken env → worse env)
    (hleft : ∀ value env, left value env → gone value env) :
    Brings setting start fine worse gone run := by
  constructor
  intro before outcome after hgoverns hpre hrun hgas
  obtain ⟨hafter, hends⟩ := h.ends hgoverns (hstart _ hpre) hrun hgas
  refine ⟨hafter, ?_⟩
  cases outcome with
  | ok found => exact hvalue found _ hends
  | error error =>
      cases error with
      | gasExhausted => exact absurd rfl hgas
      | returned found => exact hleft found _ hends
      | _ => exact hbroken _ hends

theorem starting {run : Eval α} {start : Environment → Prop}
    (h : Brings setting pre mid broken left run) (hstart : ∀ env, start env → pre env) :
    Brings setting start mid broken left run :=
  h.imp hstart (fun _ _ hvalue => hvalue) (fun _ hbroken => hbroken) fun _ _ hleft => hleft

theorem giving {run : Eval α} {fine : α → Environment → Prop}
    (h : Brings setting pre mid broken left run)
    (hvalue : ∀ value env, mid value env → fine value env) :
    Brings setting pre fine broken left run :=
  h.imp (fun _ hpre => hpre) hvalue (fun _ hbroken => hbroken) fun _ _ hleft => hleft

/-- It is enough to follow a run from each place where it may start. -/
theorem of_each {run : Eval α}
    (h : ∀ start, pre start → Brings setting (· = start) mid broken left run) :
    Brings setting pre mid broken left run :=
  ⟨fun hgoverns hpre hrun hgas => (h _ hpre).ends hgoverns rfl hrun hgas⟩

theorem of_exists {run : Eval α} {ι : Type} {start : ι → Environment → Prop}
    (h : ∀ i, Brings setting (start i) mid broken left run) :
    Brings setting (fun env => ∃ i, start i env) mid broken left run := by
  apply of_each
  rintro env ⟨i, hstart⟩
  exact (h i).starting fun _ heq => heq ▸ hstart

theorem read (name : String) :
    Brings setting pre (fun value env => pre env ∧ value = env.reading name) broken left
      (readName name) := by
  constructor
  intro before outcome after hgoverns hpre hrun _
  obtain ⟨rfl, rfl⟩ := lift_injective ((lift_ok (before.env.reading name) before).trans hrun)
  exact ⟨hgoverns, hpre, rfl⟩

theorem assigned (name : String) (value : Value) :
    Brings setting pre (fun _ env => ∃ old, pre old ∧ env = old.assign name value) broken left
      (modifyEnv (·.assign name value)) := by
  constructor
  intro before outcome after hgoverns hpre hrun _
  obtain ⟨rfl, rfl⟩ := lift_injective
    ((lift_ok () { before with env := before.env.assign name value }).trans hrun)
  exact ⟨setting.steady hgoverns rfl rfl, before.env, hpre, rfl⟩

theorem ticked {run : Eval α} (h : Brings setting pre mid broken left run) :
    Brings setting pre mid broken left (do tick; run) := by
  constructor
  intro before outcome after hgoverns hpre hrun hgas
  rcases tick_cases before with htick | htick
  · have hcounted : setting.holds { before with gas := before.gas + 1 } :=
      setting.steady hgoverns rfl rfl
    exact h.ends hcounted hpre ((bind_ok htick).symm.trans hrun) hgas
  · obtain ⟨rfl, rfl⟩ := lift_injective
      ((lift_error .gasExhausted _).trans ((bind_failed htick).symm.trans hrun))
    exact absurd rfl hgas

/-- A scope over the variables, which is closed however the run ends. -/
theorem within {run : Eval α} {bindings : List (String × Value)}
    (h : ∀ start, pre start →
      Brings setting (· = start.under (NameMap.ofList bindings))
        (fun value env => mid value env.pop) (fun env => broken env.pop)
        (fun value env => left value env.pop) run) :
    Brings setting pre mid broken left (inScope bindings run) := by
  constructor
  intro before outcome after hgoverns hpre hrun hgas
  obtain ⟨found, last, hinner⟩ := exists_eq_lift
    (run { before with env := before.env.push.defineAll bindings })
  obtain ⟨rfl, rfl⟩ := lift_injective ((inScope_eq hinner).symm.trans hrun)
  have hinside : setting.holds
      { before with env := before.env.push.defineAll bindings } := setting.steady hgoverns rfl rfl
  obtain ⟨hlast, hends⟩ :=
    (h before.env hpre).ends hinside (Environment.push_defineAll _ _) hinner hgas
  refine ⟨setting.steady hlast rfl rfl, ?_⟩
  cases found with
  | ok value => exact hends
  | error error => cases error <;> exact hends

/-- A block takes in what a `return` inside it brings. -/
theorem caught {run : Eval Value} {mid : Value → Environment → Prop}
    (h : Brings setting pre mid broken mid run) :
    Brings setting pre mid broken left (catchReturn run) := by
  constructor
  intro before outcome after hgoverns hpre hrun hgas
  obtain ⟨found, last, hinner⟩ := exists_eq_lift (run before)
  obtain ⟨rfl, rfl⟩ := lift_injective ((catchReturn_eq hinner).symm.trans hrun)
  have hspent : found ≠ .error .gasExhausted := by
    rintro rfl
    exact hgas rfl
  obtain ⟨hlast, hends⟩ := h.ends hgoverns hpre hinner hspent
  refine ⟨hlast, ?_⟩
  cases found with
  | ok value => exact hends
  | error error => cases error <;> exact hends

section Constructs

variable {ev : Expr → Eval Value}

/-- Errors end up as an empty list. -/
theorem trapped {body : List Expr} {mid : Value → Environment → Prop}
    {fine : Value → Environment → Prop}
    (h : Brings setting pre mid broken left (sequence ev (.bool false) body))
    (hvalue : ∀ value env, mid value env → fine (.list [value]) env)
    (hbroken : ∀ env, broken env → fine (.list []) env) {worse : Environment → Prop} :
    Brings setting pre fine worse left (Eval.trapped ev body) := by
  constructor
  intro before outcome after hgoverns hpre hrun hgas
  obtain ⟨found, last, hinner⟩ := exists_eq_lift (sequence ev (.bool false) body before)
  obtain ⟨rfl, rfl⟩ := lift_injective ((trapped_eq hinner).symm.trans hrun)
  have hspent : found ≠ .error .gasExhausted := by
    rintro rfl
    exact hgas rfl
  obtain ⟨hlast, hends⟩ := h.ends hgoverns hpre hinner hspent
  refine ⟨hlast, ?_⟩
  cases found with
  | ok value => exact hvalue value _ hends
  | error error =>
      cases error with
      | gasExhausted => exact absurd rfl hspent
      | returned value => exact hends
      | _ => exact hbroken _ hends

theorem sequence_cons {last : Value} {e : Expr} {rest : List Expr}
    {between : Environment → Prop} {post : Value → Environment → Prop}
    (he : Brings setting pre (fun _ => between) broken left (ev e))
    (hrest : ∀ value, Brings setting between post broken left (sequence ev value rest)) :
    Brings setting pre post broken left (sequence ev last (e :: rest)) :=
  he.bind hrest

theorem sequence_append {items others : List Expr} {between : Environment → Prop}
    {post : Value → Environment → Prop}
    (hitems : ∀ last, Brings setting pre (fun _ => between) broken left
      (sequence ev last items))
    (hothers : ∀ last, Brings setting between post broken left (sequence ev last others))
    (last : Value) : Brings setting pre post broken left (sequence ev last (items ++ others)) := by
  rw [Expr.sequence_append]
  exact (hitems last).bind hothers

/-- Statements that each keep what is known. -/
theorem sequence_all {items : List Expr}
    (h : ∀ e ∈ items, Brings setting pre (fun _ => pre) broken left (ev e)) (last : Value) :
    Brings setting pre (fun _ => pre) broken left (sequence ev last items) := by
  induction items generalizing last with
  | nil => exact value fun _ hpre => hpre
  | cons e rest ih =>
      rw [List.forall_mem_cons] at h
      exact sequence_cons h.1 fun found => ih h.2 found

/-- Values of several expressions, which keep what is known. -/
theorem all {items : List Expr} {good : Expr → Value → Prop}
    (h : ∀ e ∈ items, Brings setting pre (fun found env => pre env ∧ good e found) broken left
      (ev e)) :
    Brings setting pre (fun found env => pre env ∧ List.Forall₂ good items found) broken left
      (Eval.all ev items) := by
  induction items with
  | nil => exact value fun _ hpre => ⟨hpre, .nil⟩
  | cons e rest ih =>
      rw [List.forall_mem_cons] at h
      apply h.1.bind
      intro first
      apply of_each
      rintro start ⟨hstart, hfirst⟩
      apply ((ih h.2).starting fun env (heq : env = start) => heq ▸ hstart).bind
      intro others
      exact value fun _ hothers => ⟨hothers.1, .cons hfirst hothers.2⟩

theorem two {first second : Expr} {good fine : Value → Prop}
    (hfirst : Brings setting pre (fun found env => pre env ∧ good found) broken left (ev first))
    (hsecond : Brings setting pre (fun found env => pre env ∧ fine found) broken left (ev second)) :
    Brings setting pre
      (fun found env => pre env ∧ ∃ value other, found = [value, other] ∧ good value ∧ fine other)
      broken left (Eval.all ev [first, second]) := by
  apply hfirst.bind
  intro value
  apply of_each
  rintro start ⟨hstart, hvalue⟩
  have hothers : Brings setting (· = start) (fun found env => pre env ∧
      ∃ other, found = [other] ∧ fine other) broken left (Eval.all ev [second]) := by
    apply (hsecond.starting fun env (heq : env = start) => heq ▸ hstart).bind
    intro other
    exact Brings.value fun _ hother => ⟨hother.1, other, rfl, hother.2⟩
  apply hothers.bind
  intro others
  apply Brings.value
  rintro env ⟨hpre, other, rfl, hother⟩
  exact ⟨hpre, value, other, rfl, hvalue, hother⟩

/-- The locals of a block are the names it declares, each with the value it
starts with. -/
theorem locals {good : String → Value → Prop} {declarations : List Expr}
    (hplain : ∀ name, .ident name ∈ declarations → good name (.symbol name))
    (h : ∀ name right, .binary .assign (.ident name) right ∈ declarations →
      Brings setting pre (fun found env => pre env ∧ good name found) broken left (ev right))
    (hbroken : ∀ env, pre env → broken env) :
    Brings setting pre (fun bindings env => pre env ∧
        bindings.map Prod.fst = declarations.filterMap Expr.declaredName? ∧
          ∀ binding ∈ bindings, good binding.1 binding.2) broken left
      (Eval.locals ev declarations) := by
  induction declarations with
  | nil => exact value fun _ hpre => ⟨hpre, rfl, List.forall_mem_nil _⟩
  | cons e rest ih =>
      have hrest := ih (fun name hmem => hplain name (List.mem_cons_of_mem e hmem))
        fun name right hmem => h name right (List.mem_cons_of_mem e hmem)
      by_cases hlocal : e.isLocal = true
      · rcases Expr.exists_of_isLocal hlocal with ⟨name, rfl⟩ | ⟨name, right, rfl⟩
        · apply hrest.bind
          intro bindings
          apply value
          rintro env ⟨hpre, hnames, hgood⟩
          exact ⟨hpre, congrArg (name :: ·) hnames,
            List.forall_mem_cons.mpr ⟨hplain name List.mem_cons_self, hgood⟩⟩
        · apply (h name right List.mem_cons_self).bind
          intro first
          apply of_each
          rintro start ⟨hstart, hfirst⟩
          apply (hrest.starting fun env (heq : env = start) => heq ▸ hstart).bind
          intro bindings
          apply value
          rintro env ⟨hpre, hnames, hgood⟩
          exact ⟨hpre, congrArg (name :: ·) hnames, List.forall_mem_cons.mpr ⟨hfirst, hgood⟩⟩
      · rw [Bool.not_eq_true] at hlocal
        obtain ⟨cause, hrefused⟩ := Follows.locals_refused hlocal rest
        rw [hrefused]
        exact failed hbroken

theorem condition {test : Expr} {truth : Value → Environment → Prop}
    (h : Brings setting pre truth broken left (ev test))
    (hbroken : ∀ value env, truth value env → broken env) :
    Brings setting pre (fun holds env => truth (.bool holds) env) broken left
      (Eval.condition ev test) := by
  apply h.bind
  intro found
  cases found with
  | bool holds => exact value fun _ htruth => htruth
  | _ => exact failed fun env htruth => hbroken _ env htruth

end Constructs

/-- The course of an evaluation is that of its first level under smaller fuel. -/
theorem of_step {e : Expr} {fuel : Nat} {post : Value → Environment → Prop}
    (h : ∀ less < fuel,
      Brings setting pre post broken left (Eval.step (Expr.evalWithin less) e)) :
    Brings setting pre post broken left (e.evalWithin fuel) := by
  cases fuel with
  | zero =>
      have hspent : Brings setting pre post broken left (throw .gasExhausted) :=
        failed fun _ _ => trivial
      exact hspent.ticked
  | succ less => exact (h less (by omega)).ticked

section Statements

variable {fuel : Nat}

/-- A conditional of one branch: what its test tells is known in the branch that
is taken. -/
theorem ifThen {test body : Expr} {otherwise : Option Expr} {truth : Value → Environment → Prop}
    {post : Value → Environment → Prop}
    (htest : ∀ less < fuel, Brings setting pre truth broken left (test.evalWithin less))
    (hbroken : ∀ value env, truth value env → broken env)
    (hbody : ∀ less < fuel, Brings setting (truth (.bool true)) post broken left
      (body.evalWithin less))
    (hother : ∀ e ∈ otherwise, ∀ less < fuel, Brings setting (truth (.bool false)) post broken left
      (e.evalWithin less))
    (hnone : otherwise = none → ∀ env, truth (.bool false) env → post (.bool false) env) :
    Brings setting pre post broken left ((Expr.ifThen test body otherwise).evalWithin fuel) := by
  apply of_step
  intro less hless
  apply (condition (htest less hless) hbroken).bind
  intro holds
  cases holds with
  | true => exact hbody less hless
  | false =>
      cases otherwise with
      | some e => exact hother e rfl less hless
      | none => exact value (hnone rfl)

/-- A number that cannot be read is an error. -/
theorem number (text : String) (hbroken : ∀ env, pre env → broken env) :
    Brings setting pre (fun found env => pre env ∧ Value.ofNumber? text = some found) broken left
      ((Expr.number text).evalWithin fuel) := by
  apply of_step
  intro _ _
  dsimp only [Eval.step]
  split
  · next hfound => exact value fun _ hpre => ⟨hpre, hfound⟩
  · exact failed hbroken

theorem bool (truth : Bool) :
    Brings setting pre (fun found env => pre env ∧ found = .bool truth) broken left
      ((Expr.bool truth).evalWithin fuel) :=
  of_step fun _ _ => value fun _ hpre => ⟨hpre, rfl⟩

theorem str (text : String) :
    Brings setting pre (fun found env => pre env ∧ found = .str text) broken left
      ((Expr.str text).evalWithin fuel) :=
  of_step fun _ _ => value fun _ hpre => ⟨hpre, rfl⟩

/-- A list of expressions, which keep what is known. -/
theorem list {items : List Expr} {good : Expr → Value → Prop}
    (h : ∀ less < fuel, ∀ e ∈ items, Brings setting pre (fun found env => pre env ∧ good e found)
      broken left (e.evalWithin less)) :
    Brings setting pre
      (fun found env => pre env ∧ ∃ values, found = .list values ∧ List.Forall₂ good items values)
      broken left ((Expr.list items).evalWithin fuel) := by
  apply of_step
  intro less hless
  apply (all (h less hless)).bind
  intro values
  exact value fun _ hvalues => ⟨hvalues.1, values, rfl, hvalues.2⟩

theorem emptyList :
    Brings setting pre (fun found env => pre env ∧ found = .list []) broken left
      ((Expr.list []).evalWithin fuel) := by
  have hlist : Brings setting pre (fun found env => pre env ∧
      ∃ values, found = .list values ∧ List.Forall₂ (fun _ _ => True) [] values) broken left
      ((Expr.list []).evalWithin fuel) := list fun _ _ => List.forall_mem_nil _
  apply hlist.giving
  rintro _ env ⟨hpre, values, rfl, hvalues⟩
  rw [List.forall₂_nil_left_iff] at hvalues
  exact ⟨hpre, congrArg _ hvalues⟩

theorem ident (name : String) :
    Brings setting pre (fun found env => pre env ∧ found = env.reading name) broken left
      ((Expr.ident name).evalWithin fuel) :=
  of_step fun _ _ => read name

theorem group {items : List Expr} {post : Value → Environment → Prop}
    (h : ∀ less < fuel, Brings setting pre post broken left
      (sequence (Expr.evalWithin less) (.bool false) items)) :
    Brings setting pre post broken left ((Expr.group items).evalWithin fuel) :=
  of_step h

/-- A call of a builtin that no other function hides. -/
theorem builtin {name : String} {found : Builtin} {args : List Expr}
    {given : List Value → Environment → Prop} {post : Value → Environment → Prop}
    (hname : Builtin.ofName? name = some found)
    (hspecial : name ≠ "block" ∧ name ≠ "errcatch" ∧ name ≠ "return")
    (hplain : ∀ machine, setting.holds machine →
      machine.hosts.get? name = none ∧ machine.functions.get? name = none)
    (hargs : ∀ less < fuel, Brings setting pre given broken left
      (Eval.all (Expr.evalWithin less) args))
    (hvalue : ∀ values env value, given values env → found.apply values = .ok value →
      post value env)
    (hbroken : ∀ values env, given values env → broken env) :
    Brings setting pre post broken left ((Expr.call name args).evalWithin fuel) := by
  apply of_step
  intro less hless
  have hcall : Eval.step (Expr.evalWithin less) (.call name args) =
      (do
        let values ← Eval.all (Expr.evalWithin less) args
        Eval.apply (Expr.evalWithin less) name values) := by
    dsimp only [Eval.step, Eval.call]
    rw [if_neg hspecial.1, if_neg hspecial.2.1, if_neg hspecial.2.2]
  rw [hcall]
  apply (hargs less hless).bind
  intro values
  constructor
  intro before outcome after hholds hgiven hrun hgas
  obtain ⟨hhost, hfunction⟩ := hplain before hholds
  rw [Follows.apply_eq_callee, Follows.callee, hhost, hfunction, hname] at hrun
  obtain ⟨rfl, rfl⟩ := lift_injective hrun
  refine ⟨hholds, ?_⟩
  have hunreturned := (found.trappable_apply values).unreturned
  cases hends : found.apply values with
  | ok value => exact hvalue values _ value hgiven hends
  | error error =>
      rw [hends] at hunreturned
      cases error with
      | gasExhausted => trivial
      | returned => exact hunreturned.elim
      | _ => exact hbroken values _ hgiven

theorem assign {name : String} {source : Expr} {mid post : Value → Environment → Prop}
    (h : ∀ less < fuel, Brings setting pre mid broken left (source.evalWithin less))
    (hpost : ∀ found env, mid found env → post found (env.assign name found)) :
    Brings setting pre post broken left ((Expr.assign name source).evalWithin fuel) := by
  apply of_step
  intro less hless
  apply (h less hless).bind
  intro found
  apply (assigned name found).bind
  intro _
  apply value
  rintro _ ⟨old, hold, rfl⟩
  exact hpost found old hold

end Statements

end Brings

/-- A course that ends as it began, however it ends, is that of a run with an
invariant. -/
theorem brings_iff_respects {setting : Setting} {known : Environment → Prop}
    {leaving : Value → Prop} {run : Eval α} :
    Brings setting known (fun _ => known) known (fun value env => leaving value ∧ known env) run ↔
      Respects (setting.Still known) leaving run := by
  constructor
  · intro h
    constructor
    rintro first _ outcome after ⟨rfl, hholds, hknown⟩ hrun
    by_cases hgas : outcome = .error .gasExhausted
    · subst hgas
      exact ⟨after, hrun, fun hne => absurd rfl hne, trivial⟩
    obtain ⟨hafter, hends⟩ := h.ends hholds hknown hrun hgas
    have hboth : known after.env ∧ Releases leaving outcome := by
      cases outcome with
      | ok value => exact ⟨hends, trivial⟩
      | error error =>
          cases error with
          | gasExhausted => exact absurd rfl hgas
          | returned value => exact hends.symm
          | _ => exact ⟨hends, trivial⟩
    exact ⟨after, hrun, fun _ => ⟨rfl, hafter, hboth.1⟩, hboth.2⟩
  · intro h
    constructor
    intro before outcome after hholds hknown hrun hgas
    obtain ⟨final, hfinal, hstill, hreleases⟩ := h.ends ⟨rfl, hholds, hknown⟩ hrun
    obtain ⟨-, rfl⟩ := lift_injective (hrun.symm.trans hfinal)
    obtain ⟨-, hafter, hlast⟩ := hstill hgas
    refine ⟨hafter, ?_⟩
    cases outcome with
    | ok value => exact hlast
    | error error =>
        cases error with
        | gasExhausted => trivial
        | returned value => exact ⟨hreleases, hlast⟩
        | _ => exact hlast

/-- A run that keeps to the restraint wherever it starts. -/
def Heeds (rule : Restraint) (trusted : Set Expr) (caught : Bool) (run : Eval α) : Prop :=
  ∀ start, Brings (rule.setting trusted) (· = start) (fun _ => rule.Kept start) (rule.Kept start)
    (fun _ env => caught = true ∧ rule.Kept start env) run

variable {caught : Bool}

/-- What a run that heeds the restraint leaves. -/
theorem Heeds.brings {run : Eval α} (h : Heeds rule trusted caught run)
    {pre : Environment → Prop} {post : α → Environment → Prop} {broken : Environment → Prop}
    {left : Value → Environment → Prop}
    (hpost : ∀ start env, pre start → rule.Kept start env → (∀ value, post value env) ∧ broken env)
    (hleft : caught = true → ∀ start env, pre start → rule.Kept start env →
      ∀ value, left value env) : Brings (rule.setting trusted) pre post broken left run := by
  apply Brings.of_each
  intro start hstart
  apply (h start).imp (fun _ heq => heq)
  · exact fun value env hkept => (hpost start env hstart hkept).1 value
  · exact fun env hkept => (hpost start env hstart hkept).2
  · exact fun value env hkept => hleft hkept.1 start env hstart hkept.2 value

/-- However it ends, but for a spent budget, such a run keeps the names. -/
theorem Heeds.kept {run : Eval α} (h : Heeds rule trusted caught run) {before after : Machine}
    {outcome : Except EvalError α} (hholds : (rule.setting trusted).holds before)
    (hrun : run before = lift outcome after) (hgas : outcome ≠ .error .gasExhausted) :
    rule.Kept before.env after.env := by
  obtain ⟨-, hends⟩ := (h before.env).ends hholds rfl hrun hgas
  cases outcome with
  | ok value => exact hends
  | error error =>
      cases error with
      | gasExhausted => exact absurd rfl hgas
      | returned => exact hends.2
      | _ => exact hends

/-- To heed the restraint is to respect, from every start, what is kept since. -/
theorem heeds_iff {run : Eval α} : Heeds rule trusted caught run ↔
    ∀ start, Respects ((rule.setting trusted).Still (rule.Kept start)) (fun _ => caught = true)
      run := by
  constructor
  · intro h start
    rw [← brings_iff_respects]
    apply Brings.of_each
    intro middle hmiddle
    apply (h middle).imp (fun _ heq => heq)
    · exact fun _ _ hkept => hmiddle.trans hkept
    · exact fun _ hkept => hmiddle.trans hkept
    · exact fun _ _ hkept => ⟨hkept.1, hmiddle.trans hkept.2⟩
  · intro h start
    apply (brings_iff_respects.mpr (h start)).imp
    · rintro _ rfl
      exact .refl rule _
    · exact fun _ _ hkept => hkept
    · exact fun _ hkept => hkept
    · exact fun _ _ hkept => hkept

end Eval

end SceneQuiz
