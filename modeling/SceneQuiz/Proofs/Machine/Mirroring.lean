import Mathlib.Data.List.Forall2
import SceneQuiz.Proofs.Machine.Blindness
import SceneQuiz.Proofs.Machine.Obedience
/-!
A run that mirrors another.  From machines that are near each other it ends in
a value that agrees with the other's, or in the same `return`, and leaves
machines near each other, unless its budget ends it first.  Runs that end in
any other error are not compared.

Code that is blind for how the machines differ is mirrored by whatever follows
it; on top of that each construct has a rule.
-/

namespace SceneQuiz

namespace Eval

open Machine

variable {rel : Value → Value → Prop} {loose : Set String} {α β γ δ : Type}

namespace Leads

theorem within {run : Eval α} {bindings : List (String × Value)} {before after : Machine}
    {outcome : Except EvalError α}
    (h : run.Leads { before with env := before.env.push.defineAll bindings } outcome after) :
    (inScope bindings run).Leads before outcome { after with env := after.env.pop } := by
  intro start hstart
  rcases h _ (hstart.changed fun env => env.push.defineAll bindings) with
    ⟨spent, hspent⟩ | ⟨seen, final, hseen, hfinal, hend⟩
  · exact .inl ⟨{ spent with env := spent.env.pop }, by simp [inScope, hspent]⟩
  · exact .inr ⟨seen, { final with env := final.env.pop }, hseen, hfinal.changed _, inScope_eq hend⟩

theorem caught {run : Eval Value} {before after : Machine} {value : Value}
    {outcome : Except EvalError Value} (h : run.Leads before outcome after)
    (hvalue : unwound outcome = .ok value) :
    (catchReturn run).Leads before (.ok value) after := by
  intro start hstart
  rcases h start hstart with ⟨spent, hspent⟩ | ⟨seen, final, hseen, hfinal, hend⟩
  · exact .inl ⟨spent, by simp [catchReturn, hspent]⟩
  · refine .inr ⟨.ok value, final, .ok value, hfinal, ?_⟩
    rw [catchReturn_eq hend]
    cases hseen with
    | ok => rw [hvalue]
    | error herror =>
        rcases herror with rfl | ⟨_, _, rfl, rfl⟩
        · rw [hvalue]
        · cases hvalue

end Leads

/-- A value, or what a `return` brings. -/
def Delivered : Except EvalError α → Prop
  | .ok _ | .error (.returned _) => True
  | _ => False

/-- Values that agree, or the same `return`. -/
inductive Agree (agree : α → β → Prop) : Except EvalError α → Except EvalError β → Prop where
  | value {value : α} {other : β} (h : agree value other) : Agree agree (.ok value) (.ok other)
  | returned (value : Value) : Agree agree (.error (.returned value)) (.error (.returned value))

theorem Agree.map {agree : α → β → Prop} {fine : γ → δ → Prop} {outcome : Except EvalError α}
    {seen : Except EvalError β} {change : α → γ} {other : β → δ} (h : Agree agree outcome seen)
    (himp : ∀ value found, agree value found → fine (change value) (other found)) :
    Agree fine (outcome.map change) (seen.map other) := by
  cases h with
  | value hvalues => exact .value (himp _ _ hvalues)
  | returned value => exact .returned value

theorem agree_self {outcome : Except EvalError α} (h : Delivered outcome) :
    Agree (fun value other => value = other) outcome outcome := by
  cases outcome with
  | ok value => exact .value rfl
  | error error =>
      cases error with
      | returned value => exact .returned value
      | _ => exact h.elim

/-- The runs `right`, whatever fuel they have, mirror the run `left`. -/
structure Mirrors (rel : Value → Value → Prop) (loose : Set String) (agree : α → β → Prop)
    (left : Eval α) (right : Nat → Eval β) : Prop where
  ends : ∀ {first second outcome after}, Near rel loose first second →
    left first = lift outcome after → Delivered outcome →
      ∃ seen final, Agree agree outcome seen ∧ Near rel loose after final ∧
        ∀ fuel, (right fuel).Leads second seen final

namespace Mirrors

variable {agree : α → β → Prop} {fine : γ → δ → Prop}

theorem value {value : α} {other : β} (h : agree value other) :
    Mirrors rel loose agree (pure value) fun _ => pure other := by
  constructor
  intro first second outcome after hnear hrun _
  obtain ⟨rfl, rfl⟩ := lift_injective ((lift_ok value first).trans hrun)
  exact ⟨.ok other, second, .value h, hnear, fun _ => .value other (.refl second)⟩

/-- What ends in another error than a `return` is not compared. -/
theorem failed {error : EvalError} (herror : ∀ value, error ≠ .returned value)
    (right : Nat → Eval β) : Mirrors rel loose agree (throw error) right := by
  constructor
  intro first second outcome after _ hrun hdelivered
  obtain ⟨rfl, -⟩ := lift_injective ((lift_error error first).trans hrun)
  cases error with
  | returned value => exact absurd rfl (herror value)
  | _ => exact hdelivered.elim

theorem mono {left : Eval α} {right : Nat → Eval β} {weaker : α → β → Prop}
    (h : Mirrors rel loose agree left right)
    (himp : ∀ value other, agree value other → weaker value other) :
    Mirrors rel loose weaker left right := by
  constructor
  intro first second outcome after hnear hrun hdelivered
  obtain ⟨seen, final, hagree, hrest⟩ := h.ends hnear hrun hdelivered
  refine ⟨seen, final, ?_, hrest⟩
  cases hagree with
  | value hvalues => exact .value (himp _ _ hvalues)
  | returned found => exact .returned found

theorem bind {left : Eval α} {right : Nat → Eval β} {next : α → Eval γ}
    {other : Nat → β → Eval δ} (h : Mirrors rel loose agree left right)
    (hnext : ∀ value found, agree value found →
      Mirrors rel loose fine (next value) fun fuel => other fuel found) :
    Mirrors rel loose fine (left >>= next) fun fuel => right fuel >>= other fuel := by
  constructor
  intro first second outcome after hnear hboth hdelivered
  rcases bind_cases hboth with ⟨value, middle, hfirst, hrest⟩ | ⟨error, hfirst, rfl⟩
  · obtain ⟨seen, between, hagree, hbetween, hleads⟩ :=
      h.ends hnear (hfirst.trans (lift_ok value middle).symm) trivial
    cases hagree with
    | value hvalues =>
        obtain ⟨last, final, hlast, hfinal, hthen⟩ :=
          (hnext _ _ hvalues).ends hbetween hrest hdelivered
        exact ⟨last, final, hlast, hfinal, fun fuel => (hleads fuel).bind (hthen fuel)⟩
  · cases error with
    | returned found =>
        obtain ⟨seen, final, hagree, hfinal, hleads⟩ :=
          h.ends hnear (hfirst.trans (lift_error _ _).symm) trivial
        cases hagree
        exact ⟨_, final, .returned found, hfinal, fun fuel => (hleads fuel).bind_error⟩
    | _ => exact hdelivered.elim

/-- Blind runs are mirrored by what follows them. -/
theorem of_blind {left : Eval α} {right : Nat → Eval α} {names : List String}
    (hblind : Blind rel loose left) (hfollows : ∀ fuel, Follows names left (right fuel))
    (hnames : ∀ name ∈ names, ∃ builtin : Builtin, builtin.name = name) :
    Mirrors rel loose (fun value other => value = other) left right := by
  constructor
  intro first second outcome after hnear hrun hdelivered
  have hbudget : second.Alike { second with gas := first.gas, limit := first.limit } :=
    ⟨rfl, rfl, rfl⟩
  obtain ⟨final, hend, hfinal⟩ :=
    hblind.ends ⟨hnear.alike (.refl first) hbudget, rfl, rfl⟩ hrun
  refine ⟨outcome, final, agree_self hdelivered, hfinal.toNear, fun fuel => ?_⟩
  have hgas : outcome ≠ .error .gasExhausted := by
    rintro rfl
    exact hdelivered
  exact ((hfollows fuel).leads hend hgas (hfinal.bare_second.lacks hnames)).alike hbudget

/-- A computation on values alone. -/
theorem lifted (outcome : Except EvalError α) :
    Mirrors rel loose (fun value other => value = other) (lift outcome) fun _ => lift outcome :=
  of_blind (.lifted outcome) (fun _ => .lifted outcome) (List.forall_mem_nil _)

/-- A variable that may differ. -/
theorem read (name : String) :
    Mirrors rel loose (fun value other => value = other ∨ rel value other) (readName name)
      fun _ => readName name := by
  constructor
  intro first second outcome after hnear hrun _
  obtain ⟨rfl, rfl⟩ := lift_injective ((lift_ok _ first).trans hrun)
  refine ⟨.ok ((second.env.get? name).getD (.symbol name)), second, .value ?_, hnear, fun _ => ?_⟩
  · rw [Environment.get?_eq_column, Environment.get?_eq_column]
    rcases (hnear.columns name).findSome? with hsame | ⟨value, other, hfirst, hsecond, -, hrel⟩
    · exact .inl (by rw [hsame])
    · rw [hfirst, hsecond]
      exact .inr hrel
  · intro start hstart
    refine .inr ⟨_, start, .ok _, hstart, ?_⟩
    rw [← hstart.env]
    rfl

/-- Related values for a variable that may differ. -/
theorem assigned {name : String} (hname : name ∈ loose) {value other : Value}
    (h : rel value other) :
    Mirrors rel loose (fun _ _ => True) (modifyEnv (·.assign name value))
      fun _ => modifyEnv (·.assign name other) := by
  constructor
  intro first second outcome after hnear hrun _
  obtain ⟨rfl, rfl⟩ := lift_injective ((lift_ok () _).trans hrun)
  refine ⟨.ok (), _, .value trivial, hnear.assigned_loose hname h, fun _ start hstart => ?_⟩
  exact .inr ⟨.ok (), _, .ok (), hstart.changed (·.assign name other), rfl⟩

/-- A builtin on arguments that it takes alike. -/
theorem applied {ev : Expr → Eval Value} {more : Nat → Expr → Eval Value} (builtin : Builtin)
    {args others : List Value} {agree : Value → Value → Prop}
    (h : ∀ value, builtin.apply args = .ok value →
      ∃ other, builtin.apply others = .ok other ∧ agree value other) :
    Mirrors rel loose agree (Eval.apply ev builtin.name args)
      fun fuel => Eval.apply (more fuel) builtin.name others := by
  have happly : ∀ {ev : Expr → Eval Value} {machine : Machine} (args : List Value), machine.Bare →
      Eval.apply ev builtin.name args machine = lift (builtin.apply args) machine := by
    intro ev machine args hbare
    obtain ⟨hhost, hfunction⟩ := hbare.builtins builtin
    rw [Follows.apply_eq_callee, Follows.callee, hhost]
    simp only [hfunction, Expr.ofName?_name]
  constructor
  intro first second outcome after hnear hrun hdelivered
  obtain ⟨rfl, rfl⟩ := lift_injective ((happly args hnear.bare).symm.trans hrun)
  cases hvalue : builtin.apply args with
  | ok value =>
      obtain ⟨other, hother, hagree⟩ := h value hvalue
      refine ⟨.ok other, second, .value hagree, hnear, fun fuel start hstart => ?_⟩
      have hstarted := hnear.alike (.refl first) hstart
      refine .inr ⟨.ok other, start, .ok other, hstart, ?_⟩
      rw [happly others hstarted.bare_second, hother]
  | error error =>
      have hunreturned := (builtin.trappable_apply args).unreturned
      rw [hvalue] at hdelivered hunreturned
      cases error with
      | returned found => exact hunreturned.elim
      | _ => exact hdelivered.elim

/-- A scope.  Variables that differ only inside it have to be bound by it as
long as it is open. -/
theorem within_scope {left : Eval α} {right : Nat → Eval β} {looser : Set String}
    {bindings : List (String × Value)} (h : Mirrors rel looser agree left right)
    (hsub : loose ⊆ looser) (hbound : ∀ name ∈ bindings.map Prod.fst, name ∉ loose)
    (hclosed : ∀ {before : Machine} {outcome after}, left before = lift outcome after →
      (∃ outer, before.env = Environment.under outer (.ofList bindings)) →
        ∀ name ∈ looser, name ∈ loose ∨
          ∃ value outer, after.env.column name = some value :: outer ∧ outer ≠ []) :
    Mirrors rel loose agree (inScope bindings left) fun fuel => inScope bindings (right fuel) := by
  constructor
  intro first second outcome after hnear hrun hdelivered
  obtain ⟨inner, last, hinner⟩ := exists_eq_lift
    (left { first with env := first.env.push.defineAll bindings })
  obtain ⟨rfl, rfl⟩ := lift_injective ((inScope_eq hinner).symm.trans hrun)
  obtain ⟨seen, final, hagree, hfinal, hleads⟩ :=
    h.ends ((hnear.opened hbound).loosened hsub) hinner hdelivered
  have houter := hclosed hinner ⟨first.env, Environment.push_defineAll first.env bindings⟩
  exact ⟨seen, _, hagree, hfinal.closed houter, fun fuel => (hleads fuel).within⟩

theorem within {left : Eval α} {right : Nat → Eval β} {bindings : List (String × Value)}
    (h : Mirrors rel loose agree left right)
    (hbound : ∀ name ∈ bindings.map Prod.fst, name ∉ loose) :
    Mirrors rel loose agree (inScope bindings left) fun fuel => inScope bindings (right fuel) :=
  h.within_scope (Set.Subset.refl _) hbound fun _ _ _ hname => .inl hname

theorem caught {left : Eval Value} {right : Nat → Eval Value} {agree : Value → Value → Prop}
    (h : Mirrors rel loose agree left right) (hagree : ∀ value, agree value value) :
    Mirrors rel loose agree (catchReturn left) fun fuel => catchReturn (right fuel) := by
  constructor
  intro first second outcome after hnear hrun hdelivered
  obtain ⟨inner, last, hinner⟩ := exists_eq_lift (left first)
  obtain ⟨rfl, rfl⟩ := lift_injective ((catchReturn_eq hinner).symm.trans hrun)
  have hbefore : Delivered inner := by
    cases inner with
    | ok => trivial
    | error error =>
        cases error with
        | returned => trivial
        | _ => exact hdelivered
  obtain ⟨seen, final, hboth, hfinal, hleads⟩ := h.ends hnear hinner hbefore
  cases hboth with
  | @value found other hvalues =>
      exact ⟨.ok other, final, .value hvalues, hfinal, fun fuel => (hleads fuel).caught rfl⟩
  | returned found =>
      exact ⟨.ok found, final, .value (hagree found), hfinal, fun fuel => (hleads fuel).caught rfl⟩

theorem of_step {agree : Value → Value → Prop} {e other : Expr}
    (h : ∀ fuel, Mirrors rel loose agree (Eval.step (Expr.evalWithin fuel) e)
      fun fuel => Eval.step (Expr.evalWithin fuel) other) (fuel : Nat) :
    Mirrors rel loose agree (e.evalWithin fuel) fun fuel => other.evalWithin fuel := by
  constructor
  intro first second outcome after hnear hrun hdelivered
  have hgas : outcome ≠ .error .gasExhausted := by
    rintro rfl
    exact hdelivered
  obtain ⟨rest, hstep⟩ := Follows.exists_step hrun hgas
  have hcounted : first.Alike { first with gas := first.gas + 1 } := ⟨rfl, rfl, rfl⟩
  obtain ⟨seen, final, hagree, hfinal, hleads⟩ :=
    (h rest).ends (hnear.alike hcounted (.refl second)) hstep hdelivered
  refine ⟨seen, final, hagree, hfinal, fun fuel => ?_⟩
  cases fuel with
  | zero => exact fun start _ => .inl ⟨_, Follows.evalWithin_zero _ start⟩
  | succ fuel => exact (hleads fuel).ticked

end Mirrors

end Eval

/-- Nothing is restricted. -/
def Policy.free : Policy := ⟨Set.univ, Set.univ, Set.univ, True⟩

namespace Expr

open Eval Machine

theorem obeys_free (e : Expr) : e.Obeys .free Set.univ := by
  induction e using Expr.ofParts with
  | hstep e ih =>
    cases e with
    | call name args => exact .node (fun _ => trivial) ih
    | binary op left right =>
        cases op with
        | define => exact .define (fun _ _ _ => trivial) (ih right (by simp [children]))
        | assign =>
            refine .node ?_ ih
            unfold Policy.Permits
            split <;> first | trivial | next heq => cases heq
        | _ => exact .node trivial ih
    | _ => exact .node trivial ih

theorem governs_free (machine : Machine) : Policy.free.Governs machine :=
  ⟨fun _ function _ => ⟨trivial, function.body.obeys_free⟩, fun _ _ _ => ⟨trivial, .inl trivial⟩⟩

/-- Scopes bind what they bound, however an evaluation ends. -/
theorem changes_of_evalWithin {fuel : Nat} {e : Expr} {before after : Machine}
    {outcome : Except EvalError Value} (h : e.evalWithin fuel before = lift outcome after) :
    before.env.Changes Set.univ after.env := by
  have hkeeps : Keeps.Any .free Set.univ (e.evalWithin fuel) :=
    Keeps.evalWithin fuel (Set.Subset.refl _) e.obeys_free
  exact (hkeeps.ends (governs_free before) h).1.changes

/-- Scopes bind what they bound, however statements end. -/
theorem changes_of_sequence {fuel : Nat} {items : List Expr} {last : Value}
    {before after : Machine} {outcome : Except EvalError Value}
    (h : Eval.sequence (evalWithin fuel) last items before = lift outcome after) :
    before.env.Changes Set.univ after.env := by
  have hkeeps : Keeps.Any .free Set.univ (Eval.sequence (evalWithin fuel) last items) :=
    Keeps.sequence (fun e _ => Keeps.evalWithin fuel (Set.Subset.refl _) e.obeys_free) last
  exact (hkeeps.ends (governs_free before) h).1.changes

variable {rel : Value → Value → Prop} {loose : Set String} {agree : Value → Value → Prop}

/-- Code that mirrors other code, whatever fuel both have. -/
def Mirrors (rel : Value → Value → Prop) (loose : Set String) (agree : Value → Value → Prop)
    (e other : Expr) : Prop :=
  ∀ fuel, Eval.Mirrors rel loose agree (e.evalWithin fuel) fun fuel => other.evalWithin fuel

/-- Code that mirrors other code and has the same values. -/
abbrev MirrorsExactly (rel : Value → Value → Prop) (loose : Set String) (e other : Expr) : Prop :=
  Mirrors rel loose (fun value found => value = found) e other

theorem Mirrors.mono {e other : Expr} {weaker : Value → Value → Prop}
    (h : Mirrors rel loose agree e other)
    (himp : ∀ value found, agree value found → weaker value found) :
    Mirrors rel loose weaker e other :=
  fun fuel => (h fuel).mono himp

theorem MirrorsExactly.weaken {e other : Expr} (h : MirrorsExactly rel loose e other)
    (hagree : ∀ value, agree value value) : Mirrors rel loose agree e other :=
  h.mono fun value _ heq => heq ▸ hagree value

theorem mirrors_str (text : String) :
    Mirrors rel loose (fun value found => value = .str text ∧ found = .str text) (.str text)
      (.str text) := by
  apply Eval.Mirrors.of_step
  intro fuel
  exact .value ⟨rfl, rfl⟩

/-- Statements one after the other. -/
theorem mirrors_sequence {items others : List Expr}
    (h : List.Forall₂ (Mirrors rel loose fun _ _ => True) items others) {e other : Expr}
    (he : Mirrors rel loose agree e other) (fuel : Nat) (last found : Value) :
    Eval.Mirrors rel loose agree (Eval.sequence (evalWithin fuel) last (items ++ [e]))
      fun fuel => Eval.sequence (evalWithin fuel) found (others ++ [other]) := by
  induction h generalizing last found with
  | nil => exact (he fuel).bind fun value seen hagree => .value hagree
  | cons hfirst _ ih => exact (hfirst fuel).bind fun value seen _ => ih value seen

theorem mirrors_group {items others : List Expr}
    (h : List.Forall₂ (Mirrors rel loose fun _ _ => True) items others) {e other : Expr}
    (he : Mirrors rel loose agree e other) :
    Mirrors rel loose agree (.group (items ++ [e])) (.group (others ++ [other])) := by
  apply Eval.Mirrors.of_step
  intro fuel
  exact mirrors_sequence h he fuel _ _

theorem mirrors_cond {branches others : List (Expr × Expr)} {e other : Expr}
    (h : List.Forall₂ (fun branch found => MirrorsExactly rel loose branch.1 found.1 ∧
      Mirrors rel loose agree branch.2 found.2) branches others)
    (he : Mirrors rel loose agree e other) :
    Mirrors rel loose agree (.cond branches (some e)) (.cond others (some other)) := by
  apply Eval.Mirrors.of_step
  intro fuel
  change Eval.Mirrors rel loose agree (Eval.branches (evalWithin fuel) (some e) branches)
    fun fuel => Eval.branches (evalWithin fuel) (some other) others
  induction h with
  | nil => exact he fuel
  | @cons branch found rest more hbranch _ ih =>
      have htest : Eval.Mirrors rel loose (fun truth seen => truth = seen)
          (Eval.condition (evalWithin fuel) branch.1)
          fun fuel => Eval.condition (evalWithin fuel) found.1 := by
        apply (hbranch.1 fuel).bind
        rintro value _ rfl
        cases value with
        | bool truth => exact .value rfl
        | _ => exact Eval.Mirrors.failed (fun _ => EvalError.noConfusion) _
      apply htest.bind
      rintro truth _ rfl
      cases truth with
      | true => exact hbranch.2 fuel
      | false => exact ih

/-- Declarations that bind the same name to the same value. -/
inductive SameLocal (rel : Value → Value → Prop) (loose : Set String) : Expr → Expr → Prop where
  | plain {name : String} (hname : name ∉ loose) : SameLocal rel loose (.ident name) (.ident name)
  | start {name : String} (hname : name ∉ loose) {right other : Expr}
      (h : MirrorsExactly rel loose right other) :
      SameLocal rel loose (.assign name right) (.assign name other)

theorem SameLocal.declared {declarations others : List Expr}
    (h : List.Forall₂ (SameLocal rel loose) declarations others) :
    ∀ name ∈ declarations.filterMap declaredName?, name ∉ loose := by
  induction h with
  | nil => exact List.forall_mem_nil _
  | cons hfirst _ ih =>
      cases hfirst with
      | plain hname | start hname => exact List.forall_mem_cons.mpr ⟨hname, ih⟩

theorem mirrors_locals {declarations others : List Expr}
    (h : List.Forall₂ (SameLocal rel loose) declarations others) (fuel : Nat) :
    Eval.Mirrors rel loose (fun bindings found => bindings = found ∧
        bindings.map Prod.fst = declarations.filterMap declaredName?)
      (Eval.locals (evalWithin fuel) declarations)
      fun fuel => Eval.locals (evalWithin fuel) others := by
  induction h with
  | nil => exact .value ⟨rfl, rfl⟩
  | cons hfirst _ ih =>
      cases hfirst with
      | @plain name =>
          apply ih.bind
          rintro bindings _ ⟨rfl, hnames⟩
          exact .value ⟨rfl, congrArg (name :: ·) hnames⟩
      | @start name hname right other hright =>
          apply (hright fuel).bind
          rintro value _ rfl
          apply ih.bind
          rintro bindings _ ⟨rfl, hnames⟩
          exact .value ⟨rfl, congrArg (name :: ·) hnames⟩

/-- A block, inside of which its own locals may differ. -/
theorem mirrors_block {looser : Set String} {declarations others body more : List Expr}
    (hlocals : List.Forall₂ (SameLocal rel loose) declarations others) (hsub : loose ⊆ looser)
    (hlooser : ∀ name ∈ looser, name ∈ loose ∨ name ∈ declared declarations)
    (hagree : ∀ value, agree value value)
    (hbody : ∀ fuel, Eval.Mirrors rel looser agree
      (Eval.sequence (evalWithin fuel) (.bool false) body)
      fun fuel => Eval.sequence (evalWithin fuel) (.bool false) more) :
    Mirrors rel loose agree (.block declarations body) (.block others more) := by
  apply Eval.Mirrors.of_step
  intro fuel
  apply (mirrors_locals hlocals fuel).bind
  rintro bindings _ ⟨rfl, hnames⟩
  apply Eval.Mirrors.caught _ hagree
  apply (hbody fuel).within_scope hsub
  · rw [hnames]
    exact SameLocal.declared hlocals
  · rintro before outcome after hrun ⟨outer, henv⟩ name hname
    refine (hlooser name hname).imp_right fun hdeclared => ?_
    rw [declared, ← hnames] at hdeclared
    obtain ⟨value, hvalue⟩ := Option.isSome_iff_exists.mp (NameMap.contains_ofList.mpr hdeclared)
    have hchanged := (changes_of_sequence hrun name).1
    rw [henv, Environment.column_under, hvalue] at hchanged
    obtain ⟨found, hcolumn⟩ := hchanged.of_bound
    exact ⟨found, _, hcolumn, fun hnil => by simpa [hnil] using outer.length_column name⟩

theorem mirrors_list {items others : List Expr} {agrees : List Value → List Value → Prop}
    (hagree : ∀ values found, agrees values found → agree (.list values) (.list found))
    (h : ∀ fuel, Eval.Mirrors rel loose agrees (Eval.all (evalWithin fuel) items)
      fun fuel => Eval.all (evalWithin fuel) others) :
    Mirrors rel loose agree (.list items) (.list others) := by
  apply Eval.Mirrors.of_step
  intro fuel
  exact (h fuel).bind fun values found hvalues => .value (hagree values found hvalues)

theorem mirrors_all_nil (fuel : Nat) :
    Eval.Mirrors rel loose (fun values found => values = [] ∧ found = [])
      (Eval.all (evalWithin fuel) []) fun fuel => Eval.all (evalWithin fuel) [] :=
  .value ⟨rfl, rfl⟩

theorem mirrors_all_cons {fuel : Nat} {e other : Expr} {items others : List Expr}
    {agrees : List Value → List Value → Prop} (he : Mirrors rel loose agree e other)
    (h : Eval.Mirrors rel loose agrees (Eval.all (evalWithin fuel) items)
      fun fuel => Eval.all (evalWithin fuel) others) :
    Eval.Mirrors rel loose (fun values found => ∃ value rest other more, values = value :: rest ∧
        found = other :: more ∧ agree value other ∧ agrees rest more)
      (Eval.all (evalWithin fuel) (e :: items))
      fun fuel => Eval.all (evalWithin fuel) (other :: others) := by
  apply (he fuel).bind
  intro value other hvalue
  apply h.bind
  intro rest more hrest
  exact .value ⟨value, rest, other, more, rfl, rfl, hvalue, hrest⟩

/-- A counting loop over the same numbers. -/
theorem mirrors_forRange {var : String} (hvar : var ∉ loose) {first last low high : Expr}
    {body other : Expr} (hfirst : MirrorsExactly rel loose first low)
    (hlast : MirrorsExactly rel loose last high)
    (hbody : Mirrors rel loose (fun _ _ => True) body other) :
    Mirrors rel loose (fun _ _ => True) (.forRange var first none last body)
      (.forRange var low none high other) := by
  apply Eval.Mirrors.of_step
  intro fuel
  have hrange : Eval.Mirrors rel loose (fun values found => values = found)
      (rangeOf (evalWithin fuel) first none last)
      fun fuel => rangeOf (evalWithin fuel) low none high := by
    apply (hfirst fuel).bind
    rintro start _ rfl
    apply (hlast fuel).bind
    rintro stop _ rfl
    exact .lifted (Value.range start (.int 1) stop)
  apply hrange.bind
  rintro values _ rfl
  have hrounds : Eval.Mirrors rel loose (fun _ _ => True)
      (Eval.forEach (evalWithin fuel) var body values)
      fun fuel => Eval.forEach (evalWithin fuel) var other values := by
    induction values with
    | nil => exact .value trivial
    | cons value rest ih =>
        have hbound : Eval.Mirrors rel loose (fun done found => done = found)
            (modifyEnv (·.define var value)) fun _ => modifyEnv (·.define var value) := by
          apply Eval.Mirrors.of_blind (.modified fun hnear => hnear.defined hvar value)
            fun _ => .modified _
          exact List.forall_mem_nil _
        exact hbound.bind fun _ _ _ => (hbody fuel).bind fun _ _ _ => ih
  exact (hrounds.within (List.forall_mem_nil _)).bind fun _ _ _ => .value trivial

end Expr

end SceneQuiz
