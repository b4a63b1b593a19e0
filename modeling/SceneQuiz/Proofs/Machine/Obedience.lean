import Mathlib.Data.List.Forall2
import SceneQuiz.Proofs.Machine.Policy
/-!
Evaluation of code that obeys a policy keeps to it.  Each construct has a rule
that says so if its parts do; the step lemma collects the rules, and induction
on the fuel gives whole evaluations.
-/

namespace SceneQuiz

namespace Eval

open Policy

variable {policy : Policy} {written : Set String}

namespace Keeps

variable {ev : Expr → Eval Value}

/-- Any value will do. -/
abbrev Any (policy : Policy) (written : Set String) {α : Type} (run : Eval α) : Prop :=
  Keeps policy written (fun _ => True) run

theorem all (good : Expr → Value → Prop) {items : List Expr}
    (h : ∀ e ∈ items, Keeps policy written (good e) (ev e)) :
    Keeps policy written (List.Forall₂ good items) (Eval.all ev items) := by
  induction items with
  | nil => exact value .nil
  | cons e rest ih =>
      rw [List.forall_mem_cons] at h
      apply h.1.bind
      intro first hfirst
      apply (ih h.2).bind
      intro values hvalues
      exact value (.cons hfirst hvalues)

theorem inherited : Inherited fun {_} run => Any policy written run where
  lifted h := lifted (allows_of_unreturned h.unreturned)
  bind h hnext := h.bind fun value _ => hnext value
  trapped := trapped

theorem sequence {items : List Expr} (h : ∀ e ∈ items, Any policy written (ev e))
    (last : Value) : Any policy written (Eval.sequence ev last items) :=
  inherited.sequence h last

theorem branches {good : Value → Prop} {tests : List (Expr × Expr)} {otherwise : Option Expr}
    (h : ∀ branch ∈ tests, Any policy written (ev branch.1) ∧
      Keeps policy written good (ev branch.2))
    (hlast : ∀ body ∈ otherwise, Keeps policy written good (ev body))
    (hnone : otherwise = none → good (.bool false)) :
    Keeps policy written good (Eval.branches ev otherwise tests) := by
  induction tests with
  | nil =>
      cases otherwise with
      | some body => exact hlast body rfl
      | none => exact value (hnone rfl)
  | cons branch rest ih =>
      rw [List.forall_mem_cons] at h
      have htest : Any policy written (Eval.condition ev branch.1) := inherited.condition h.1.1
      apply htest.bind
      intro truth _
      cases truth with
      | true => exact h.1.2
      | false => exact ih h.2

/-- The rounds of a loop bind its variable in the scope of the loop; outside of
it they do what the body may do there. -/
theorem forEach {var : String} {body : Expr} (h : Any policy (insert var written) (ev body))
    {values : List Value} {before after : Machine} {outcome : Except EvalError Unit}
    {env : Environment} {scope : Scope} (henv : before.env = env.under scope)
    (hgoverns : policy.Governs before)
    (hrun : Eval.forEach ev var body values before = lift outcome after) :
    policy.Kept written { before with env := env } { after with env := after.env.pop } ∧
      policy.Allows (fun _ => True) outcome := by
  induction values generalizing before env scope with
  | nil =>
      obtain ⟨rfl, rfl⟩ := lift_injective ((lift_ok () _).trans hrun)
      rw [henv]
      exact ⟨⟨hgoverns.changed rfl rfl, .refl env⟩, trivial⟩
  | cons value rest ih =>
      let bound : Machine := { before with env := before.env.define var value }
      have hbound : bound.env = env.under (scope.insert var value) := by
        change before.env.define var value = _
        rw [henv]
        rfl
      have hround : (ev body >>= fun _ => Eval.forEach ev var body rest) bound =
          lift outcome after := hrun
      have hinside : policy.Governs bound := hgoverns.changed rfl rfl
      have hscope : ∀ name ∈ insert var written,
          name ∈ written ∨ (scope.insert var value).contains name = true := by
        intro name hname
        by_cases heq : name = var
        · right
          rw [heq]
          exact NameMap.contains_insert_self var value scope
        · exact .inl (Set.mem_of_mem_insert_of_ne hname heq)
      rcases bind_cases hround with ⟨result, middle, hbody, hrest⟩ | ⟨error, hbody, rfl⟩
      · obtain ⟨hkept, -⟩ := h.ends hinside (hbody.trans (lift_ok result middle).symm)
        have hchanges := hkept.changes
        rw [hbound] at hchanges
        obtain ⟨outer, inner, hmiddle, houter⟩ := hchanges.exists_under hscope
        obtain ⟨hothers, hallows⟩ := ih hmiddle hkept.governs hrest
        exact ⟨⟨hothers.governs, houter.trans hothers.changes⟩, hallows⟩
      · obtain ⟨hkept, hallows⟩ := h.ends hinside (hbody.trans (lift_error error after).symm)
        have hchanges := hkept.changes
        rw [hbound] at hchanges
        exact ⟨⟨hkept.governs.changed rfl rfl, hchanges.pop hscope⟩, hallows.error⟩

theorem loop {var : String} {body : Expr} (h : Any policy (insert var written) (ev body))
    (values : List Value) : Any policy written (Eval.loop ev var body values) := by
  have hrounds : Any policy written (inScope [] (Eval.forEach ev var body values)) := by
    constructor
    intro before outcome after hgoverns hrun
    obtain ⟨inner, last, hinner⟩ := exists_eq_lift
      (Eval.forEach ev var body values { before with env := before.env.push.defineAll [] })
    obtain ⟨rfl, rfl⟩ := lift_injective ((inScope_eq hinner).symm.trans hrun)
    have hinside : policy.Governs { before with env := before.env.push.defineAll [] } :=
      hgoverns.changed rfl rfl
    have hrounds := forEach h (rfl : _ = before.env.under .empty) hinside hinner
    exact hrounds
  exact hrounds.bind fun _ _ => value trivial

/-- The locals of a block are the names it declares, each with the value it
starts with. -/
theorem locals (good : String → Value → Prop) {declarations : List Expr}
    (hplain : ∀ name, .ident name ∈ declarations → good name (.symbol name))
    (h : ∀ name right, .binary .assign (.ident name) right ∈ declarations →
      Keeps policy written (good name) (ev right)) :
    Keeps policy written
      (fun bindings => (∀ name ∈ Expr.declared declarations, name ∈ bindings.map Prod.fst) ∧
        ∀ binding ∈ bindings, good binding.1 binding.2)
      (Eval.locals ev declarations) := by
  induction declarations with
  | nil => exact value ⟨by simp [Expr.declared], List.forall_mem_nil _⟩
  | cons e rest ih =>
      have hrest := ih (fun name hmem => hplain name (List.mem_cons_of_mem e hmem))
        fun name right hmem => h name right (List.mem_cons_of_mem e hmem)
      by_cases hlocal : e.isLocal = true
      · rcases Expr.exists_of_isLocal hlocal with ⟨name, rfl⟩ | ⟨name, right, rfl⟩
        · apply hrest.bind
          rintro bindings ⟨hbound, hgood⟩
          refine value ⟨fun other hother => ?_,
            List.forall_mem_cons.mpr ⟨hplain name List.mem_cons_self, hgood⟩⟩
          by_cases heq : other = name
          · simp [heq]
          · apply List.mem_cons_of_mem
            apply hbound
            simpa [Expr.declared, Expr.declaredName?, Expr.parameterName?, heq] using hother
        · apply (h name right List.mem_cons_self).bind
          intro start hstart
          apply hrest.bind
          rintro bindings ⟨hbound, hgood⟩
          refine value ⟨fun other hother => ?_, List.forall_mem_cons.mpr ⟨hstart, hgood⟩⟩
          by_cases heq : other = name
          · simp [heq]
          · apply List.mem_cons_of_mem
            apply hbound
            simpa [Expr.declared, Expr.declaredName?, Expr.asIdent?, heq] using hother
      · rw [Bool.not_eq_true] at hlocal
        obtain ⟨cause, hrefused⟩ := Follows.locals_refused hlocal rest
        rw [hrefused]
        exact failed trivial

/-- Code that obeys is evaluated under the policy, where functions may assign
no more than the code itself. -/
def Trusts (policy : Policy) (ev : Expr → Eval Value) : Prop :=
  ∀ {written : Set String} {e : Expr}, policy.writes ⊆ written → e.Obeys policy written →
    Any policy written (ev e)

variable (htrusts : Trusts policy ev) (hsub : policy.writes ⊆ written)

include htrusts hsub

theorem block {args : List Expr} (h : (Expr.call "block" args).Obeys policy written) :
    Any policy written (Eval.block ev args) := by
  cases args with
  | nil => exact value trivial
  | cons e rest =>
      by_cases hlist : ∃ declarations, e = .list declarations
      · obtain ⟨declarations, rfl⟩ := hlist
        obtain ⟨hvalues, hbody⟩ := h.of_block
        have hstarts : ∀ name right, .binary .assign (.ident name) right ∈ declarations →
            Any policy written (ev right) := fun name right hmem =>
          htrusts hsub (hvalues _ right hmem)
        apply (locals (fun _ _ => True) (fun _ _ => trivial) hstarts).bind
        rintro bindings ⟨hbindings, -⟩
        have hinside : policy.writes ⊆ written ∪ Expr.declared declarations :=
          hsub.trans Set.subset_union_left
        have hsequence := sequence (fun part hpart => htrusts hinside (hbody part hpart))
          (.bool false)
        apply caught _ fun _ _ => trivial
        exact hsequence.within fun name hname => hname.imp_right (hbindings name)
      · have hbare : ∀ items, e ≠ .list items := fun items heq => hlist ⟨items, heq⟩
        obtain ⟨-, hparts⟩ := h.of_node rfl (by simpa using hbare) nofun nofun
        rw [Follows.block_bare hbare]
        apply caught _ fun _ _ => trivial
        exact (sequence (fun part hpart => htrusts hsub (hparts part hpart)) _).within
          fun name hname => .inl hname

theorem apply (name : String) (args : List Value) :
    Any policy written (Eval.apply ev name args) := by
  apply of_looks
  intro machine hgoverns
  refine ⟨Follows.callee ev name args machine, ?_, Follows.apply_eq_callee name args machine⟩
  unfold Follows.callee
  cases hhost : machine.hosts.get? name with
  | some host =>
      rcases (hgoverns.hosts name host hhost).2 with hreturns | hunreturned
      · dsimp only
        apply lifted
        cases host args with
        | ok found => trivial
        | error error =>
            cases error with
            | returned => exact hreturns
            | _ => trivial
      · exact lifted (allows_of_unreturned (hunreturned args))
  | none =>
      cases hfunction : machine.functions.get? name with
      | some function =>
          have hbody := (hgoverns.functions name function hfunction).2
          dsimp only
          unfold applyClosure
          split
          · exact (htrusts hsub (hbody.mono hsub)).within fun name hname => .inl hname
          · exact failed trivial
      | none =>
          cases Builtin.ofName? name with
          | some builtin =>
              exact lifted (allows_of_unreturned (builtin.trappable_apply args).unreturned)
          | none => exact failed trivial

theorem leave {args : List Expr} (h : (Expr.call "return" args).Obeys policy written) :
    Any policy written (Eval.leave ev args) := by
  obtain ⟨hhere, hparts⟩ := h.of_node rfl (by simp) nofun nofun
  apply inherited.leave fun _ => failed (hhere rfl)
  exact fun e he => htrusts hsub (hparts e he)

theorem assignment {target source : Expr}
    (h : (Expr.binary .assign target source).Obeys policy written) :
    Any policy written (Eval.assignment ev target source) := by
  obtain ⟨hhere, hparts⟩ := h.of_node rfl nofun nofun nofun
  rw [Expr.forall_children_two rfl] at hparts
  unfold Eval.assignment
  split
  · exact (htrusts hsub hparts.2).bind fun _ _ => (assigned hhere _).bind fun _ _ => value trivial
  · exact failed trivial

omit htrusts hsub in
theorem definition {target body : Expr}
    (h : (Expr.binary .define target body).Obeys policy written) :
    Any policy written (Eval.definition target body) := by
  cases h with
  | node hhere => exact hhere.elim
  | define hname hbody =>
      unfold Eval.definition
      split
      · next name params =>
          apply (lifted (allows_of_unreturned (trappable_paramNames params).unreturned)).bind
          intro names _
          exact (defined (hname name params rfl) hbody).bind fun _ _ => value trivial
      · exact failed trivial

/-- One level of evaluation keeps to the policy if the parts do. -/
theorem step {e : Expr} (h : e.Obeys policy written) :
    Any policy written (Eval.step ev e) := by
  by_cases hroutine : e.isRoutine = true
  · have hparts := h.of_routine hroutine
    exact inherited.routine hroutine (fun part hpart => htrusts hsub (hparts part hpart))
      (apply htrusts hsub)
  have hinside : ∀ var, policy.writes ⊆ insert var written := fun var =>
    hsub.trans (Set.subset_insert var written)
  cases e with
  | ident name => exact read (fun _ => trivial) name
  | quote => exact value trivial
  | call name args =>
      by_cases hblock : name = "block"
      · subst hblock
        exact block htrusts hsub h
      · have hreturn : name = "return" := by simpa [Expr.isRoutine, hblock] using hroutine
        subst hreturn
        exact leave htrusts hsub h
  | binary op left right =>
      cases op with
      | assign => exact assignment htrusts hsub h
      | define => exact definition h
      | _ => exact absurd rfl hroutine
  | forIn var source body =>
      obtain ⟨hsource, hbody⟩ := h.of_forIn
      apply Keeps.bind (inherited.members (htrusts hsub hsource))
      exact fun values _ => loop (htrusts (hinside var) hbody) values
  | forRange var first step last body =>
      obtain ⟨hfirst, hstep, hlast, hbody⟩ := h.of_forRange
      apply Keeps.bind (inherited.rangeOf (htrusts hsub hfirst)
        (fun width hwidth => htrusts hsub (hstep width hwidth)) (htrusts hsub hlast))
      exact fun values _ => loop (htrusts (hinside var) hbody) values
  | _ => exact absurd rfl hroutine

omit htrusts hsub

/-- Evaluation keeps to what its first level keeps to under any fuel. -/
theorem of_step {good : Value → Prop} {e : Expr}
    (h : ∀ fuel, Keeps policy written good (Eval.step (Expr.evalWithin fuel) e)) (fuel : Nat) :
    Keeps policy written good (e.evalWithin fuel) := by
  cases fuel with
  | zero =>
      have hspent : policy.Allows good (.error .gasExhausted) := trivial
      exact (failed hspent).ticked
  | succ fuel => exact (h fuel).ticked

/-- Whole evaluations keep to the policy, by induction on the fuel. -/
theorem evalWithin (fuel : Nat) : Trusts policy (Expr.evalWithin fuel) := by
  induction fuel with
  | zero =>
      intro written e _ _
      have hspent : policy.Allows (fun _ : Value => True) (.error .gasExhausted) := trivial
      exact (failed hspent).ticked
  | succ fuel ih =>
      intro written e hsub h
      exact (step ih hsub h).ticked

end Keeps

end Eval

end SceneQuiz
