import SceneQuiz.Proofs.Machine.Mirroring
import SceneQuiz.Proofs.Page.Completion
import SceneQuiz.Proofs.Template.Concatenation
import SceneQuiz.Proofs.Template.EmittedForm
/-!
What an item contributes to a tagged list.  Merging replaces an item by those of
the list it is tagged as itself, joins neighbouring texts and drops empty ones.
The list then has other items than before, but rendered one after the other
they give the same.
-/

namespace SceneQuiz

namespace Concat

open SceneQuiz.Expr Eval Machine Value

/-- Evaluated one after the other from a machine like `before`, expressions give
`outcome`, their values or a `return`, and leave a machine like `after`, under
any budget that suffices. -/
inductive Gathers :
    Machine → List Expr → Except EvalError (List Value) → Machine → Prop where
  | nil {before after : Machine} (halike : before.Alike after) : Gathers before [] (.ok []) after
  | cons {before middle after : Machine} {e : Expr} {rest : List Expr} {value : Value}
      {outcome : Except EvalError (List Value)}
      (hhead : ∀ fuel, (e.evalWithin fuel).Leads before (.ok value) middle)
      (hrest : Gathers middle rest outcome after) :
      Gathers before (e :: rest) (outcome.map (value :: ·)) after
  | stop {before after : Machine} {e : Expr} {rest : List Expr} {value : Value}
      (hhead : ∀ fuel, (e.evalWithin fuel).Leads before (.error (.returned value)) after) :
      Gathers before (e :: rest) (.error (.returned value)) after

namespace Gathers

variable {before middle after : Machine} {items others : List Expr}
  {outcome : Except EvalError (List Value)}

theorem alike (h : Gathers middle items outcome after) (halike : before.Alike middle) :
    Gathers before items outcome after := by
  cases h with
  | nil hnil => exact .nil (halike.trans hnil)
  | cons hhead hrest => exact .cons (fun fuel => (hhead fuel).alike halike) hrest
  | stop hhead => exact .stop fun fuel => (hhead fuel).alike halike

/-- Going on after some values. -/
theorem append {values : List Value} (h : Gathers before items (.ok values) middle)
    (hothers : Gathers middle others outcome after) :
    Gathers before (items ++ others) (outcome.map (values ++ ·)) after := by
  generalize hfirst : Except.ok values = first at h
  induction h generalizing values with
  | nil halike =>
      cases hfirst
      have hsame : outcome.map ([] ++ ·) = outcome := by cases outcome <;> rfl
      rw [hsame]
      exact hothers.alike halike
  | @cons _ _ _ _ _ value rest hhead _ ih =>
      cases rest with
      | error => cases hfirst
      | ok found =>
          cases hfirst
          have hboth : outcome.map ((value :: found) ++ ·) =
              (outcome.map (found ++ ·)).map (value :: ·) := by
            cases outcome <;> rfl
          rw [hboth]
          exact .cons hhead (ih hothers rfl)
  | stop => cases hfirst

theorem append_returned {value : Value} (h : Gathers before items (.error (.returned value)) after)
    (others : List Expr) : Gathers before (items ++ others) (.error (.returned value)) after := by
  generalize hfirst : Except.error (EvalError.returned value) = first at h
  induction h with
  | nil => cases hfirst
  | @cons _ _ _ _ _ found rest hhead _ ih =>
      cases rest with
      | ok => cases hfirst
      | error error =>
          cases hfirst
          exact .cons hhead (ih rfl)
  | stop hhead =>
      cases hfirst
      exact .stop hhead

/-- A literal text is its own value. -/
theorem of_literal {text : String} (h : Gathers before (.str text :: items) outcome after) :
    ∃ rest, Gathers before items rest after ∧ outcome = rest.map (.str text :: ·) := by
  have hrun : (Expr.str text).evalWithin 1 { before with gas := 0, limit := 1 } =
      .ok (.str text) { before with gas := 1, limit := 1 } := rfl
  have hstart : before.Alike { before with gas := 0, limit := 1 } := ⟨rfl, rfl, rfl⟩
  cases h with
  | @cons _ middle _ _ _ value rest hhead hrest =>
      rcases hhead 1 _ hstart with ⟨spent, hspent⟩ | ⟨_, final, ⟨⟩, hfinal, hend⟩
      · cases hrun.symm.trans hspent
      · cases hrun.symm.trans hend
        have hspent : before.Alike { before with gas := 1, limit := 1 } := ⟨rfl, rfl, rfl⟩
        exact ⟨rest, hrest.alike (hspent.trans hfinal.symm), rfl⟩
  | stop hhead =>
      rcases hhead 1 _ hstart with ⟨spent, hspent⟩ | ⟨_, final, ⟨herror⟩, _, hend⟩
      · cases hrun.symm.trans hspent
      · cases hrun.symm.trans hend

theorem literal (text : String) (h : Gathers before items outcome after) :
    Gathers before (.str text :: items) (outcome.map (.str text :: ·)) after :=
  .cons (fun fuel => leads_literal text fuel (.refl before)) h

/-- Merging literal texts keeps what the values give one after the other. -/
theorem merge (h : Gathers before items outcome after) :
    ∃ seen, Gathers before (mergeTexts items) seen after ∧ Agree JoinAs outcome seen := by
  fun_induction mergeTexts items generalizing before outcome with
  | case1 =>
      cases h with
      | nil halike => exact ⟨.ok [], .nil halike, .value (.refl [])⟩
  | case2 rest ih =>
      obtain ⟨tail, hrest, rfl⟩ := h.of_literal
      obtain ⟨seen, hseen, hagree⟩ := ih hrest
      refine ⟨seen, hseen, ?_⟩
      cases hagree with
      | value hjoin => exact .value ((JoinAs.drop_text _).trans hjoin)
      | returned value => exact .returned value
  | case3 text rest htext more others hmerged ih =>
      obtain ⟨tail, hrest, rfl⟩ := h.of_literal
      obtain ⟨seen, hseen, hagree⟩ := ih hrest
      rw [hmerged] at hseen
      obtain ⟨last, hothers, rfl⟩ := hseen.of_literal
      refine ⟨_, hothers.literal (text ++ more), ?_⟩
      cases last with
      | ok found =>
          cases hagree with
          | value hjoin =>
              exact .value ((JoinAs.cons (.refl _) hjoin).trans (.join_texts text more found))
      | error error =>
          cases hagree with
          | returned value => exact .returned value
  | case4 text rest htext hmerged ih =>
      obtain ⟨tail, hrest, rfl⟩ := h.of_literal
      obtain ⟨seen, hseen, hagree⟩ := ih hrest
      exact ⟨_, hseen.literal text, hagree.map fun _ _ hjoin => .cons (.refl _) hjoin⟩
  | case5 e rest he ih =>
      cases h with
      | cons hhead hrest =>
          obtain ⟨seen, hseen, hagree⟩ := ih hrest
          exact ⟨_, .cons hhead hseen, hagree.map fun _ _ hjoin => .cons (.refl _) hjoin⟩
      | stop hhead => exact ⟨_, .stop hhead, .returned _⟩

theorem leads_all (h : Gathers before items outcome after) (fuel : Nat) :
    (Eval.all (evalWithin fuel) items).Leads before outcome after := by
  induction h with
  | nil halike => exact .value [] halike
  | @cons _ _ _ _ _ value rest hhead _ ih =>
      refine (hhead fuel).bind ?_
      cases rest with
      | ok values => exact ih.bind (.value _ (.refl _))
      | error error => exact ih.bind_error
  | stop hhead => exact (hhead fuel).bind_error

end Gathers

/-- Whatever a run gives, the items give the same one after the other. -/
structure Contributes {α : Type} (loose : Set String) (agree : α → List Value → Prop)
    (run : Eval α) (items : List Expr) : Prop where
  ends : ∀ {first second outcome after}, Near CollectsAs loose first second →
    run first = lift outcome after → Delivered outcome →
      ∃ seen final, Gathers second items seen final ∧ Agree agree outcome seen ∧
        Near CollectsAs loose after final

/-- A value and what is rendered in its place. -/
def Unfolds (value : Value) (values : List Value) : Prop := JoinAs [value] values

namespace Contributes

variable {α β γ : Type} {loose : Set String} {agree : α → List Value → Prop} {fuel : Nat}

/-- A value that nothing is rendered for. -/
theorem nothing {value : α} (h : agree value []) : Contributes loose agree (pure value) [] := by
  constructor
  intro first second outcome after hnear hrun _
  obtain ⟨rfl, rfl⟩ := lift_injective ((lift_ok value first).trans hrun)
  exact ⟨_, second, .nil (.refl second), .value h, hnear⟩

theorem mapped {fine : β → List Value → Prop} {run : Eval α} {items : List Expr} (change : α → β)
    (h : Contributes loose agree run items)
    (himp : ∀ value values, agree value values → fine (change value) values) :
    Contributes loose fine (do return change (← run)) items := by
  constructor
  intro first second outcome after hnear hrun hdelivered
  rcases bind_cases hrun with ⟨value, middle, hfirst, hend⟩ | ⟨error, hfirst, rfl⟩
  · obtain ⟨rfl, rfl⟩ := lift_injective ((lift_ok _ middle).trans hend)
    obtain ⟨_, final, hitems, ⟨hvalue⟩, hfinal⟩ :=
      h.ends hnear (hfirst.trans (lift_ok value middle).symm) trivial
    exact ⟨_, final, hitems, .value (himp _ _ hvalue), hfinal⟩
  · cases error with
    | returned value =>
        obtain ⟨_, final, hitems, ⟨⟩, hfinal⟩ :=
          h.ends hnear (hfirst.trans (lift_error _ _).symm) trivial
        exact ⟨_, final, hitems, .returned value, hfinal⟩
    | _ => exact hdelivered.elim

/-- Two runs, the second whatever the first gives. -/
theorem both {fine : β → List Value → Prop} {better : γ → List Value → Prop} {run : Eval α}
    {next : Eval β} {items others : List Expr} (combine : α → β → γ)
    (h : Contributes loose agree run items) (hnext : Contributes loose fine next others)
    (hboth : ∀ value values other more, agree value values → fine other more →
      better (combine value other) (values ++ more)) :
    Contributes loose better (do
      let value ← run
      let other ← next
      return combine value other) (items ++ others) := by
  constructor
  intro first second outcome after hnear hrun hdelivered
  rcases bind_cases hrun with ⟨value, middle, hfirst, hthen⟩ | ⟨error, hfirst, rfl⟩
  · obtain ⟨_, between, hitems, ⟨hvalue⟩, hbetween⟩ :=
      h.ends hnear (hfirst.trans (lift_ok value middle).symm) trivial
    rcases bind_cases hthen with ⟨other, last, hsecond, hend⟩ | ⟨error, hsecond, rfl⟩
    · obtain ⟨rfl, rfl⟩ := lift_injective ((lift_ok _ last).trans hend)
      obtain ⟨_, final, hothers, ⟨hother⟩, hfinal⟩ :=
        hnext.ends hbetween (hsecond.trans (lift_ok other last).symm) trivial
      exact ⟨_, final, hitems.append hothers, .value (hboth _ _ _ _ hvalue hother), hfinal⟩
    · cases error with
      | returned value =>
          obtain ⟨_, final, hothers, ⟨⟩, hfinal⟩ :=
            hnext.ends hbetween (hsecond.trans (lift_error _ _).symm) trivial
          exact ⟨_, final, hitems.append hothers, .returned value, hfinal⟩
      | _ => exact hdelivered.elim
  · cases error with
    | returned value =>
        obtain ⟨_, final, hitems, ⟨⟩, hfinal⟩ :=
          h.ends hnear (hfirst.trans (lift_error _ _).symm) trivial
        exact ⟨_, final, hitems.append_returned others, .returned value, hfinal⟩
    | _ => exact hdelivered.elim

/-- An item that is not taken apart. -/
theorem single {e part : Expr} (h : e.Mirrors CollectsAs loose RendersAs part) :
    Contributes loose Unfolds (e.evalWithin fuel) [part] := by
  constructor
  intro first second outcome after hnear hrun hdelivered
  obtain ⟨seen, final, hagree, hfinal, hleads⟩ := (h fuel).ends hnear hrun hdelivered
  cases hagree with
  | value hvalues =>
      exact ⟨_, final, .cons hleads (.nil (.refl final)), .value (.cons hvalues (.refl [])), hfinal⟩
  | returned value => exact ⟨_, final, .stop hleads, .returned value, hfinal⟩

/-- Items one after the other. -/
theorem all {es : List Expr} {parts : Expr → List Expr}
    (h : ∀ e ∈ es, Contributes loose Unfolds (e.evalWithin fuel) (parts e)) :
    Contributes loose JoinAs (Eval.all (evalWithin fuel) es) (es.flatMap parts) := by
  induction es with
  | nil => exact .nothing (.refl [])
  | cons e rest ih =>
      rw [List.forall_mem_cons] at h
      exact h.1.both (· :: ·) (ih h.2) fun _ _ _ _ hvalue hvalues => hvalue.append hvalues

/-- Merging literal texts. -/
theorem merge {run : Eval (List Value)} {items : List Expr}
    (h : Contributes loose JoinAs run items) : Contributes loose JoinAs run (mergeTexts items) := by
  constructor
  intro first second outcome after hnear hrun hdelivered
  obtain ⟨seen, final, hitems, hagree, hfinal⟩ := h.ends hnear hrun hdelivered
  obtain ⟨found, hmerged, hjoin⟩ := hitems.merge
  refine ⟨found, final, hmerged, ?_, hfinal⟩
  cases hagree with
  | value hvalues =>
      cases hjoin with
      | value hothers => exact .value (hvalues.trans hothers)
  | returned value =>
      cases hjoin with
      | returned => exact .returned value

theorem of_step {e : Expr} {agree : Value → List Value → Prop} {items : List Expr}
    (h : ∀ fuel, Contributes loose agree (Eval.step (evalWithin fuel) e) items) :
    Contributes loose agree (e.evalWithin fuel) items := by
  constructor
  intro first second outcome after hnear hrun hdelivered
  have hgas : outcome ≠ .error .gasExhausted := by
    rintro rfl
    exact hdelivered
  obtain ⟨rest, hstep⟩ := Follows.exists_step hrun hgas
  have hcounted : first.Alike { first with gas := first.gas + 1 } := ⟨rfl, rfl, rfl⟩
  exact (h rest).ends (hnear.alike hcounted (.refl second)) hstep hdelivered

/-- The items of a list that is tagged itself. -/
theorem tagged {es items : List Expr}
    (h : ∀ fuel, Contributes loose JoinAs (Eval.all (evalWithin fuel) es) items) :
    Contributes loose Unfolds ((Expr.list (.str rootTag :: es)).evalWithin fuel) items := by
  apply of_step
  intro fuel
  have htag : Contributes loose (fun value values => value = .str rootTag ∧ values = [])
      ((Expr.str rootTag).evalWithin fuel) [] := by
    apply of_step
    intro fuel
    exact .nothing ⟨rfl, rfl⟩
  have hall : Contributes loose (fun values others => ∃ rest, values = .str rootTag :: rest ∧
      JoinAs rest others) (Eval.all (evalWithin fuel) (.str rootTag :: es)) items := by
    apply htag.both (· :: ·) (h fuel)
    rintro _ _ rest others ⟨rfl, rfl⟩ hrest
    exact ⟨rest, rfl, hrest⟩
  apply hall.mapped Value.list
  rintro _ others ⟨rest, rfl, hrest⟩
  exact (JoinAs.of_root rest).trans hrest

theorem mirrors {run : Eval (List Value)} {items : List Expr}
    (h : Contributes loose JoinAs run items) :
    Eval.Mirrors CollectsAs loose JoinAs run fun fuel => Eval.all (evalWithin fuel) items := by
  constructor
  intro first second outcome after hnear hrun hdelivered
  obtain ⟨seen, final, hitems, hagree, hfinal⟩ := h.ends hnear hrun hdelivered
  exact ⟨seen, final, hagree, hfinal, hitems.leads_all⟩

end Contributes

end Concat

end SceneQuiz
