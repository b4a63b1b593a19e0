import SceneQuiz.Proofs.Machine.Outcome
import SceneQuiz.Proofs.Template.NormalForm
/-!
What concatenations evaluate to.  The arguments of a concatenation are read one
after the other, and the texts of their values are joined; merging literal
texts and folding long calls leave what is read as it is.

All of this needs the builtins that yield texts: it holds as long as no other
function takes one of their names.
-/

namespace SceneQuiz

namespace Concat

open Eval

/-- Evaluate expressions in order and join the texts of their values. -/
def joined (fuel : Nat) : List Expr → Eval String
  | [] => pure ""
  | e :: rest => do
      let value ← e.evalWithin fuel
      let text ← joined fuel rest
      return value.displayText ++ text

theorem joinTexts_cons (value : Value) (values : List Value) :
    Value.joinTexts "" (value :: values) =
      value.displayText ++ Value.joinTexts "" values := by
  cases values with
  | nil => simp [Value.joinTexts]
  | cons next rest =>
      simp [Value.joinTexts, String.intercalate_cons_cons]

theorem joined_eq (fuel : Nat) (items : List Expr) :
    joined fuel items = (do
      let values ← all (Expr.evalWithin fuel) items
      return Value.joinTexts "" values) := by
  induction items with
  | nil => rfl
  | cons e rest ih =>
      simp only [joined, all, ih, bind_assoc, pure_bind, joinTexts_cons]

theorem joined_append (fuel : Nat) (items others : List Expr) :
    joined fuel (items ++ others) = (do
      let first ← joined fuel items
      let second ← joined fuel others
      return first ++ second) := by
  induction items with
  | nil => simp only [List.nil_append, joined, pure_bind, String.empty_append, bind_pure]
  | cons e rest ih =>
      simp only [List.cons_append, joined, ih, bind_assoc, pure_bind,
        String.append_assoc]

theorem joined_grows {fuel : Nat} {items : List Expr} {before after : Machine}
    {outcome : Except EvalError String}
    (h : joined fuel items before = lift outcome after) : before.Extends after := by
  have hfollows : Follows [] (joined fuel items)
      (do
        let values ← all (Expr.evalWithin fuel) (items.map fun e => e)
        return Value.joinTexts "" values) := by
    rw [joined_eq]
    apply Follows.bind _ fun _ => Follows.value _
    exact Follows.compositional.all _ (fun e => e) fun e _ => Follows.refl e fuel fuel
  exact hfollows.grows h

/-- A call of a function that is no special form evaluates its arguments. -/
theorem step_call (fuel : Nat) {name : String} (hname : name ∈ textFunctions)
    (args : List Expr) :
    step (Expr.evalWithin fuel) (.call name args) = (do
      let values ← all (Expr.evalWithin fuel) args
      apply (Expr.evalWithin fuel) name values) := by
  simp only [textFunctions, List.mem_cons, List.not_mem_nil, or_false] at hname
  rcases hname with rfl | rfl | rfl | rfl <;> rfl

/-- The builtins that yield texts. -/
def textBuiltins : List Builtin := [.sconcat, .simplode, .display, .string]

theorem textFunctions_eq : textFunctions = textBuiltins.map Builtin.name := rfl

theorem apply_textBuiltin {ev : Expr → Eval Value} {builtin : Builtin}
    (hbuiltin : builtin ∈ textBuiltins) (args : List Value) {machine : Machine}
    (hlacks : machine.Lacks textFunctions) :
    apply ev builtin.name args machine = lift (builtin.apply args) machine := by
  have hname : builtin.name ∈ textFunctions := by
    rw [textFunctions_eq]
    exact List.mem_map_of_mem hbuiltin
  obtain ⟨hhost, hfunction⟩ := hlacks _ hname
  rw [Follows.apply_eq_callee, Follows.callee, hhost]
  simp only [hfunction, Expr.ofName?_name]

theorem exists_str_of_textBuiltin {builtin : Builtin}
    (hbuiltin : builtin ∈ textBuiltins) {args : List Value} {value : Value}
    (h : builtin.apply args = .ok value) : ∃ text, value = .str text := by
  simp only [textBuiltins, List.mem_cons, List.not_mem_nil, or_false] at hbuiltin
  rcases hbuiltin with rfl | rfl | rfl | rfl
  · exact ⟨_, (Except.ok.inj h).symm⟩
  · simp only [Builtin.apply] at h
    split at h
    · exact ⟨_, (Except.ok.inj h).symm⟩
    · exact ⟨_, (Except.ok.inj h).symm⟩
    · cases h
  · simp only [Builtin.apply] at h
    split at h
    · exact ⟨_, (Except.ok.inj h).symm⟩
    · cases h
  · simp only [Builtin.apply, Builtin.single] at h
    split at h
    · exact ⟨_, (Except.ok.inj h).symm⟩
    · cases h

theorem apply_follows (fuel : Nat) (name : String) (args : List Value) :
    Follows [] (apply (Expr.evalWithin fuel) name args)
      (apply (Expr.evalWithin fuel) name args) :=
  Follows.apply (fun body => Follows.refl body fuel fuel) name args

/-- What is applied last has been evaluated with the names still free. -/
theorem exists_values {fuel : Nat} {builtin : Builtin}
    (hbuiltin : builtin ∈ textBuiltins) {args : List Expr}
    {before after : Machine} {outcome : Except EvalError Value}
    (h : step (Expr.evalWithin fuel) (.call builtin.name args) before =
      lift outcome after) (hlacks : after.Lacks textFunctions) :
    (∃ values, all (Expr.evalWithin fuel) args before = .ok values after ∧
      outcome = builtin.apply values) ∨
    ∃ error, all (Expr.evalWithin fuel) args before = .error error after ∧
      outcome = .error error := by
  rw [step_call fuel (textFunctions_eq ▸ List.mem_map_of_mem hbuiltin)] at h
  rcases bind_cases h with ⟨values, middle, hvalues, happly⟩ | herror
  · have hgrows : middle.Extends after :=
      (apply_follows fuel builtin.name values).grows happly
    rw [apply_textBuiltin hbuiltin values (hgrows.lacks hlacks)] at happly
    obtain ⟨rfl, rfl⟩ := lift_injective happly
    exact Or.inl ⟨values, hvalues, rfl⟩
  · exact Or.inr herror

theorem exists_str_of_yieldsText {e : Expr} (he : yieldsText e = true) {fuel : Nat}
    {before after : Machine} {value : Value}
    (h : e.evalWithin fuel before = .ok value after)
    (hlacks : after.Lacks textFunctions) : ∃ text, value = .str text := by
  obtain ⟨rest, hstep⟩ := Follows.exists_step (h.trans (lift_ok value after).symm)
    (by simp)
  unfold yieldsText at he
  split at he
  · obtain ⟨hvalue, -⟩ := lift_injective ((lift_ok _ _).trans hstep)
    exact ⟨_, (Except.ok.inj hvalue).symm⟩
  · next name args =>
      have hname : name ∈ textFunctions := of_decide_eq_true he
      rw [textFunctions_eq] at hname
      obtain ⟨builtin, hbuiltin, rfl⟩ := List.mem_map.mp hname
      rcases exists_values hbuiltin hstep hlacks with
        ⟨values, -, hvalue⟩ | ⟨error, -, hbad⟩
      · exact exists_str_of_textBuiltin hbuiltin hvalue.symm
      · cases hbad
  · cases he

/-- The run of a concatenation is that of its joined arguments. -/
theorem step_sconcat {fuel : Nat} {args : List Expr} {before after : Machine}
    {outcome : Except EvalError String}
    (h : joined fuel args before = lift outcome after)
    (hlacks : ∀ text, outcome = .ok text → after.Lacks textFunctions) :
    step (Expr.evalWithin fuel) (.call "sconcat" args) before =
      lift (outcome.map Value.str) after := by
  rw [joined_eq] at h
  rw [step_call fuel (List.mem_cons_self ..)]
  rcases bind_cases h with ⟨values, middle, hvalues, hjoin⟩ | ⟨error, herror, rfl⟩
  · obtain ⟨rfl, rfl⟩ := lift_injective ((lift_ok _ middle).trans hjoin)
    rw [bind_ok hvalues]
    exact apply_textBuiltin (List.mem_cons_self ..) values (hlacks _ rfl)
  · exact bind_failed herror

theorem joined_of_sconcat {fuel : Nat} {args : List Expr} {before after : Machine}
    {outcome : Except EvalError Value}
    (h : step (Expr.evalWithin fuel) (.call "sconcat" args) before =
      lift outcome after) (hlacks : after.Lacks textFunctions) :
    ∃ text, joined fuel args before = lift text after ∧
      outcome = text.map Value.str := by
  have hsconcat : Builtin.sconcat ∈ textBuiltins := List.mem_cons_self ..
  rw [joined_eq]
  rcases exists_values hsconcat h hlacks with
    ⟨values, hvalues, rfl⟩ | ⟨error, herror, rfl⟩
  · exact ⟨.ok (Value.joinTexts "" values), bind_ok hvalues, rfl⟩
  · exact ⟨.error error, bind_failed herror, rfl⟩

theorem map_empty_append (outcome : Except EvalError String) :
    outcome.map ("" ++ ·) = outcome := by
  cases outcome <;> simp [Except.map]

theorem map_append_append (first second : String)
    (outcome : Except EvalError String) :
    (outcome.map (second ++ ·)).map (first ++ ·) =
      outcome.map (first ++ second ++ ·) := by
  cases outcome <;> simp [Except.map, String.append_assoc]

theorem eq_append_of_map {text first : String} {outcome : Except EvalError String}
    (h : .ok text = outcome.map (first ++ ·)) :
    ∃ rest, outcome = .ok rest ∧ text = first ++ rest := by
  cases outcome with
  | ok rest => exact ⟨rest, rfl, Except.ok.inj h⟩
  | error error => cases h

theorem eq_error_of_map {error : EvalError} {first : String}
    {outcome : Except EvalError String}
    (h : .error error = outcome.map (first ++ ·)) : outcome = .error error := by
  cases outcome with
  | ok rest => cases h
  | error other => exact h.symm

/-- Read from a machine like `before`, expressions give `outcome` and leave a
machine like `after`, under any budget that suffices. -/
inductive Reads :
    Machine → List Expr → Except EvalError String → Machine → Prop where
  | nil {before after : Machine} (halike : before.Alike after)
      (hlacks : before.Lacks textFunctions) : Reads before [] (.ok "") after
  | cons {before middle after : Machine} {e : Expr} {rest : List Expr}
      {value : Value} {outcome : Except EvalError String}
      (hhead : ∀ fuel, (e.evalWithin fuel).Leads before (.ok value) middle)
      (hlacks : before.Lacks textFunctions) (hrest : Reads middle rest outcome after) :
      Reads before (e :: rest) (outcome.map (value.displayText ++ ·)) after
  | stop {before after : Machine} {e : Expr} {rest : List Expr}
      {error : EvalError}
      (hhead : ∀ fuel, (e.evalWithin fuel).Leads before (.error error) after)
      (hlacks : before.Lacks textFunctions) (hafter : after.Lacks textFunctions) :
      Reads before (e :: rest) (.error error) after

theorem leads_literal (text : String) (fuel : Nat) {before after : Machine}
    (halike : before.Alike after) :
    ((Expr.str text).evalWithin fuel).Leads before (.ok (.str text)) after := by
  cases fuel with
  | zero => exact fun start _ => Or.inl ⟨_, Follows.evalWithin_zero _ start⟩
  | succ fuel => exact Leads.ticked (.value _ halike)

namespace Reads

variable {before middle after : Machine} {items others : List Expr}
  {outcome : Except EvalError String}

theorem lacks_before (h : Reads before items outcome after) :
    before.Lacks textFunctions := by
  cases h <;> assumption

theorem lacks_after (h : Reads before items outcome after) :
    after.Lacks textFunctions := by
  induction h with
  | nil halike hlacks => exact halike.lacks hlacks
  | cons _ _ _ ih => exact ih
  | stop _ _ hafter => exact hafter

theorem alike (h : Reads middle items outcome after) (halike : before.Alike middle) :
    Reads before items outcome after := by
  have hlacks := halike.symm.lacks h.lacks_before
  cases h with
  | nil hnil _ => exact .nil (halike.trans hnil) hlacks
  | cons hhead _ hrest => exact .cons (fun fuel => (hhead fuel).alike halike) hlacks hrest
  | stop hhead _ hafter => exact .stop (fun fuel => (hhead fuel).alike halike) hlacks hafter

/-- Reading on after a text. -/
theorem append {text : String} (h : Reads before items (.ok text) middle)
    (hothers : Reads middle others outcome after) :
    Reads before (items ++ others) (outcome.map (text ++ ·)) after := by
  generalize hfirst : Except.ok text = first at h
  induction h generalizing text with
  | nil halike _ =>
      cases hfirst
      rw [map_empty_append]
      exact hothers.alike halike
  | @cons _ _ _ _ _ value rest hhead hlacks _ ih =>
      obtain ⟨more, rfl, rfl⟩ := eq_append_of_map hfirst
      rw [← map_append_append]
      exact .cons hhead hlacks (ih hothers rfl)
  | stop => cases hfirst

theorem append_error {error : EvalError}
    (h : Reads before items (.error error) after) (others : List Expr) :
    Reads before (items ++ others) (.error error) after := by
  generalize hfirst : Except.error error = first at h
  induction h generalizing error with
  | nil => cases hfirst
  | @cons _ _ _ _ _ value rest hhead hlacks _ ih =>
      obtain rfl := eq_error_of_map hfirst
      exact .cons hhead hlacks (ih rfl)
  | stop hhead hlacks hafter =>
      cases hfirst
      exact .stop hhead hlacks hafter

/-- What is read is the text up to some place and then the rest. -/
theorem split (h : Reads before (items ++ others) outcome after) :
    (∃ text middle rest, Reads before items (.ok text) middle ∧
      Reads middle others rest after ∧ outcome = rest.map (text ++ ·)) ∨
    ∃ error, Reads before items (.error error) after ∧ outcome = .error error := by
  induction items generalizing before outcome with
  | nil =>
      exact Or.inl ⟨"", before, outcome, .nil (.refl before) h.lacks_before, h,
        (map_empty_append outcome).symm⟩
  | cons e rest ih =>
      cases h with
      | @cons _ _ _ _ _ value outcome hhead hlacks hrest =>
          rcases ih hrest with ⟨text, last, tail, hitems, hothers, rfl⟩ |
            ⟨error, hitems, rfl⟩
          · exact Or.inl ⟨_, last, tail, .cons hhead hlacks hitems, hothers,
              map_append_append ..⟩
          · exact Or.inr ⟨error, .cons hhead hlacks hitems, rfl⟩
      | stop hhead hlacks hafter => exact Or.inr ⟨_, .stop hhead hlacks hafter, rfl⟩

/-- A literal text is read as it stands. -/
theorem of_literal {text : String}
    (h : Reads before (.str text :: items) outcome after) :
    ∃ rest, Reads before items rest after ∧ outcome = rest.map (text ++ ·) := by
  have hrun : (Expr.str text).evalWithin 1 { before with gas := 0, limit := 1 } =
      .ok (.str text) { before with gas := 1, limit := 1 } := rfl
  have hstart : before.Alike { before with gas := 0, limit := 1 } := ⟨rfl, rfl, rfl⟩
  cases h with
  | @cons _ middle _ _ _ value rest hhead hlacks hrest =>
      rcases hhead 1 _ hstart with ⟨spent, hspent⟩ | ⟨_, final, ⟨⟩, hfinal, hend⟩
      · cases hrun.symm.trans hspent
      · cases hrun.symm.trans hend
        have hspent : before.Alike { before with gas := 1, limit := 1 } := ⟨rfl, rfl, rfl⟩
        exact ⟨rest, hrest.alike (hspent.trans hfinal.symm), rfl⟩
  | stop hhead _ _ =>
      rcases hhead 1 _ hstart with ⟨spent, hspent⟩ | ⟨_, final, ⟨herror⟩, _, hend⟩
      · cases hrun.symm.trans hspent
      · cases hrun.symm.trans hend

theorem literal (text : String) (h : Reads before items outcome after) :
    Reads before (.str text :: items) (outcome.map (text ++ ·)) after :=
  (Reads.cons (fun fuel => leads_literal text fuel (.refl before)) h.lacks_before h :)

/-- Merging literal texts keeps what is read. -/
theorem merge (h : Reads before items outcome after) :
    Reads before (mergeTexts items) outcome after := by
  fun_induction mergeTexts items generalizing before outcome with
  | case1 => exact h
  | case2 rest ih =>
      obtain ⟨others, hrest, rfl⟩ := h.of_literal
      rw [map_empty_append]
      exact ih hrest
  | case3 text rest htext more others hmerged ih =>
      obtain ⟨tail, hrest, rfl⟩ := h.of_literal
      have hmore := ih hrest
      rw [hmerged] at hmore
      obtain ⟨last, hothers, rfl⟩ := hmore.of_literal
      rw [map_append_append]
      exact hothers.literal (text ++ more)
  | case4 text rest htext hmerged ih =>
      obtain ⟨tail, hrest, rfl⟩ := h.of_literal
      exact (ih hrest).literal text
  | case5 e rest he ih =>
      cases h with
      | cons hhead hlacks hrest => exact .cons hhead hlacks (ih hrest)
      | stop hhead hlacks hafter => exact .stop hhead hlacks hafter

/-- What is read is what joining gives, whatever it costs. -/
theorem leads_joined (h : Reads before items outcome after) (fuel : Nat) :
    (joined fuel items).Leads before outcome after := by
  induction h with
  | nil halike _ => exact .value "" halike
  | @cons _ _ _ _ _ value rest hhead _ _ ih =>
      refine (hhead fuel).bind ?_
      cases rest with
      | ok text => exact ih.bind (.value _ (.refl _))
      | error error => exact ih.bind_error
  | stop hhead _ _ => exact (hhead fuel).bind_error

theorem leads_sconcat (h : Reads before items outcome after) (fuel : Nat) :
    ((Expr.call "sconcat" items).evalWithin fuel).Leads before
      (outcome.map Value.str) after := by
  cases fuel with
  | zero => exact fun start _ => Or.inl ⟨_, Follows.evalWithin_zero _ start⟩
  | succ fuel =>
      refine Leads.ticked fun start hstart => ?_
      rcases h.leads_joined fuel start hstart with
        ⟨spent, hspent⟩ | ⟨seen, final, hseen, hfinal, hend⟩
      · refine Or.inl ⟨spent, ?_⟩
        exact step_sconcat (hspent.trans (lift_error .gasExhausted spent).symm)
          fun _ hbad => by cases hbad
      · refine Or.inr ⟨seen.map Value.str, final, ?_, hfinal,
          step_sconcat hend fun _ _ => hfinal.lacks h.lacks_after⟩
        cases hseen with
        | ok text => exact .ok _
        | error herror => exact .error herror

/-- Folding a long concatenation keeps what is read. -/
theorem leads_folded {limit : Nat} {current : List Expr}
    (h : Reads before (current ++ items) outcome after) (fuel : Nat) :
    ((folded limit current items).evalWithin fuel).Leads before
      (outcome.map Value.str) after := by
  induction items generalizing current before outcome with
  | nil =>
      rw [List.append_nil] at h
      exact h.leads_sconcat fuel
  | cons e rest ih =>
      unfold folded
      split
      · exact ih (by rwa [List.append_assoc])
      · refine ih ?_
        rcases h.split with ⟨text, middle, tail, hcurrent, hrest, rfl⟩ |
          ⟨error, hcurrent, rfl⟩
        · exact (Reads.cons hcurrent.leads_sconcat hcurrent.lacks_before hrest :)
        · exact .stop hcurrent.leads_sconcat hcurrent.lacks_before hcurrent.lacks_after

theorem leads_foldCall (limit : Nat) (h : Reads before items outcome after)
    (fuel : Nat) :
    ((foldCall limit "sconcat" items).evalWithin fuel).Leads before
      (outcome.map Value.str) after := by
  unfold foldCall
  split
  · exact leads_folded (by rwa [List.nil_append]) fuel
  · exact h.leads_sconcat fuel

/-- What always yields a text needs no concatenation around it. -/
theorem leads_text {e : Expr} (he : yieldsText e = true)
    (h : Reads before [e] outcome after) (fuel : Nat) :
    (e.evalWithin fuel).Leads before (outcome.map Value.str) after := by
  cases h with
  | @cons _ middle _ _ _ value _ hhead _ hrest =>
      cases hrest with
      | nil halike hmiddle =>
          intro start hstart
          rcases hhead fuel start hstart with hgas | ⟨_, final, ⟨⟩, hfinal, hend⟩
          · exact Or.inl hgas
          · obtain ⟨text, rfl⟩ :=
              exists_str_of_yieldsText he hend (hfinal.lacks hmiddle)
            refine Or.inr ⟨_, final, ?_, halike.symm.trans hfinal, hend⟩
            simp only [Except.map, Value.displayText, String.append_empty]
            exact .ok _
  | stop hhead _ _ => exact hhead fuel

end Reads

/-- Whenever joining the first expressions ends, reading the second ones gives
the same. -/
def TextFollows (items others : List Expr) : Prop :=
  ∀ fuel before outcome after, joined fuel items before = lift outcome after →
    outcome ≠ .error .gasExhausted → after.Lacks textFunctions →
      Reads before others outcome after

namespace TextFollows

variable {items others : List Expr}

theorem nil : TextFollows [] [] := by
  intro fuel before outcome after h _ hlacks
  obtain ⟨rfl, rfl⟩ := lift_injective ((lift_ok "" before).trans h)
  exact .nil (.refl before) hlacks

theorem append {more rest : List Expr} (h : TextFollows items others)
    (hmore : TextFollows more rest) :
    TextFollows (items ++ more) (others ++ rest) := by
  intro fuel before outcome after hrun hgas hlacks
  rw [joined_append] at hrun
  rcases bind_cases hrun with ⟨text, middle, hitems, hnext⟩ | ⟨error, hitems, rfl⟩
  · rcases bind_cases hnext with ⟨tail, last, hthen, hend⟩ | ⟨error, hthen, rfl⟩
    · obtain ⟨rfl, rfl⟩ := lift_injective ((lift_ok _ last).trans hend)
      have hrest := hmore _ _ _ _ (hthen.trans (lift_ok tail last).symm) (by simp) hlacks
      exact (h _ _ _ _ (hitems.trans (lift_ok text middle).symm) (by simp)
        hrest.lacks_before).append hrest
    · have hrest := hmore _ _ _ _ (hthen.trans (lift_error error after).symm)
        (fun hbad => hgas (by cases hbad; rfl)) hlacks
      exact (h _ _ _ _ (hitems.trans (lift_ok text middle).symm) (by simp)
        hrest.lacks_before).append hrest
  · exact (h _ _ _ _ (hitems.trans (lift_error error after).symm)
      (fun hbad => hgas (by cases hbad; rfl)) hlacks).append_error rest

theorem single {e part : Expr}
    (h : ∀ fuel other, Follows textFunctions (e.evalWithin fuel)
      (part.evalWithin other)) : TextFollows [e] [part] := by
  intro fuel before outcome after hrun hgas hlacks
  have hbefore : before.Lacks textFunctions := (joined_grows hrun).lacks hlacks
  rcases bind_cases hrun with ⟨value, middle, hvalue, hend⟩ | ⟨error, herror, rfl⟩
  · obtain ⟨rfl, rfl⟩ := lift_injective ((lift_ok _ middle).trans hend)
    have hleads : ∀ other, (part.evalWithin other).Leads before (.ok value) middle :=
      fun other => (h fuel other).leads (hvalue.trans (lift_ok value middle).symm)
        (by simp) hlacks
    exact .cons hleads hbefore (.nil (.refl middle) hlacks)
  · exact .stop (fun other => (h fuel other).leads
      (herror.trans (lift_error error after).symm)
      (fun hbad => hgas (by cases hbad; rfl)) hlacks) hbefore hlacks

/-- A concatenation inside another contributes what its arguments do. -/
theorem nested (h : TextFollows items others) :
    TextFollows [.call "sconcat" items] others := by
  intro fuel before outcome after hrun hgas hlacks
  have hstart : before.Alike { before with gas := before.gas + 1 } := ⟨rfl, rfl, rfl⟩
  rcases bind_cases hrun with ⟨value, middle, hvalue, hend⟩ | ⟨error, herror, rfl⟩
  · obtain ⟨rfl, rfl⟩ := lift_injective ((lift_ok _ middle).trans hend)
    obtain ⟨rest, hstep⟩ := Follows.exists_step
      (hvalue.trans (lift_ok value middle).symm) (by simp)
    obtain ⟨_ | text, hjoined, htext⟩ := joined_of_sconcat hstep hlacks
    · cases htext
    · cases htext
      rw [Value.displayText, String.append_empty]
      exact (h _ _ _ _ hjoined (by simp) hlacks).alike hstart
  · have hfirst : Except.error error ≠ (.error .gasExhausted : Except EvalError Value) := by
      rintro ⟨⟩
      exact hgas rfl
    obtain ⟨rest, hstep⟩ := Follows.exists_step
      (herror.trans (lift_error error after).symm) hfirst
    obtain ⟨_ | text, hjoined, htext⟩ := joined_of_sconcat hstep hlacks
    · cases htext
      exact (h _ _ _ _ hjoined hgas hlacks).alike hstart
    · cases htext

theorem merge (h : TextFollows items others) :
    TextFollows items (mergeTexts others) :=
  fun _ _ _ _ hrun hgas hlacks => (h _ _ _ _ hrun hgas hlacks).merge

theorem empty_literal (h : TextFollows items others) :
    TextFollows items (.str "" :: others) := by
  intro fuel before outcome after hrun hgas hlacks
  have hreads := (h _ _ _ _ hrun hgas hlacks).literal ""
  rwa [map_empty_append] at hreads

end TextFollows

end Concat

end SceneQuiz
