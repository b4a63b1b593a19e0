import SceneQuiz.Proofs.Machine.Passage
import SceneQuiz.Question.Build
/-!
The functions that set the variables of a question or a scene do what their
source does.  Such a function runs each statement one scope deeper than the
source, and a flagged one two scopes deeper, inside a block that saves `simp`
and sets it back.  The block binds one name only, which no other code knows, so
each statement comes out as if it had been run in place.
-/

namespace SceneQuiz

namespace Build

open Eval Machine SceneQuiz.Expr

/-- A flag without a value, or with a literal one. -/
def isPlain (flag : Flag) : Bool :=
  match flag.value with
  | none | some (.bool _) => true
  | some _ => false

/-- The `simp` flag, if there is one, says what `simp` is to be. -/
def HasPlainFlag (statement : Statement) : Prop :=
  ∀ flag ∈ statement.flag? "simp", isPlain flag = true

instance (statement : Statement) : Decidable (HasPlainFlag statement) :=
  inferInstanceAs (Decidable (∀ flag ∈ statement.flag? "simp", isPlain flag = true))

/-- The local that saves `simp`. -/
def saving (value : Value) : Scope := .ofList [("%_s", value)]

theorem get?_saving (value : Value) {name : String} (h : name ∉ {name | name ∈ ["%_s"]}) :
    (saving value).get? name = none := by
  have hne : name ≠ "%_s" := by simpa using h
  simp [saving, NameMap.ofList, hne]

/-- A machine on which the statements and their function come to the same:
`simp` is bound, and no function knows where it is saved. -/
structure Ready (machine : Machine) : Prop where
  fences : machine.Fences {name | name ∈ ["%_s"]}
  simp : (machine.env.get? "simp").isSome = true

variable {machine before after : Machine} {e : Expr} {value : Value}

theorem Ready.assign (h : Ready machine) (value : Value) : Ready (machine.assign "simp" value) :=
  ⟨h.fences, by simp [Machine.assign]⟩

theorem Ready.alike (h : Ready before) (halike : before.Alike after) : Ready after := by
  refine ⟨fun name function hfunction => ?_, by rw [halike.env]; exact h.simp⟩
  rw [halike.functions] at hfunction
  exact h.fences name function hfunction

/-- Code that leaves the saved value alone leaves the machine ready. -/
theorem Ready.later (h : Ready before) (he : e.FencedFrom ["%_s"]) {fuel : Nat}
    (hrun : e.evalWithin fuel before = .ok value after) : Ready after := by
  have hlift := hrun.trans (lift_ok value after).symm
  refine ⟨(evalWithin_under (fun _ => get?_saving value) (he ∅) h.fences hlift nofun).2, ?_⟩
  have hbound := h.simp
  rw [Environment.get?_eq_column] at hbound ⊢
  exact ((changes_of_evalWithin hlift) "simp").1.isSome hbound

/-- In the scope of the call. -/
theorem leadsTo_called (hready : Ready before) (he : e.FencedFrom ["%_s"]) {fuel : Nat}
    (hrun : e.evalWithin fuel before = .ok value after) :
    e.LeadsTo (before.under .empty) (.ok value) (after.under .empty) := by
  have hlift := hrun.trans (lift_ok value after).symm
  have hcalled := evalWithin_under (fun name _ => NameMap.get?_empty name) (he ∅) hready.fences
    hlift nofun
  exact .of_run hcalled.1 nofun

/-- In the scope of the call and in the one of the block. -/
theorem leadsTo_enclosed (hready : Ready before) (he : e.FencedFrom ["%_s"]) (saved : Value)
    {fuel : Nat} (hrun : e.evalWithin fuel before = .ok value after) :
    e.LeadsTo ((before.under .empty).under (saving saved)) (.ok value)
      ((after.under .empty).under (saving saved)) := by
  have hlift := hrun.trans (lift_ok value after).symm
  have hcalled := evalWithin_under (fun name _ => NameMap.get?_empty name) (he ∅) hready.fences
    hlift nofun
  have hblock := evalWithin_under (fun _ => get?_saving saved) (he ∅) (hready.fences.under _)
    hcalled.1 nofun
  exact .of_run hblock.1 nofun

/-- Neither scope binds `simp`. -/
theorem assign_simp (machine : Machine) (saved value : Value) :
    ((machine.under .empty).under (saving saved)).assign "simp" value =
      ((machine.assign "simp" value).under .empty).under (saving saved) := by
  have hfree : (saving saved).contains "simp" = false := by
    rw [NameMap.contains, get?_saving saved (by simp)]
    rfl
  unfold Machine.assign Machine.under
  dsimp only
  rw [Environment.assign_under_free value hfree, Environment.assign_under_free value rfl]

/-- `simp` is saved, set, and set back. -/
theorem leadsTo_flagged (truth : Bool) (hready : Ready before) (he : e.FencedFrom ["%_s"])
    {fuel : Nat}
    (hrun : e.evalWithin fuel (before.assign "simp" (.bool truth)) = .ok value after) :
    ∃ found, (Expr.block [.assign "%_s" (.ident "simp")]
        [.assign "simp" (.bool truth), e, .assign "simp" (.ident "%_s")]).LeadsTo
      (before.under .empty) (.ok found)
      ((after.assign "simp" ((before.env.get? "simp").getD (.bool true))).under .empty) := by
  obtain ⟨saved, hsaved⟩ := Option.isSome_iff_exists.mp hready.simp
  rw [hsaved, Option.getD_some]
  have hset : (Expr.assign "simp" (.bool truth)).LeadsTo
      ((before.under .empty).under (saving saved)) (.ok (.bool truth))
      (((before.assign "simp" (.bool truth)).under .empty).under (saving saved)) := by
    rw [← assign_simp]
    exact .assign fun _ => evaluates_bool truth
  have hback : (Expr.assign "simp" (.ident "%_s")).LeadsTo
      ((after.under .empty).under (saving saved)) (.ok saved)
      (((after.assign "simp" saved).under .empty).under (saving saved)) := by
    rw [← assign_simp]
    exact .assign fun _ => evaluates_ident "%_s"
  have hlocals : ∀ limit, Declares { before.under .empty with limit := limit }
      (before.under .empty).env [.assign "%_s" (.ident "simp")] [("%_s", saved)] := by
    intro limit
    have hread : ((before.under .empty).env.get? "simp").getD (.symbol "simp") = saved := by
      change ((before.env.under .empty).get? "simp").getD _ = saved
      rw [Environment.get?_under_free (NameMap.get?_empty _), hsaved]
      rfl
    have hident := @evaluates_ident { before.under .empty with limit := limit }
      (before.under .empty).env "simp"
    rw [hread] at hident
    exact .assigned "%_s" hident .nil
  exact ⟨saved, .block hlocals (.cons hset
    (.cons (leadsTo_enclosed (hready.assign _) he saved hrun) (.single hback))) rfl⟩

/-- A statement with a flag runs with `simp` set to what the flag says. -/
theorem exists_of_flag {statement : Statement} {flag : Flag}
    (hflag : statement.flag? "simp" = some flag) (hplain : HasPlainFlag statement)
    (hrun : statement.eval before = .ok value after) :
    ∃ truth start, flag.value.getD (.bool true) = .bool truth ∧ before.Alike start ∧
      withSimp (.bool truth) statement.expr.eval start = .ok value after := by
  unfold Statement.eval at hrun
  rw [hflag] at hrun
  dsimp only at hrun
  cases hvalue : flag.value with
  | none =>
      rw [hvalue] at hrun
      exact ⟨true, before, rfl, .refl before, hrun⟩
  | some e =>
      obtain ⟨truth, rfl⟩ : ∃ truth, e = .bool truth := by
        have hliteral := hplain flag hflag
        unfold isPlain at hliteral
        rw [hvalue] at hliteral
        cases e with
        | bool truth => exact ⟨truth, rfl⟩
        | _ => cases hliteral
      rw [hvalue] at hrun
      rcases bind_cases (hrun.trans (lift_ok value after).symm) with
        ⟨found, start, hfound, hwith⟩ | ⟨_, _, ⟨⟩⟩
      have hliteral : (Expr.bool truth).LeadsTo before (.ok (.bool truth)) before :=
        .of_evaluates fun _ => evaluates_bool truth
      rcases hliteral before.remaining before (.refl before) with
        ⟨spent, hspent⟩ | ⟨_, final, ⟨⟩, hfinal, hend⟩
      · cases hfound.symm.trans hspent
      · cases hfound.symm.trans hend
        exact ⟨truth, start, rfl, hfinal, hwith⟩

theorem exists_of_withSimp {run : Eval Value} {flag : Value}
    (h : withSimp flag run before = .ok value after) :
    ∃ last, run (before.assign "simp" flag) = .ok value last ∧
      after = last.assign "simp" ((before.env.get? "simp").getD (.bool true)) := by
  unfold withSimp at h
  dsimp only at h
  split at h
  · next found last hrun =>
      cases h
      exact ⟨last, hrun, rfl⟩
  · cases h

/-- The step: a statement and its form inside the function. -/
theorem leadsTo_statement {statement : Statement} (hplain : HasPlainFlag statement)
    (hexpr : statement.expr.FencedFrom ["%_s"]) (hready : Ready before)
    (hrun : statement.eval before = .ok value after) :
    Ready after ∧ ∃ found, (flagged statement).LeadsTo (before.under .empty) (.ok found)
      (after.under .empty) := by
  cases hflag : statement.flag? "simp" with
  | none =>
      have hform : flagged statement = statement.expr := by
        unfold flagged
        rw [hflag]
      have heval : statement.expr.evalWithin before.remaining before = .ok value after := by
        unfold Statement.eval at hrun
        rwa [hflag] at hrun
      rw [hform]
      exact ⟨hready.later hexpr heval, value, leadsTo_called hready hexpr heval⟩
  | some flag =>
      obtain ⟨truth, start, hvalue, hstart, hwith⟩ := exists_of_flag hflag hplain hrun
      have hform : flagged statement = Expr.block [.assign "%_s" (.ident "simp")]
          [.assign "simp" (.bool truth), statement.expr, .assign "simp" (.ident "%_s")] := by
        unfold flagged
        rw [hflag, ← hvalue]
      obtain ⟨last, heval, rfl⟩ := exists_of_withSimp hwith
      have hstarted := hready.alike hstart
      obtain ⟨found, hfound⟩ := leadsTo_flagged truth hstarted hexpr heval
      rw [hform]
      refine ⟨((hstarted.assign _).later hexpr heval).assign _, found, hfound.alike ?_⟩
      exact hstart.changed (·.under .empty)

/-- The run: statements one after the other, and then `true`. -/
theorem runLeadsTo_statements {fragment : Fragment}
    (hplain : ∀ statement ∈ fragment, HasPlainFlag statement)
    (hexprs : ∀ statement ∈ fragment, statement.expr.FencedFrom ["%_s"]) (hready : Ready before)
    {last : Value} (hrun : fragment.evalFrom last before = .ok value after) (found : Value) :
    RunLeadsTo (before.under .empty) found (fragment.map flagged ++ [Expr.bool true])
      (.ok (.bool true)) (after.under .empty) := by
  induction fragment generalizing before last found with
  | nil =>
      cases hrun
      exact .single (.of_evaluates fun _ => evaluates_bool true)
  | cons statement rest ih =>
      rw [List.forall_mem_cons] at hplain hexprs
      rcases bind_cases (hrun.trans (lift_ok value after).symm) with
        ⟨first, middle, hfirst, hrest⟩ | ⟨_, _, ⟨⟩⟩
      obtain ⟨hmiddle, seen, hleads⟩ := leadsTo_statement hplain.1 hexprs.1 hready hfirst
      exact .cons hleads (ih hplain.2 hexprs.2 hmiddle hrest seen)

/-- The function of some statements leaves the variables and the functions that
the statements themselves leave, on a machine in whatever scopes.  `simp` is bound
on every machine that a program can meet: it is a global from the beginning, and
nothing takes a binding away. -/
theorem call_like_runText {source : String} {fragment : Fragment}
    (hparse : Fragment.parse source = .ok fragment)
    (hplain : ∀ statement ∈ fragment, HasPlainFlag statement)
    (hfresh : ∀ statement ∈ fragment, statement.expr.Omits ["%_s"])
    (hfunctions : ∀ name function, machine.functions.get? name = some function →
      function.body.Omits ["%_s"])
    (hsimp : (machine.env.get? "simp").isSome = true)
    (hrun : runText source machine = .ok value after)
    (name : String) (fuel : Nat) {start : Machine} (hstart : machine.Alike start)
    (hgas : ∀ spent, applyClosure (evalWithin fuel) name ⟨[], statements fragment⟩ [] start ≠
      .error .gasExhausted spent) :
    ∃ final,
      applyClosure (evalWithin fuel) name ⟨[], statements fragment⟩ [] start =
        .ok (.bool true) final ∧
      final.env = after.env ∧ final.functions = after.functions := by
  have hready : Ready machine := ⟨fences_of_omits hfunctions, hsimp⟩
  have heval : fragment.evalFrom (.bool false) machine = .ok value after := by
    unfold runText at hrun
    rwa [hparse] at hrun
  have hfenced : ∀ statement ∈ fragment, statement.expr.FencedFrom ["%_s"] :=
    fun statement hmem => (hfresh statement hmem).fencedFrom
  have hbody : (statements fragment).LeadsTo (machine.under .empty) (.ok (.bool true))
      (after.under .empty) :=
    .group (runLeadsTo_statements hplain hfenced hready heval (.bool false))
  rcases leads_applyClosure name hbody fuel start hstart with
    ⟨spent, hspent⟩ | ⟨_, final, ⟨⟩, hfinal, hend⟩
  · exact absurd hspent (hgas spent)
  · exact ⟨final, hend, hfinal.env, hfinal.functions⟩

/-- Is a source fit for the comparison, and do it and its function come to their
ends on this machine? -/
def isComparable (source : String) (machine : Machine) : Bool :=
  match Fragment.parse source with
  | .error _ => false
  | .ok fragment =>
      decide (∀ statement ∈ fragment, HasPlainFlag statement ∧ statement.expr.Omits ["%_s"]) &&
        (match runText source machine with
        | .ok _ _ => true
        | .error _ _ => false) &&
        match applyClosure (evalWithin 60) "f" ⟨[], statements fragment⟩ [] machine with
        | .ok _ _ => true
        | .error _ _ => false

/-- Statements that ask for `simp` under one flag and use a function of their own
under another. -/
def askingSource : String := "y: g(), simp = false; h(x) := x + 1; z: h(2), simp"

/-- A machine with a function that tells what `simp` is. -/
def askingMachine : Machine :=
  { Machine.fresh 60 with functions := NameMap.empty.insert "g" ⟨[], .ident "simp"⟩ }

theorem call_like_askingSource :
    ∃ fragment value after final, Fragment.parse askingSource = .ok fragment ∧
      runText askingSource askingMachine = .ok value after ∧
      applyClosure (evalWithin 60) "f" ⟨[], statements fragment⟩ [] askingMachine =
        .ok (.bool true) final ∧
      final.env = after.env ∧ final.functions = after.functions := by
  have hfit : isComparable askingSource askingMachine = true := by decide +kernel
  have hfunctions : ∀ name function, askingMachine.functions.get? name = some function →
      function.body.Omits ["%_s"] := by
    intro name function hfunction
    rw [NameMap.eq_of_get?_single hfunction]
    decide +kernel
  unfold isComparable at hfit
  split at hfit
  · cases hfit
  · next fragment hparse =>
      simp only [Bool.and_eq_true, decide_eq_true_eq] at hfit
      obtain ⟨⟨hstatements, hruns⟩, hends⟩ := hfit
      split at hruns
      · next value after hrun =>
          have hgas : ∀ spent, applyClosure (evalWithin 60) "f" ⟨[], statements fragment⟩ []
              askingMachine ≠ .error .gasExhausted spent := by
            intro spent hspent
            rw [hspent] at hends
            cases hends
          obtain ⟨final, hfinal⟩ := call_like_runText hparse
            (fun statement hmem => (hstatements statement hmem).1)
            (fun statement hmem => (hstatements statement hmem).2) hfunctions rfl hrun "f" 60
            (.refl askingMachine) hgas
          exact ⟨fragment, value, after, final, hparse, hrun, hfinal⟩
      · cases hruns

end Build

end SceneQuiz
