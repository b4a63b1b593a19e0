import SceneQuiz.Proofs.Machine.Passage
import SceneQuiz.Proofs.ResponseTree.KeptBindings
import SceneQuiz.Proofs.ResponseTree.Progress
import SceneQuiz.Proofs.ResponseTree.Refinement
/-!
What the first test of a tree sees of the feedback variables.  The function runs
them in the scope of the call and in its block, which holds its own variables and
a copy of every name that is written.  Until the test they come to the same as
if they had been run in place, without their flags: the function runs each
statement as if it had none.
-/

namespace SceneQuiz

open Eval Machine

/-- A statement without its flags. -/
def Statement.unflagged (statement : Statement) : Statement :=
  { statement with flags := [] }

variable {machine before after first second : Machine} {value last : Value}

/-- Statements that leave the names of a scope alone run alike inside it. -/
theorem Fragment.evalFrom_under {scope : Scope} {hidden : Set String}
    (hscope : ∀ name, name ∉ hidden → scope.get? name = none) {fragment : Fragment}
    (hexprs : ∀ statement ∈ fragment, statement.expr.Fenced hidden hidden ∅)
    (hfences : before.Fences hidden)
    (hrun : Fragment.evalFrom last (fragment.map Statement.unflagged) before = .ok value after) :
    Fragment.evalFrom last (fragment.map Statement.unflagged) (before.under scope) =
        .ok value (after.under scope) ∧ after.Fences hidden := by
  induction fragment generalizing before last with
  | nil =>
      cases hrun
      exact ⟨rfl, hfences⟩
  | cons statement rest ih =>
      rw [List.forall_mem_cons] at hexprs
      rcases bind_cases (hrun.trans (lift_ok value after).symm) with
        ⟨found, middle, hfirst, hrest⟩ | ⟨_, _, ⟨⟩⟩
      obtain ⟨hdeeper, hmiddle⟩ := Expr.evalWithin_under hscope hexprs.1 hfences
        (hfirst.trans (lift_ok found middle).symm) nofun
      obtain ⟨hall, hafter⟩ := ih hexprs.2 hmiddle hrest
      exact ⟨(bind_ok hdeeper).trans hall, hafter⟩

/-- Statements on one machine, and the same statements as code on another one
that stands on the ground. -/
theorem Fragment.exists_runLeadsTo {ground : Ground} {fragment : Fragment}
    (hexprs : ∀ statement ∈ fragment, statement.expr.Fenced ground.unread ground.fixed ∅)
    (hover : Over ground [] first second)
    (hrun : Fragment.evalFrom last (fragment.map Statement.unflagged) first = .ok value after) :
    ∃ final, Over ground [] after final ∧ ∀ found, Expr.RunLeadsTo second found
      (fragment.map Statement.expr ++ [Expr.bool true]) (.ok (.bool true)) final := by
  induction fragment generalizing first second last with
  | nil =>
      cases hrun
      exact ⟨second, hover, fun _ => .single (.of_evaluates fun _ => Expr.evaluates_bool true)⟩
  | cons statement rest ih =>
      rw [List.forall_mem_cons] at hexprs
      rcases bind_cases (hrun.trans (lift_ok value after).symm) with
        ⟨found, middle, hfirst, hrest⟩ | ⟨_, _, ⟨⟩⟩
      have hblends := blends_of_fenced first.remaining hexprs.1 (.none [])
      obtain ⟨between, hsecond, hbetween, -⟩ :=
        hblends.ends hover (hfirst.trans (lift_ok found middle).symm)
      obtain ⟨final, hfinal, hcode⟩ := ih hexprs.2 (hbetween nofun) hrest
      exact ⟨final, hfinal, fun _ => .cons (.of_run hsecond nofun) (hcode found)⟩

namespace ResponseTree

namespace Emit

open SceneQuiz.Expr (Declares Evaluates Run LeadsTo RunLeadsTo)

variable {plan : Plan} {env : Environment}

/-- Names of which the function of a tree keeps a copy. -/
def copied (written : NameSet) : List String :=
  written.names.filter fun name => !isGlobalFlag name

/-- What the locals of the function start with. -/
def started (written : NameSet) (env : Environment) : List (String × Value) :=
  Frame.initial.bindings ++ (copied written).map fun name => (name, env.reading name)

theorem declares_locals (written : NameSet) (env : Environment) :
    Declares machine env (locals written) (started written env) := by
  apply declares_accumulators_append
  change Declares machine env ((copied written).map Expr.keep) _
  induction copied written with
  | nil => exact .nil
  | cons name rest ih => exact .assigned name (Expr.evaluates_ident name) ih

/-- No variable of the function itself is copied. -/
def Apart (written : NameSet) : Prop := ∀ name ∈ copied written, name ∉ ownNames

variable {written : NameSet} {name : String}

theorem get?_started_copied (hapart : Apart written) (hname : name ∈ copied written) :
    (NameMap.ofList (started written env)).get? name = some (env.reading name) := by
  apply NameMap.get?_ofList_of_forall
  · simp [started, hname]
  · intro entry hentry heq
    rcases List.mem_append.mp hentry with hown | hcopy
    · have hmem : entry.1 ∈ ownNames := List.mem_map_of_mem hown
      exact absurd (heq ▸ hmem) (hapart name hname)
    · obtain ⟨other, -, rfl⟩ := List.mem_map.mp hcopy
      cases heq
      rfl

theorem get?_started_stop (hapart : Apart written) :
    (NameMap.ofList (started written env)).get? Vars.stop = some (Value.bool false) := by
  apply NameMap.get?_ofList_of_forall
  · simp [started, Frame.bindings]
  · intro entry hentry heq
    rcases List.mem_append.mp hentry with hown | hcopy
    · have hstop : (Vars.stop, Value.bool false) ∈ Frame.initial.bindings := by
        simp [Frame.bindings, Frame.initial]
      rw [List.inj_on_of_nodup_map Frame.initial.nodup_bindings hown hstop heq]
    · obtain ⟨other, hother, rfl⟩ := List.mem_map.mp hcopy
      obtain rfl : other = Vars.stop := heq
      exact absurd (by decide) (hapart Vars.stop hother)

theorem get?_started_other (hown : name ∉ ownNames) (hcopy : name ∉ copied written) :
    (NameMap.ofList (started written env)).get? name = none := by
  have hfree : name ∉ (started written env).map Prod.fst := by
    rw [started, List.map_append, List.mem_append, not_or]
    refine ⟨hown, ?_⟩
    simpa using hcopy
  rw [← NameMap.contains_ofList, NameMap.contains, Bool.not_eq_true] at hfree
  simpa using hfree

/-- A test that leaves the function with the value of a variable. -/
def report (name : String) : Expr := .call "return" [.ident name]

/-- The statements before a test assign no variable but `simp` and their own. -/
theorem run_runTest_report (last : Value) (path : Locator) (hname : name ∉ "simp" :: ownNames) :
    ∃ later, ∀ machine, Run machine env last (runTest (report name) path)
      (.error (.returned (env.reading name))) later := by
  let counted := env.assign Vars.nodeErrors (.int 0)
  let saved := counted.assign Vars.savedSimp (counted.reading "simp")
  let tested := saved.assign "simp" (.bool false)
  have hne : ∀ other ∈ "simp" :: ownNames, name ≠ other := fun other hother heq =>
    hname (heq ▸ hother)
  have hreading : tested.reading name = env.reading name := by
    apply Environment.reading_of_column
    rw [Environment.column_assign_of_ne _ _ (hne "simp" List.mem_cons_self),
      Environment.column_assign_of_ne _ _ (hne Vars.savedSimp (by decide)),
      Environment.column_assign_of_ne _ _ (hne Vars.nodeErrors (by decide))]
  refine ⟨tested, fun machine => ?_⟩
  have hread : (Expr.ident name).Evaluates machine tested (.ok (env.reading name)) tested := by
    rw [← hreading]
    exact Expr.evaluates_ident name
  have htest : (Expr.call "errcatch" [report name]).Evaluates machine tested
      (.error (.returned (env.reading name))) tested :=
    Expr.evaluates_errcatch_returned (.cons_error (Expr.evaluates_return hread))
  apply Run.cons (Expr.evaluates_assign (Expr.evaluates_nat (by decide)))
  apply Run.cons (Expr.evaluates_assign (Expr.evaluates_ident "simp"))
  apply Run.cons (Expr.evaluates_assign (Expr.evaluates_bool false))
  exact .cons_error (Expr.evaluates_assign_error htest)

/-- The guard of the root is open until the function stops. -/
theorem evaluates_node_report {node : NodePlan} (hroot : node.isRoot = true)
    (hstop : env.reading Vars.stop = .bool false) (hname : name ∉ "simp" :: ownNames)
    (limit : Nat) :
    ∃ later, ∀ machine, (Emit.node { node with test := report name } limit).Evaluates machine env
      (.error (.returned (env.reading name))) later := by
  obtain ⟨later, hrun⟩ := run_runTest_report (.bool false) [.node node.index] hname
  refine ⟨later, fun machine => ?_⟩
  have hguard : (guard node.isRoot node.entries).Evaluates machine env (.ok (.bool true)) env := by
    have hrunning : (Expr.ident Vars.stop).Evaluates machine env (.ok (.bool false)) env := by
      rw [← hstop]
      exact Expr.evaluates_ident Vars.stop
    rw [hroot]
    exact Expr.evaluates_not hrunning
  apply Expr.evaluates_ifThen hguard
  apply Expr.evaluates_group
  exact (((hrun machine).append_error).append_error).append_error

/-- The function goes on if its setup raises no error. -/
theorem leadsTo_orGiveUp {statements : List Expr} {found : Value}
    (h : RunLeadsTo before (.bool false) (statements ++ [Expr.bool true]) (.ok found) after) :
    (orGiveUp statements).LeadsTo before (.ok (.bool false)) after := by
  have hnone : (Expr.list []).LeadsTo after (.ok (.list [])) after :=
    .of_evaluates fun _ => Expr.evaluates_list .nil
  exact .ifThen_skip (.operator rfl (.errcatch h) hnone rfl)

/-- Up to its first node the function does what the statements do. -/
theorem exists_runLeadsTo_setup {ground : Ground} {fragment : Fragment}
    (hexprs : ∀ statement ∈ fragment, statement.expr.Fenced ground.unread ground.fixed ∅)
    (hover : Over ground [] first second)
    (hrun : Fragment.evalFrom last (fragment.map Statement.unflagged) first = .ok value after) :
    ∃ final, Over ground [] after final ∧ ∀ {rest outcome seen},
      (∀ found, RunLeadsTo final found rest outcome seen) → ∀ found, RunLeadsTo second found
        ((if fragment.isEmpty then [] else [orGiveUp (fragment.map Statement.expr)]) ++ rest)
        outcome seen := by
  cases fragment with
  | nil =>
      cases hrun
      exact ⟨second, hover, fun hrest => hrest⟩
  | cons statement others =>
      obtain ⟨final, hfinal, hsetup⟩ := Fragment.exists_runLeadsTo hexprs hover hrun
      exact ⟨final, hfinal, fun hrest found =>
        .cons (leadsTo_orGiveUp (hsetup (.bool false))) (hrest (.bool false))⟩

end Emit

variable {tree : ResponseTree} {ctx : TreeContext} {traversal : Traversal}

theorem isRoot_planNode (index : Nat) (node : Node) (log : Log) :
    ((tree.planNode ctx traversal index node).run log).1.isRoot =
      (traversal.root? == some index) := rfl

/-- The root is planned first. -/
theorem exists_root (ctx : TreeContext) (hwalk : tree.walk = .ok traversal) :
    ∃ root rest, (tree.readPlan ctx traversal).nodes = root :: rest ∧ root.isRoot = true := by
  obtain ⟨index, others, hindex, horder⟩ := (walked_of_walk hwalk).root
  obtain ⟨node, hnode, -⟩ := indexOf?_eq_some hindex
  have hplanned : ∀ log, ∃ root rest,
      ((tree.planNodes ctx traversal (index :: others)).run log).1 = root :: rest ∧
        root.isRoot = (traversal.root? == some index) := by
    intro log
    unfold planNodes
    rw [hnode]
    exact ⟨_, _, rfl, isRoot_planNode index node log⟩
  obtain ⟨root, rest, hnodes, hroot⟩ := hplanned _
  refine ⟨root, rest, ?_, ?_⟩
  · rw [← horder] at hnodes
    exact hnodes
  · rw [hroot, Traversal.root?, horder, List.head?_cons, beq_self_eq_true]

/-- Code that writes no variable of the function itself. -/
def PlanProperty.reserved : PlanProperty where
  expr _ := True
  code code := ∀ name ∈ (Fragment.usage code).write, name ∉ Emit.ownNames
  feedback _ := True

theorem reserved_offered
    (hwrites : ∀ source ∈ tree.fragments, ∀ name ∈ fragmentWrites source,
      name ∉ Emit.ownNames) : PlanProperty.reserved.Offered tree ctx where
  expressions _ _ _ _ := trivial
  fragments source hsource code hcode name hname := by
    apply hwrites source hsource
    unfold fragmentWrites
    rw [hcode]
    exact hname
  feedbacks _ _ _ _ := trivial
  noTest := trivial
  changed _ _ _ _ _ := trivial
  invoked _ _ _ _ _ _ := trivial

theorem Plan.Has.apart {plan : Plan} (h : plan.Has .reserved) : Emit.Apart plan.writes := by
  intro name hname
  have hwritten : name ∈ plan.writes := NameSet.mem_names.mp (List.mem_filter.mp hname).1
  rcases NameSet.mem_union.mp hwritten with hsetup | htransition
  · exact h.setup name hsetup
  · obtain ⟨code, hcode, hmem⟩ := Plan.mem_transitionWrites.mp htransition
    exact h.transitions code hcode name hmem

/-- A plan whose first test leaves the function with the value of a variable. -/
def Plan.reporting (name : String) (plan : Plan) : Plan :=
  { plan with
    nodes := plan.nodes.modifyHead fun node => { node with test := Emit.report name } }

theorem Plan.writes_reporting (plan : Plan) (name : String) :
    (plan.reporting name).writes = plan.writes := by
  obtain ⟨setup, nodes⟩ := plan
  cases nodes <;> rfl

/-- The code of the plan up to the first test, and that test. -/
theorem Plan.body_reporting {plan : Plan} {root : NodePlan} {rest : List NodePlan}
    (hnodes : plan.nodes = root :: rest) (name : String) (isScored : Bool) (ctx : TreeContext) :
    ∃ others, (plan.reporting name).body isScored ctx =
      (if plan.setup.isEmpty then [] else [Emit.orGiveUp (plan.setup.map Statement.expr)]) ++
        Emit.node { root with test := Emit.report name } ctx.options.nodeErrorLimit :: others := by
  obtain ⟨setup, nodes⟩ := plan
  obtain rfl : nodes = root :: rest := hnodes
  simp only [reporting, body, List.modifyHead_cons, List.map_cons, List.append_assoc,
    List.cons_append]
  exact ⟨_, rfl⟩

/-- Before its nodes the function has every variable but its own as the
statements leave it, and has not been stopped. -/
theorem Plan.exists_before_nodes {plan : Plan} (hreserved : plan.Has .reserved)
    (hexprs : ∀ statement ∈ plan.setup, statement.expr.FencedFrom Emit.ownNames)
    (hfences : machine.Fences {name | name ∈ Emit.ownNames})
    (hrun : Fragment.eval (plan.setup.map Statement.unflagged) machine = .ok value after) :
    ∃ final, final.env.reading Vars.stop = .bool false ∧
      (∀ name, name ∉ Emit.ownNames → final.env.reading name = after.env.reading name) ∧
      ∀ {rest outcome seen}, (∀ found, Expr.RunLeadsTo final found rest outcome seen) →
        ∀ found, Expr.RunLeadsTo ((machine.under .empty).under
            (.ofList (Emit.started plan.writes (machine.under .empty).env))) found
          ((if plan.setup.isEmpty then [] else [Emit.orGiveUp (plan.setup.map Statement.expr)]) ++
            rest) outcome seen := by
  obtain ⟨hcalled, -⟩ := Fragment.evalFrom_under (fun name _ => NameMap.get?_empty name)
    (fun statement hmem => hexprs statement hmem ∅) hfences hrun
  have hscope : ∀ other, other ∉ {name | name ∈ Emit.ownNames} →
      other ∉ {name | name ∈ Emit.copied plan.writes} →
        (NameMap.ofList (Emit.started plan.writes (machine.under .empty).env)).get? other = none :=
    fun other hown hcopy => Emit.get?_started_other hown hcopy
  have hover := @over_under _ _ _ hscope (machine.under .empty) (hfences.under _)
    fun other hother => Emit.get?_started_copied hreserved.apart hother
  obtain ⟨final, hfinal, hsetup⟩ := Emit.exists_runLeadsTo_setup
    (fun statement hmem => hexprs statement hmem ∅) hover hcalled
  refine ⟨final, ?_, fun name hname => ?_, hsetup⟩
  · have hcolumn := hfinal.column fun hcopy => hreserved.apart Vars.stop hcopy (by decide)
    rw [Emit.get?_started_stop hreserved.apart] at hcolumn
    rw [Environment.reading, ← Environment.readColumn_column, hcolumn]
    rfl
  · have hsame : final.env.reading name = (after.env.under .empty).reading name :=
      hfinal.read_eq fun hown => absurd hown hname
    rw [hsame, Environment.reading, Environment.get?_under_free (NameMap.get?_empty name)]
    rfl

/-- The function that reports a variable at its first test returns the value
that the statements leave. -/
theorem Plan.leadsTo_reporting {plan : Plan} {root : NodePlan} {rest : List NodePlan}
    (hnodes : plan.nodes = root :: rest) (hroot : root.isRoot = true)
    (hreserved : plan.Has .reserved)
    (hexprs : ∀ statement ∈ plan.setup, statement.expr.FencedFrom Emit.ownNames)
    (hfences : machine.Fences {name | name ∈ Emit.ownNames})
    (hrun : Fragment.eval (plan.setup.map Statement.unflagged) machine = .ok value after)
    {name : String} (hname : name ∉ "simp" :: Emit.ownNames) (isScored : Bool) :
    ∃ final, ((plan.reporting name).function isScored ctx).LeadsTo (machine.under .empty)
      (.ok (after.env.reading name)) final := by
  obtain ⟨site, hstop, hreadings, hsetup⟩ :=
    Plan.exists_before_nodes hreserved hexprs hfences hrun
  obtain ⟨later, hnode⟩ := Emit.evaluates_node_report hroot hstop hname ctx.options.nodeErrorLimit
  rw [hreadings name fun hown => hname (List.mem_cons_of_mem "simp" hown)] at hnode
  obtain ⟨others, hbody⟩ := Plan.body_reporting hnodes name isScored ctx
  have hleaves : Expr.RunLeadsTo ((machine.under .empty).under
      (.ofList (Emit.started plan.writes (machine.under .empty).env))) (.bool false)
      ((plan.reporting name).body isScored ctx)
      (.error (.returned (after.env.reading name))) { site with env := later } := by
    rw [hbody]
    exact hsetup (fun _ => .of_run fun _ => .cons_error (hnode _)) _
  have hlocals : ∀ limit, Expr.Declares { machine.under .empty with limit := limit }
      (machine.under .empty).env (Emit.locals (plan.reporting name).writes)
      (Emit.started plan.writes (machine.under .empty).env) := by
    rw [Plan.writes_reporting]
    exact fun _ => Emit.declares_locals plan.writes _
  exact ⟨_, .block hlocals hleaves rfl⟩

/-- What the first test sees.  The function of an accepted tree runs what was read
of the tree, the root first; with a test at the root that leaves the function
with what a variable holds, a call gives the value that the variable has after
the feedback variables themselves, their flags left out. -/
theorem first_test_sees_setup {compiled : Compiled}
    (hcompiled : (tree.compile ctx).1 = some compiled) {fragment : Fragment}
    (hparse : Fragment.parse tree.feedbackVariables = .ok fragment)
    (hwrites : ∀ source ∈ tree.fragments, ∀ name ∈ fragmentWrites source, name ∉ Emit.ownNames)
    (hfresh : ∀ statement ∈ fragment, statement.expr.Omits Emit.ownNames)
    (hfences : machine.Fences {name | name ∈ Emit.ownNames})
    (hrun : Fragment.eval (fragment.map Statement.unflagged) machine = .ok value after) :
    ∃ traversal, tree.walk = .ok traversal ∧
      compiled = tree.assemble ctx traversal (tree.readPlan ctx traversal) ∧
      (∃ root rest, (tree.readPlan ctx traversal).nodes = root :: rest ∧ root.isRoot = true) ∧
      ∀ name, name ∉ "simp" :: Emit.ownNames → ∀ fuel start, machine.Alike start →
        (∀ spent, applyClosure (Expr.evalWithin fuel) compiled.function
            ⟨[], ((tree.readPlan ctx traversal).reporting name).function tree.isScored ctx⟩ []
            start ≠ .error .gasExhausted spent) →
        ∃ final, applyClosure (Expr.evalWithin fuel) compiled.function
            ⟨[], ((tree.readPlan ctx traversal).reporting name).function tree.isScored ctx⟩ []
            start = .ok (after.env.reading name) final := by
  obtain ⟨traversal, hwalk, hfrom, hassembled⟩ := exists_readPlan hcompiled
  obtain ⟨root, rest, hnodes, hroot⟩ := exists_root ctx hwalk
  obtain rfl : (tree.readPlan ctx traversal).setup = fragment :=
    Except.ok.inj (hfrom.setup.symm.trans hparse)
  refine ⟨traversal, hwalk, hassembled, ⟨root, rest, hnodes, hroot⟩, ?_⟩
  intro name hname fuel start hstart hgas
  obtain ⟨last, hleads⟩ := Plan.leadsTo_reporting hnodes hroot
    (hfrom.has (reserved_offered hwrites))
    (fun statement hmem => (hfresh statement hmem).fencedFrom) hfences hrun hname tree.isScored
  rcases Expr.leads_applyClosure compiled.function hleads fuel start hstart with
    ⟨spent, hspent⟩ | ⟨_, final, ⟨⟩, -, hend⟩
  · exact absurd hspent (hgas spent)
  · exact ⟨final, hend⟩

/-- A tree whose feedback variables call a function, define one and use it. -/
def preparingTree : ResponseTree :=
  { assigningTree with feedbackVariables := "y: g(); h(x) := x + y; z: h(2), simp = false" }

/-- A machine with a function `g` that gives 5. -/
def givingMachine : Machine :=
  { Machine.fresh 1000 with functions := NameMap.empty.insert "g" ⟨[], .number "5"⟩ }

/-- Do the feedback variables of `preparingTree` leave 7 in `z`, and is there an
end to the function that reports it? -/
def comesToReport : Bool :=
  match (preparingTree.compile assigningContext).1, preparingTree.walk,
    Fragment.parse preparingTree.feedbackVariables with
  | some compiled, .ok traversal, .ok fragment =>
      decide (∀ statement ∈ fragment, statement.expr.Omits Emit.ownNames) &&
        (match Fragment.eval (fragment.map Statement.unflagged) givingMachine with
        | .ok _ after =>
            match after.env.reading "z" with
            | .int n => n == 7
            | _ => false
        | .error _ _ => false) &&
        !endsAtBudget (applyClosure (Expr.evalWithin 1000) compiled.function
          ⟨[], ((preparingTree.readPlan assigningContext traversal).reporting "z").function
            preparingTree.isScored assigningContext⟩ [] givingMachine)
  | _, _, _ => false

/-- The first test of `preparingTree` would read 7 from `z`. -/
theorem preparingTree_first_test : ∃ compiled traversal final,
    (preparingTree.compile assigningContext).1 = some compiled ∧
      preparingTree.walk = .ok traversal ∧
      applyClosure (Expr.evalWithin 1000) compiled.function
        ⟨[], ((preparingTree.readPlan assigningContext traversal).reporting "z").function
          preparingTree.isScored assigningContext⟩ [] givingMachine = .ok (.int 7) final := by
  have hcomes : comesToReport = true := by decide +kernel
  have hfences : givingMachine.Fences {name | name ∈ Emit.ownNames} := by
    apply fences_of_omits
    intro name function hfunction
    rw [NameMap.eq_of_get?_single hfunction]
    decide +kernel
  unfold comesToReport at hcomes
  split at hcomes
  · next compiled traversal fragment hcompiled hwalk hparse =>
      simp only [Bool.and_eq_true, decide_eq_true_eq, Bool.not_eq_true'] at hcomes
      obtain ⟨⟨hfresh, hvalue⟩, hends⟩ := hcomes
      split at hvalue
      · next value after hrun =>
          split at hvalue
          · next n hseven =>
              obtain ⟨found, hfound, -, -, hreports⟩ :=
                first_test_sees_setup hcompiled hparse (by decide +kernel) hfresh hfences hrun
              cases hwalk.symm.trans hfound
              obtain ⟨final, hfinal⟩ := hreports "z" (by decide) 1000 givingMachine (.refl _)
                (ne_exhausted hends)
              rw [hseven, beq_iff_eq.mp hvalue] at hfinal
              exact ⟨compiled, traversal, final, hcompiled, hwalk, hfinal⟩
          · cases hvalue
      · cases hvalue
  · cases hcomes

/-- A tree whose feedback variables ask for `simp` under a flag, and whose first
test leaves with what they were told. -/
def flaggedTree : ResponseTree :=
  { assigningTree with
    feedbackVariables := "y: simp, simp = false"
    nodes := [⟨"a", "Same", "return(y)", "2", "", false, .plain, .plain⟩] }

/-- Is `y` false after the feedback variables of `flaggedTree`, and does the
function of the tree give true? -/
def ignoresFlag : Bool :=
  match (flaggedTree.compile assigningContext).1 with
  | none => false
  | some compiled =>
      (match runText flaggedTree.feedbackVariables compiled.inMachine with
      | .ok _ after =>
          match after.env.reading "y" with
          | .bool false => true
          | _ => false
      | .error _ _ => false) &&
        match invoke compiled.function [] compiled.inMachine with
        | .ok (.bool true) _ => true
        | _ => false

/-- The flag holds when the feedback variables are run, but not in the function. -/
theorem flaggedTree_ignores_flag : ∃ compiled value after final,
    (flaggedTree.compile assigningContext).1 = some compiled ∧
      runText flaggedTree.feedbackVariables compiled.inMachine = .ok value after ∧
      after.env.reading "y" = .bool false ∧
      invoke compiled.function [] compiled.inMachine = .ok (.bool true) final := by
  have hignores : ignoresFlag = true := by decide +kernel
  unfold ignoresFlag at hignores
  split at hignores
  · cases hignores
  · next compiled hcompiled =>
      rw [Bool.and_eq_true] at hignores
      obtain ⟨hfalse, htrue⟩ := hignores
      split at hfalse
      · next value after hrun =>
          split at hfalse
          · next hreading =>
              split at htrue
              · next final hcall =>
                  exact ⟨compiled, value, after, final, hcompiled, hrun, hreading, hcall⟩
              · cases htrue
          · cases hfalse
      · cases hfalse

end ResponseTree

end SceneQuiz
