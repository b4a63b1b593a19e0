import SceneQuiz.Proofs.ResponseTree.Watching
/-!
How far the function of a response tree has come.  At every moment some nodes
have been visited, each with an outcome, and the path holds their marks.  As long
as the function goes on, only feedback variables, tests and scores of visited
nodes may have assigned names of the author.  Once it has stopped, the transition
code of the last visit may have done so too, and no further node is visited.
-/

namespace SceneQuiz

namespace ResponseTree

/-- Names that a text assigns as an expression. -/
def expressionWrites (source : String) : List String :=
  match Expr.parse source with
  | .ok e => e.usage.write.names
  | .error _ => []

/-- Names that a text assigns as statements. -/
def fragmentWrites (source : String) : List String :=
  match Fragment.parse source with
  | .ok code => (Fragment.usage code).write.names
  | .error _ => []

/-- Names that the arguments of the test of a node assign. -/
def Node.testWrites (node : Node) : List String :=
  [node.studentAnswer, node.teacherAnswer, node.options].flatMap expressionWrites

/-- A node and the outcome of its test. -/
structure Visit where
  node : Node
  outcome : Bool

namespace Visit

/-- The mark that a visit leaves on the path. -/
def token (visit : Visit) : String := pathToken visit.node.name visit.outcome

/-- The branch that is taken. -/
def branch (visit : Visit) : Branch := visit.node.branch visit.outcome

/-- Names that the score and the penalty of the branch assign. -/
def scoreWrites (visit : Visit) : List String :=
  (visit.branch.score.toList ++ visit.branch.penalty.toList).flatMap expressionWrites

/-- Names that the code assigns which runs when the branch leaves for a scene. -/
def leavingWrites (visit : Visit) : List String := fragmentWrites visit.branch.transitionCode

end Visit

/-- Names that feedback variables and the expressions of visited nodes assign. -/
def assignedAlong (tree : ResponseTree) (visits : List Visit) : List String :=
  fragmentWrites tree.feedbackVariables ++
    visits.flatMap fun visit => visit.node.testWrites ++ visit.scoreWrites

/-- Names that the transition code of the last visit assigns.  Visits stand in
reverse, as on the path. -/
def assignedLast (visits : List Visit) : List String :=
  (visits.head?.map Visit.leavingWrites).getD []

/-- Names that may have been assigned. -/
def touched (tree : ResponseTree) (visits : List Visit) (stopped : Bool) : List String :=
  tree.assignedAlong visits ++ if stopped then assignedLast visits else []

/-- The path that visits leave. -/
def trail (visits : List Visit) : Value := .list (visits.map fun visit => .str visit.token)

/-- What the variables of the function tell about the visits. -/
def marks (visits : List Visit) (stopped : Bool) : List (String × Value) :=
  [(Vars.path, trail visits), (Vars.stop, .bool stopped), (Vars.updates, .list [])]

/-- The variables after some visits. -/
def Stage (tree : ResponseTree) (pool : Set String) (before : Environment) (visits : List Visit)
    (stopped : Bool) : Environment → Prop :=
  Stands (marks visits stopped) {name | name ∈ pool ∧ name ∉ tree.touched visits stopped} before

/-- The variables after some visits, whether the function goes on or not. -/
def Visited (tree : ResponseTree) (pool : Set String) (before : Environment)
    (visits : List Visit) (env : Environment) : Prop :=
  ∃ stopped, tree.Stage pool before visits stopped env

/-- The variables after visits to nodes of the tree. -/
def Progress (tree : ResponseTree) (pool : Set String) (before env : Environment) : Prop :=
  ∃ visits, (∀ visit ∈ visits, visit.node ∈ tree.nodes) ∧ tree.Visited pool before visits env

/-- The code of a branch assigns no more than what the branch says. -/
structure BranchPlan.Sparing (setting : Setting) (pool : Set String) (visit : Visit)
    (plan : BranchPlan) : Prop where
  score : ∀ e ∈ plan.score, Emit.Sparing setting pool visit.scoreWrites e
  penalty : ∀ e ∈ plan.penalty, Emit.Sparing setting pool visit.scoreWrites e
  code : ∀ transition ∈ plan.transition, ∀ statement ∈ transition.code,
    Emit.Sparing setting pool visit.leavingWrites statement.expr
  feedback : ∀ e ∈ plan.feedback, Emit.Sparing setting pool [] e

/-- The code of a node assigns no more than what the node says. -/
structure NodePlan.Sparing (setting : Setting) (pool : Set String) (node : Node)
    (plan : NodePlan) : Prop where
  name : plan.name = node.name
  test : Emit.Sparing setting pool node.testWrites plan.test
  branch : ∀ outcome, (plan.branch outcome).Sparing setting pool ⟨node, outcome⟩

open Eval

variable {tree : ResponseTree} {setting : Setting} {pool : Set String} {before : Environment}
  {bound fuel : Nat} {visits : List Visit} {visit : Visit} {node : Node}

theorem mem_assignedAlong_cons {name : String} :
    name ∈ tree.assignedAlong (visit :: visits) ↔ name ∈ visit.node.testWrites ∨
      name ∈ visit.scoreWrites ∨ name ∈ tree.assignedAlong visits := by
  simp only [assignedAlong, List.flatMap_cons, List.mem_append]
  rw [or_left_comm, or_assoc]

theorem assignedAlong_subset_touched (stopped : Bool) :
    tree.assignedAlong visits ⊆ tree.touched visits stopped :=
  fun _ hname => List.mem_append_left _ hname

/-- Stopping after the visits that there were. -/
theorem Stage.stop {env : Environment} (h : tree.Stage pool before visits false env)
    (hpool : Vars.stop ∉ pool) :
    tree.Stage pool before visits true (env.assign Vars.stop (.bool true)) := by
  let rest : List (String × Value) := [(Vars.path, trail visits), (Vars.updates, .list [])]
  have hrest : Stands rest {name | name ∈ pool ∧ name ∉ tree.touched visits true} before env := by
    apply h.weaken
    · simp [rest, marks]
    · exact fun name hname => ⟨hname.1, fun hmem => hname.2 (by simp_all [touched])⟩
  have hstopped := hrest.learn (by simp [rest, Vars.stop, Vars.path, Vars.updates])
    (fun hmem => hpool hmem.1) (.bool true)
  apply hstopped.weaken _ fun _ hname => hname
  simp [rest, marks]

/-- The test of a node may have assigned what it assigns, but has left no mark. -/
def Tested (tree : ResponseTree) (pool : Set String) (before : Environment) (visits : List Visit)
    (node : Node) : Environment → Prop :=
  Stands (marks visits false)
    {name | name ∈ pool ∧ name ∉ node.testWrites ++ tree.assignedAlong visits} before

theorem Stage.tested {env : Environment} (h : tree.Stage pool before visits false env)
    (node : Node) : tree.Tested pool before visits node env := by
  apply h.weaken (fun _ hfact => hfact)
  intro name hname
  refine ⟨hname.1, fun hmem => hname.2 (List.mem_append_right _ ?_)⟩
  simpa [touched] using hmem

/-- The test of a node is over, and its outcome is on the path. -/
def Marked (tree : ResponseTree) (pool : Set String) (before : Environment) (visits : List Visit)
    (visit : Visit) : Environment → Prop :=
  Stands ((Vars.outcome, .bool visit.outcome) :: marks (visit :: visits) false)
    {name | name ∈ pool ∧ name ∉ visit.node.testWrites ++ tree.assignedAlong visits} before

theorem Marked.stage {env : Environment} (h : tree.Marked pool before visits visit env) :
    tree.Stage pool before (visit :: visits) false env := by
  apply h.weaken
  · exact fun _ hfact => List.mem_cons_of_mem _ hfact
  · intro name hname
    refine ⟨hname.1, fun hmem => hname.2 (assignedAlong_subset_touched false ?_)⟩
    rw [mem_assignedAlong_cons]
    exact (List.mem_append.mp hmem).imp_right .inr

namespace Emit

theorem Watches.stop_not_mem (h : Watches setting pool) : Vars.stop ∉ pool := fun hmem =>
  h.apart _ hmem (by decide)

/-- Variables of the function that tell nothing about the visits. -/
abbrev Unmarked (name : String) : Prop :=
  name ∈ "simp" :: ownNames ∧ name ∉ [Vars.path, Vars.stop, Vars.updates]

/-- The function upholds a stage where code assigns what was touched already. -/
theorem Watches.stage (h : Watches setting pool) {stopped : Bool} {written : List String}
    (hwritten : written ⊆ tree.touched visits stopped) :
    Upholds setting bound (tree.Stage pool before visits stopped) Unmarked (fun _ => True)
      (Sparing setting pool written) := by
  apply h.upholds
  · change ∀ name ∈ [Vars.path, Vars.stop, Vars.updates], name ∈ markNames
    decide
  · exact fun name hname => ⟨hname.1, fun hmem => hname.2 (hwritten hmem)⟩

/-- Statements that keep to every stage. -/
theorem Watches.visited (h : Watches setting pool) {items : List Expr}
    (hitems : ∀ {known}, Upholds setting bound known Unmarked (fun _ => True)
      (Sparing setting pool []) → SteadyAll setting bound known items) :
    SteadyAll setting bound (tree.Visited pool before visits) items :=
  steadyAll_exists fun _ => hitems (h.stage (List.nil_subset _))

/-- `if outcome then "name-T" else "name-F"` -/
def token (name : String) : Expr :=
  .ifThen (.ident Vars.outcome) (.str (pathToken name true)) (some (.str (pathToken name false)))

section Branches

variable (hwatches : Watches setting pool)

include hwatches

/-- Leaving for a scene stops the function before any code of the transition
runs. -/
theorem brings_transition {found : Option Transition}
    (hcode : ∀ transition ∈ found, ∀ statement ∈ transition.code,
      Sparing setting pool visit.leavingWrites statement.expr) (last : Value) :
    Brings setting (tree.Stage pool before (visit :: visits) false)
      (fun _ => tree.Visited pool before (visit :: visits))
      (tree.Visited pool before (visit :: visits)) (fun value _ => value = .list [])
      (sequence (Expr.evalWithin fuel) last ((found.map transition).getD [])) := by
  have hfuel : fuel < fuel + 1 := Nat.lt_succ_self fuel
  cases found with
  | none => exact .value fun _ hstage => ⟨false, hstage⟩
  | some found =>
      have hrunning : Upholds setting (fuel + 1) (tree.Stage pool before (visit :: visits) false) _
        _ (Sparing setting pool []) := hwatches.stage (List.nil_subset _)
      have hstopped : Upholds setting (fuel + 1) (tree.Stage pool before (visit :: visits) true) _
        _ (Sparing setting pool visit.leavingWrites) :=
        hwatches.stage (List.subset_append_right _ _)
      have hscene : Steady setting (fuel + 1) (tree.Stage pool before (visit :: visits) false)
        (.assign Vars.nextScene (.str found.target)) := hrunning.forms.scene trivial
      have hstatements := hstopped.forms.all (List.forall_mem_map.mpr fun statement hmem =>
        hstopped.forms.planned (hcode found rfl statement hmem))
      apply Brings.sequence_cons (hscene.brings hfuel fun _ hstage => ⟨false, hstage⟩)
      intro _
      have hstop : Brings setting (tree.Stage pool before (visit :: visits) false)
          (fun _ => tree.Stage pool before (visit :: visits) true)
          (tree.Visited pool before (visit :: visits)) (fun value _ => value = .list [])
          ((Expr.assign Vars.stop (.bool true)).evalWithin fuel) := by
        apply Brings.assign fun _ _ => Brings.bool true
        rintro _ env ⟨hstage, rfl⟩
        exact hstage.stop hwatches.stop_not_mem
      apply Brings.sequence_cons hstop
      intro last
      apply (hstatements.brings hfuel (fun _ hstage => ⟨true, hstage⟩) last).giving
      exact fun _ _ hstage => ⟨true, hstage⟩

/-- What a branch does, up to an error if there is one.  The error may come before
the function is stopped or after it, so of a branch that fails it is only known that
the visit took place. -/
theorem brings_branchStatements {plan : BranchPlan} (hplan : plan.Sparing setting pool visit) :
    Brings setting (tree.Stage pool before (visit :: visits) false)
      (fun _ => tree.Visited pool before (visit :: visits))
      (tree.Visited pool before (visit :: visits)) (fun value _ => value = .list [])
      (sequence (Expr.evalWithin fuel) (.bool false)
        (branchStatements plan ++ [Expr.bool true])) := by
  have hfuel : fuel < fuel + 1 := Nat.lt_succ_self fuel
  have hscores : visit.scoreWrites ⊆ tree.touched (visit :: visits) false := fun name hname =>
    assignedAlong_subset_touched false (mem_assignedAlong_cons.mpr (.inr (.inl hname)))
  have hrunning : Upholds setting (fuel + 1) (tree.Stage pool before (visit :: visits) false) _ _
    (Sparing setting pool visit.scoreWrites) := hwatches.stage hscores
  have hscored : SteadyAll setting (fuel + 1) (tree.Stage pool before (visit :: visits) false)
      ((plan.score.map (Expr.assign Vars.score)).toList ++
        (plan.penalty.map (Expr.assign Vars.penalty)).toList) :=
    hrunning.forms.append
      (hrunning.forms.all (hrunning.forms.assigned (by decide) hplan.score))
      (hrunning.forms.all (hrunning.forms.assigned (by decide) hplan.penalty))
  have hshown : SteadyAll setting (fuel + 1) (tree.Visited pool before (visit :: visits))
      ((plan.feedback.map (appendTo Vars.feedback)).toList ++ [Expr.bool true]) :=
    hwatches.visited fun hupholds => hupholds.forms.append
      (hupholds.forms.all (hupholds.forms.shown (by decide) hplan.feedback))
      (hupholds.forms.one (hupholds.forms.bool true))
  have hwhole := Brings.sequence_append
    (Brings.sequence_append (hscored.brings hfuel fun _ hstage => ⟨false, hstage⟩)
      (brings_transition hwatches hplan.code))
    (hshown.brings hfuel fun _ hvisited => hvisited) (.bool false)
  simpa only [branchStatements, List.append_assoc] using hwhole

/-- A branch traps an error and counts it. -/
theorem brings_branch {plan : BranchPlan} (hplan : plan.Sparing setting pool visit)
    (path : Locator) :
    Proceeds setting (tree.Stage pool before (visit :: visits) false)
      (fun _ => tree.Visited pool before (visit :: visits))
      (((branch plan path).getD (.bool false)).evalWithin fuel) := by
  unfold branch
  split
  · apply (Brings.bool false).giving
    exact fun _ _ hstage => ⟨false, hstage.1⟩
  · apply Brings.group
    intro less hless
    have hassigned : ∀ env, tree.Visited pool before (visit :: visits) env → ∀ value,
        tree.Visited pool before (visit :: visits) (env.assign Vars.branchResult value) := by
      rintro env ⟨stopped, hstage⟩ value
      have hupholds : Upholds setting fuel (tree.Stage pool before (visit :: visits) stopped)
        Unmarked (fun _ => True) (Sparing setting pool []) := hwatches.stage (List.nil_subset _)
      exact ⟨stopped, hupholds.assigned (by decide) hstage value⟩
    have htrapped : ∀ less < fuel, Proceeds setting (tree.Stage pool before (visit :: visits) false)
        (fun _ => tree.Visited pool before (visit :: visits))
        ((Expr.call "errcatch" (branchStatements plan ++ [Expr.bool true])).evalWithin less) := by
      intro less _
      apply Brings.of_step
      intro _ _
      exact Brings.trapped (brings_branchStatements hwatches hplan)
        (fun _ _ hvisited => hvisited) fun _ hvisited => hvisited
    have herror : SteadyAll setting fuel (tree.Visited pool before (visit :: visits)) _ :=
      hwatches.visited fun hupholds =>
        hupholds.forms.one (hupholds.forms.branchError (by decide) path)
    apply Brings.sequence_cons
    · apply Brings.assign fun fewer hfewer => htrapped fewer (hfewer.trans hless)
      exact fun value env hvisited => hassigned env hvisited value
    · exact herror.brings hless fun _ _ => trivial

/-- The branch of the outcome is the one that is taken. -/
theorem brings_takeBranch {plan : NodePlan} (hplan : plan.Sparing setting pool visit.node)
    (path : Locator) (last : Value) :
    Proceeds setting (tree.Marked pool before visits visit)
      (fun _ => tree.Visited pool before (visit :: visits))
      (sequence (Expr.evalWithin fuel) last (takeBranch plan path)) := by
  have hside : ∀ outcome, ∀ less < fuel, Proceeds setting
      (fun env => tree.Marked pool before visits visit env ∧
        .bool outcome = env.reading Vars.outcome)
      (fun _ => tree.Visited pool before (visit :: visits))
      (((branch (plan.branch outcome) (path ++ [Segment.branch outcome])).getD
        (.bool false)).evalWithin less) := by
    intro outcome less _
    apply Brings.of_each
    rintro start ⟨hmarked, hread⟩
    have hfact := hmarked.facts _ List.mem_cons_self
    rw [← hread] at hfact
    injection hfact with hsame
    subst hsame
    apply (brings_branch hwatches (hplan.branch visit.outcome) _).starting
    rintro _ rfl
    exact hmarked.stage
  unfold takeBranch
  dsimp only
  split
  · have hchoice : Proceeds setting (tree.Marked pool before visits visit)
        (fun _ => tree.Visited pool before (visit :: visits))
        ((Expr.ifThen (.ident Vars.outcome)
          ((branch plan.onTrue (path ++ [Segment.branch true])).getD (.bool false))
          (some ((branch plan.onFalse (path ++ [Segment.branch false])).getD
            (.bool false)))).evalWithin fuel) := by
      apply Brings.ifThen (fun _ _ => Brings.ident Vars.outcome) (fun _ _ _ => trivial)
        (hside true)
      · rintro _ ⟨⟩
        exact hside false
      · exact nofun
    exact hchoice.bind fun _ => .value fun _ hvisited => hvisited
  · exact .value fun _ hmarked => ⟨false, hmarked.stage⟩

omit hwatches in
/-- The text that is put on the path for the outcome. -/
theorem brings_token (start : Environment) (name : String) :
    Proceeds setting (· = start) (fun found env => env = start ∧ ∃ outcome,
        start.reading Vars.outcome = .bool outcome ∧ found = .str (pathToken name outcome))
      ((token name).evalWithin fuel) := by
  have hside : ∀ outcome less, Proceeds setting
      (fun env => env = start ∧ .bool outcome = env.reading Vars.outcome)
      (fun found env => env = start ∧ ∃ outcome,
        start.reading Vars.outcome = .bool outcome ∧ found = .str (pathToken name outcome))
      ((Expr.str (pathToken name outcome)).evalWithin less) := by
    intro outcome less
    apply (Brings.str _).giving
    rintro _ _ ⟨⟨rfl, hread⟩, rfl⟩
    exact ⟨rfl, outcome, hread.symm, rfl⟩
  apply Brings.ifThen (fun _ _ => Brings.ident Vars.outcome) (fun _ _ _ => trivial)
    fun less _ => hside true less
  · rintro _ ⟨⟩
    exact fun less _ => hside false less
  · exact nofun

/-- The path with the text for the outcome in front. -/
theorem brings_extended {start : Environment} {items : List Value}
    (hpath : start.reading Vars.path = .list items) (name : String) :
    Proceeds setting (· = start) (fun found env => env = start ∧ ∃ outcome,
        start.reading Vars.outcome = .bool outcome ∧
          found = .list (.str (pathToken name outcome) :: items))
      ((Expr.call "cons" [token name, .ident Vars.path]).evalWithin fuel) := by
  have hread : ∀ less, Proceeds setting (· = start)
      (fun found env => env = start ∧ found = .list items)
      ((Expr.ident Vars.path).evalWithin less) := by
    intro less
    apply (Brings.ident Vars.path).giving
    rintro found env ⟨rfl, hfound⟩
    exact ⟨rfl, hfound.trans hpath⟩
  apply Brings.builtin (rfl : Builtin.ofName? "cons" = some .cons) (by decide) hwatches.plain
    (fun less _ => Brings.two (brings_token start name) (hread less)) _ fun _ _ _ => trivial
  rintro _ env value ⟨heq, _, _, rfl, ⟨outcome, houtcome, rfl⟩, rfl⟩ hvalue
  cases hvalue
  exact ⟨heq, outcome, houtcome, rfl⟩

/-- The outcome of a test is put on the path. -/
theorem brings_mark :
    Proceeds setting (tree.Tested pool before visits node)
      (fun _ env => ∃ outcome, tree.Marked pool before visits ⟨node, outcome⟩ env)
      ((Expr.assign Vars.path
        (.call "cons" [token node.name, .ident Vars.path])).evalWithin fuel) := by
  apply Brings.of_each
  intro start hstart
  have hpath := hstart.facts _ List.mem_cons_self
  apply Brings.assign fun less _ => brings_extended hwatches hpath node.name
  rintro _ env ⟨rfl, outcome, houtcome, rfl⟩
  refine ⟨outcome, ?_⟩
  have hrest : Stands [(Vars.outcome, .bool outcome), (Vars.stop, .bool false),
      (Vars.updates, .list [])] _ before env :=
    ⟨List.forall_mem_cons.mpr ⟨houtcome, fun fact hfact =>
      hstart.facts fact (List.mem_cons_of_mem _ hfact)⟩, hstart.watched⟩
  have hmarked := hrest.learn (by decide : Vars.path ∉ [Vars.outcome, Vars.stop, Vars.updates])
    (fun hmem => hwatches.apart _ hmem.1 (by decide)) (trail (⟨node, outcome⟩ :: visits))
  apply hmarked.weaken _ fun _ hname => hname
  simp [marks]

omit hwatches in
/-- Once the function has stopped, no guard lets a node run. -/
theorem brings_guard_stopped (isRoot : Bool) (entries : List String) :
    Proceeds setting (tree.Stage pool before visits true)
      (fun found env => tree.Stage pool before visits true env ∧ found = .bool false)
      ((guard isRoot entries).evalWithin fuel) := by
  have hrunning : ∀ less, Proceeds setting (tree.Stage pool before visits true)
      (fun found env => tree.Stage pool before visits true env ∧ found = .bool false)
      ((Expr.not (.ident Vars.stop)).evalWithin less) := by
    intro less
    apply Brings.of_step
    intro fewer _
    apply (Brings.condition (Brings.ident Vars.stop) fun _ _ _ => trivial).bind
    intro stopped
    apply Brings.value
    rintro env ⟨hstage, hread⟩
    have hstop : env.reading Vars.stop = .bool true :=
      hstage.facts (Vars.stop, .bool true) (by simp [marks])
    rw [hstop] at hread
    cases hread
    exact ⟨hstage, rfl⟩
  unfold guard
  dsimp only
  split
  · exact hrunning fuel
  · apply Brings.of_step
    intro less _
    apply (Brings.condition (hrunning less) fun _ _ _ => trivial).bind
    intro running
    cases running with
    | false => exact .value fun _ hstage => hstage
    | true =>
        apply Brings.of_each
        rintro _ ⟨-, hnever⟩
        cases hnever

/-- The test of a node, its mark and what else is recorded of it. -/
theorem brings_recorded {plan : NodePlan} (hplan : plan.Sparing setting pool node)
    (path : Locator) (last : Value) :
    Proceeds setting (tree.Stage pool before visits false)
      (fun _ env => ∃ outcome, tree.Marked pool before visits ⟨node, outcome⟩ env)
      (sequence (Expr.evalWithin fuel) last
        (runTest plan.test path ++ recordOutcome plan.name plan.quiet)) := by
  have hfuel : fuel < fuel + 1 := Nat.lt_succ_self fuel
  have hwritten : ∀ name ∈ {name | name ∈ pool ∧
      name ∉ node.testWrites ++ tree.assignedAlong visits}, name ∈ pool ∧ name ∉ node.testWrites :=
    fun name hname => ⟨hname.1, fun hmem => hname.2 (List.mem_append_left _ hmem)⟩
  have htested : Upholds setting (fuel + 1) (tree.Tested pool before visits node) Unmarked
      (fun _ => True) (Sparing setting pool node.testWrites) := by
    apply hwatches.upholds _ hwritten
    change ∀ name ∈ [Vars.path, Vars.stop, Vars.updates], name ∈ markNames
    decide
  have hmarked : ∀ outcome, Upholds setting (fuel + 1)
      (tree.Marked pool before visits ⟨node, outcome⟩)
      (fun name => name ∈ "simp" :: ownNames ∧
        name ∉ [Vars.outcome, Vars.path, Vars.stop, Vars.updates]) (fun _ => True)
      (Sparing setting pool node.testWrites) := by
    intro outcome
    apply hwatches.upholds _ hwritten
    change ∀ name ∈ [Vars.outcome, Vars.path, Vars.stop, Vars.updates], name ∈ markNames
    decide
  have htest := htested.forms.runTest hplan.test (by decide) path
  have hjudged := htested.forms.judged (by decide)
  have hnoted : SteadyAll setting (fuel + 1)
      (fun env => ∃ outcome, tree.Marked pool before visits ⟨node, outcome⟩ env) _ :=
    steadyAll_exists fun outcome => (hmarked outcome).forms.all
      ((hmarked outcome).forms.noted (by decide) plan.name plan.quiet)
  apply Brings.sequence_append
  · exact fun last => (htest.brings hfuel (fun _ _ => trivial) last).starting
      fun _ hstage => hstage.tested node
  · intro last
    apply Brings.sequence_cons (hjudged.brings hfuel fun _ _ => trivial)
    intro _
    rw [hplan.name] at hnoted ⊢
    apply Brings.sequence_cons (brings_mark hwatches)
    exact hnoted.brings hfuel fun _ _ => trivial

/-- A node that runs is one more visit. -/
theorem brings_visit {plan : NodePlan} (hplan : plan.Sparing setting pool node) (path : Locator)
    (errorLimit : Nat) :
    Proceeds setting (tree.Stage pool before visits false)
      (fun _ env => ∃ outcome, tree.Visited pool before (⟨node, outcome⟩ :: visits) env)
      ((Expr.group (runTest plan.test path ++ recordOutcome plan.name plan.quiet ++
        takeBranch plan path ++
        [Expr.ifThen (.binary .greater (.ident Vars.nodeErrors) (.int errorLimit)) giveUp
          none])).evalWithin fuel) := by
  apply Brings.group
  intro less hless
  have hlimit : SteadyAll setting fuel
      (fun env => ∃ outcome, tree.Visited pool before (⟨node, outcome⟩ :: visits) env) _ :=
    steadyAll_exists fun outcome => hwatches.visited fun hupholds =>
      hupholds.forms.one (hupholds.forms.limit errorLimit)
  have hbranch : ∀ last, Proceeds setting
      (fun env => ∃ outcome, tree.Marked pool before visits ⟨node, outcome⟩ env)
      (fun _ env => ∃ outcome, tree.Visited pool before (⟨node, outcome⟩ :: visits) env)
      (sequence (Expr.evalWithin less) last (takeBranch plan path)) := by
    intro last
    apply Brings.of_exists
    intro outcome
    apply (brings_takeBranch hwatches hplan path last).giving
    exact fun _ _ hvisited => ⟨outcome, hvisited⟩
  exact Brings.sequence_append
    (Brings.sequence_append (brings_recorded hwatches hplan path) hbranch)
    (hlimit.brings hless fun _ _ => trivial) (.bool false)

/-- A node is visited once more, or everything stays as it is. -/
theorem brings_node {plan : NodePlan} (hplan : plan.Sparing setting pool node)
    (hnode : node ∈ tree.nodes) (errorLimit : Nat) :
    Proceeds setting (tree.Progress pool before) (fun _ => tree.Progress pool before)
      ((Emit.node plan errorLimit).evalWithin fuel) := by
  apply Brings.of_each
  rintro start ⟨visits, hvisits, stopped, hstart⟩
  have hcourse : Proceeds setting (tree.Stage pool before visits stopped)
      (fun _ => tree.Progress pool before)
      ((Emit.node plan errorLimit).evalWithin fuel) := by
    cases stopped with
    | true =>
        apply Brings.ifThen (fun less _ => brings_guard_stopped plan.isRoot plan.entries)
          fun _ _ _ => trivial
        · intro _ _
          apply Brings.of_each
          rintro _ ⟨-, hnever⟩
          cases hnever
        · exact nofun
        · exact fun _ env hstage => ⟨visits, hvisits, true, hstage.1⟩
    | false =>
        have hguard : Steady setting fuel (tree.Stage pool before visits false)
            (guard plan.isRoot plan.entries) := by
          have hupholds : Upholds setting fuel (tree.Stage pool before visits false) Unmarked
            (fun _ => True) (Sparing setting pool []) := hwatches.stage (List.nil_subset _)
          exact hupholds.forms.guard plan.isRoot plan.entries
        apply Brings.ifThen (fun less hless => hguard.brings hless fun _ _ => trivial)
          fun _ _ _ => trivial
        · intro less _
          apply (brings_visit hwatches hplan _ errorLimit).giving
          rintro _ env ⟨outcome, hvisited⟩
          exact ⟨_, List.forall_mem_cons.mpr ⟨hnode, hvisits⟩, hvisited⟩
        · exact nofun
        · exact fun _ env hstage => ⟨visits, hvisits, false, hstage⟩
  exact hcourse.starting fun _ heq => heq ▸ hstart

end Branches

end Emit

end ResponseTree

end SceneQuiz
