import SceneQuiz.Proofs.Machine.Trappable
import SceneQuiz.Proofs.ResponseTree.NodeRun
import SceneQuiz.Proofs.ResponseTree.Silent
/-!
Response trees that only score: their branches show nothing and run no code, but they
may change the score and the penalty.  As with silent trees, what is read of such a
tree can be written down, and with it the runs of the code of one node.

A test may raise an error, and so may the score or the penalty of the branch that is
taken; both are trapped, recorded and counted.  An account keeps what the visits have
come to, and the function gives up at a node with too many errors.
-/

namespace SceneQuiz

namespace ResponseTree

open Logged (Gives)

/-- A branch without feedback and code of its own. -/
structure Branch.OnlyScores (branch : Branch) : Prop where
  feedback : branch.feedback.isEmpty = true
  code : Fragment.parse branch.transitionCode = .ok []

/-- A tree whose branches only score, and that runs nothing before its first
test. -/
structure OnlyScores (tree : ResponseTree) : Prop where
  setup : Fragment.parse tree.feedbackVariables = .ok []
  branches : ∀ node ∈ tree.nodes, ∀ outcome, (node.branch outcome).OnlyScores

/-- The expression of a score that counts: there is one if the tree is scored
and the text is not blank. -/
def counted (tree : ResponseTree) (source : Option String) : Option Expr :=
  if tree.isScored then source.bind Logged.optional else none

/-- What is read of a branch that only scores. -/
def Branch.scoredPlan (tree : ResponseTree) (ctx : TreeContext)
    (branch : Branch) : BranchPlan where
  score :=
    (tree.counted branch.score).map (changedScore branch.scoreChange Vars.score)
  penalty := (tree.counted branch.penalty).map
    (changedScore branch.penaltyChange Vars.penalty)
  transition := (branch.exit.leavesFor? ctx.scene).map fun target => ⟨target, []⟩
  feedback := none

/-- What is read of a node whose branches only score. -/
def Node.scoredPlan (tree : ResponseTree) (ctx : TreeContext)
    (traversal : Traversal) (index : Nat) (node : Node) : NodePlan :=
  { node.silentPlan tree ctx traversal index with
    onTrue := node.onTrue.scoredPlan tree ctx
    onFalse := node.onFalse.scoredPlan tree ctx }

/-- What is read of a tree that only scores. -/
def scoredPlan (tree : ResponseTree) (ctx : TreeContext)
    (traversal : Traversal) : Plan where
  setup := []
  nodes := traversal.order.filterMap fun index =>
    tree.nodes[index]?.map (Node.scoredPlan tree ctx traversal index)

variable {tree : ResponseTree} {ctx : TreeContext} {traversal : Traversal}

theorem Node.branch_scoredPlan (node : Node) (index : Nat) (outcome : Bool) :
    (node.scoredPlan tree ctx traversal index).branch outcome =
      (node.branch outcome).scoredPlan tree ctx := by
  cases outcome <;> rfl

theorem Branch.OnlyScores.gives_planBranch {node : Node} {outcome : Bool}
    (h : (node.branch outcome).OnlyScores) (path : Locator) :
    Gives (planBranch tree ctx node outcome path)
      ((node.branch outcome).scoredPlan tree ctx) := by
  have hrest : ∀ score penalty below, Gives (do
      let transition ← planExit ctx node (node.branch outcome) below
      let feedback ← planFeedback ctx (node.branch outcome).feedback
        (below ++ [Segment.field "feedback"])
      return (⟨score, penalty, transition, feedback⟩ : BranchPlan))
      ⟨score, penalty, ((node.branch outcome).exit.leavesFor? ctx.scene).map
        fun target => ⟨target, []⟩, none⟩ := by
    intro score penalty below
    refine (gives_planExit _ h.code).bind ?_
    unfold planFeedback
    rw [if_pos h.feedback]
    exact (Gives.of_pure none).bind (.of_pure _)
  unfold planBranch Branch.scoredPlan counted
  cases tree.isScored with
  | true =>
      exact (gives_planScore _ _ _ _).bind
        ((gives_planScore _ _ _ _).bind (hrest _ _ _))
  | false =>
      exact (Gives.of_pure none).bind ((Gives.of_pure none).bind (hrest _ _ _))

theorem OnlyScores.gives_planNode (h : tree.OnlyScores) (index : Nat)
    {node : Node} (hnode : node ∈ tree.nodes) :
    Gives (planNode tree ctx traversal index node)
      (node.scoredPlan tree ctx traversal index) :=
  (gives_planTest node _).bind
    (((h.branches node hnode true).gives_planBranch _).bind
      (((h.branches node hnode false).gives_planBranch _).bind (.of_pure _)))

/-- A tree that only scores and compiles is assembled from its plan. -/
theorem OnlyScores.compile (h : tree.OnlyScores) {compiled : Compiled} {log : Log}
    (hcompile : tree.compile ctx = (some compiled, log)) :
    ∃ traversal, tree.walk = .ok traversal ∧
      compiled =
        tree.assemble ctx traversal (tree.scoredPlan ctx traversal) :=
  compile_of_gives
    (fun _ => gives_plan_of_nodes h.setup fun index _ hnode =>
      h.gives_planNode index hnode)
    hcompile

theorem codeless_scoredPlan : (tree.scoredPlan ctx traversal).Codeless := by
  refine .of_branches rfl ?_
  intro plan hplan outcome transition htaken
  simp only [scoredPlan, List.mem_filterMap, Option.map_eq_some_iff] at hplan
  obtain ⟨index, _, node, _, rfl⟩ := hplan
  rw [Node.branch_scoredPlan] at htaken
  obtain ⟨target, _, rfl⟩ := Option.map_eq_some_iff.mp htaken
  rfl

end ResponseTree

/-- An accumulator after a change by a value. -/
def ScoreChange.revise (change : ScoreChange) (current value : Value) :
    Except EvalError Value :=
  match change with
  | .set => .ok value
  | .add => Value.applyOperator .add current value
  | .subtract => Value.applyOperator .sub current value

theorem ScoreChange.isCatchable_revise {change : ScoreChange}
    {current value : Value} {error : EvalError}
    (h : change.revise current value = .error error) :
    error.isCatchable = true := by
  have hends : Trappable (change.revise current value) := by
    cases change with
    | set => trivial
    | add => exact Value.trappable_applyOperator .add current value
    | subtract => exact Value.trappable_applyOperator .sub current value
  rw [h] at hends
  exact hends

namespace ResponseTree

open SceneQuiz.Expr (Evaluates Run)

/-- How the code of a node ends: its test, and the score and the penalty of the
branch that is taken. -/
structure Conduct where
  verdict : Verdict
  score : Except EvalError Value
  penalty : Except EvalError Value

/-- The two accumulators. -/
structure Tally where
  score : Value
  penalty : Value

/-- An accumulator after a branch whose expression, if it has one, ends so. -/
def revised (code : Option Expr) (change : ScoreChange)
    (ending : Except EvalError Value) (current : Value) :
    Except EvalError Value :=
  match code with
  | none => .ok current
  | some _ => ending >>= change.revise current

/-- The accumulators after a branch, and whether it raises an error.  The score
comes first, so an error in it leaves the penalty alone. -/
def Tally.settle (tree : ResponseTree) (branch : Branch) (conduct : Conduct)
    (tally : Tally) : Tally × Bool :=
  match revised (tree.counted branch.score) branch.scoreChange conduct.score
      tally.score with
  | .error _ => (tally, true)
  | .ok score =>
      match revised (tree.counted branch.penalty) branch.penaltyChange
          conduct.penalty tally.penalty with
      | .error _ => (⟨score, tally.penalty⟩, true)
      | .ok penalty => (⟨score, penalty⟩, false)

/-- What the visits have come to so far. -/
structure Account extends Tally where
  /-- Places of errors, in the order they were met. -/
  errors : List Value
  /-- Errors of the node that was visited last. -/
  count : Nat
  /-- The largest number of errors of one node. -/
  most : Nat
  /-- Did the branch that was taken last raise an error? -/
  raised : Bool
  branchResult : Value

/-- The account of no visits. -/
def Account.start : Account :=
  ⟨⟨.int 0, .int 0⟩, [], 0, 0, false, .symbol Vars.branchResult⟩

/-- Where the error of a branch is recorded. -/
def branchLocator (index : Nat) (outcome : Bool) : Locator :=
  [.node index, .branch outcome]

/-- The account after a test. -/
def Account.tested (verdict : Verdict) (index : Nat) (account : Account) :
    Account :=
  { account with
    errors := account.errors ++
      if verdict.isRaised then [.str (testLocator index).text] else []
    count := verdict.errorCount }

/-- Does a branch have any code? -/
def Branch.acts (tree : ResponseTree) (branch : Branch) : Bool :=
  (tree.counted branch.score).isSome || (tree.counted branch.penalty).isSome ||
    branch.exit.isTransition

/-- The account after a branch that was taken. -/
def Account.took (tree : ResponseTree) (branch : Branch) (conduct : Conduct)
    (place : Locator) (account : Account) : Account :=
  let settled := account.toTally.settle tree branch conduct
  if settled.2 then
    { toTally := settled.1
      errors := account.errors ++ [.str place.text]
      count := account.count + 1
      most := max account.most (account.count + 1)
      raised := true
      branchResult := .list [] }
  else
    { toTally := settled.1
      errors := account.errors
      count := account.count
      most := max account.most account.count
      raised := false
      branchResult :=
        if branch.acts tree then .list [.bool true] else account.branchResult }

/-- The account after a visit. -/
def Account.visit (tree : ResponseTree) (conduct : Node → Conduct)
    (account : Account) (node : Node) : Account :=
  let verdict := (conduct node).verdict
  let index := (tree.indexOf? node.name).getD 0
  (account.tested verdict index).took tree (node.branch verdict.outcome)
    (conduct node) (branchLocator index verdict.outcome)

/-- A frame with the variables that the account is kept in. -/
def Account.frame (account : Account) (base : Frame) : Frame :=
  { base with
    score := account.score
    penalty := account.penalty
    errors := .list account.errors
    nodeErrors := .int account.count
    branchResult := account.branchResult }

/-- A scene that is left for by a branch that raises no error. -/
def Account.leavesFor? (account : Account) (scene : String) (branch : Branch) :
    Option String :=
  if account.raised then none else branch.exit.leavesFor? scene

variable {machine : Machine} {outer : Environment} {tree : ResponseTree}
  {ctx : TreeContext}

/-- An ending that a trap catches if it is an error. -/
def IsTrapped (ending : Except EvalError Value) : Prop :=
  ∀ error, ending = .error error → error.isCatchable = true

theorem isTrapped_revised {code : Option Expr} {change : ScoreChange}
    {ending : Except EvalError Value} {current : Value} (h : IsTrapped ending) :
    IsTrapped (revised code change ending current) := by
  intro error herror
  cases code with
  | none => cases herror
  | some code =>
      cases ending with
      | error other =>
          cases herror
          exact h error rfl
      | ok value => exact ScoreChange.isCatchable_revise herror

theorem evaluates_changedScore {frame : Frame} (slot : Slot)
    (change : ScoreChange) {code : Expr} {ending : Except EvalError Value}
    (hcode : code.Evaluates machine (outer.under frame.scope) ending
      (outer.under frame.scope)) :
    (changedScore change slot.name code).Evaluates machine
      (outer.under frame.scope) (ending >>= change.revise (frame.get slot))
      (outer.under frame.scope) := by
  cases change with
  | set => cases ending <;> exact hcode
  | add =>
      cases ending with
      | error error =>
          exact Expr.evaluates_operator_error rfl (evaluates_slot frame slot) hcode
      | ok value =>
          exact Expr.evaluates_operator rfl (evaluates_slot frame slot) hcode rfl
  | subtract =>
      cases ending with
      | error error =>
          exact Expr.evaluates_operator_error rfl (evaluates_slot frame slot) hcode
      | ok value =>
          exact Expr.evaluates_operator rfl (evaluates_slot frame slot) hcode rfl

/-- The statement that changes an accumulator, if there is one. -/
def revision (slot : Slot) (code : Option Expr) (change : ScoreChange) :
    List Expr :=
  ((code.map (changedScore change slot.name)).map (Expr.assign slot.name)).toList

theorem steps_revision {frame : Frame} (slot : Slot) {code : Option Expr}
    {change : ScoreChange} {ending : Except EvalError Value} {value : Value}
    (hcode : ∀ e, code = some e → e.Evaluates machine (outer.under frame.scope)
      ending (outer.under frame.scope))
    (hvalue : revised code change ending (frame.get slot) = .ok value) :
    Steps machine outer frame (revision slot code change) outer
      (frame.set slot value) := by
  cases code with
  | none =>
      cases hvalue
      have hsame : frame.set slot (frame.get slot) = frame := by
        cases slot <;> rfl
      rw [hsame]
      exact .nil
  | some code =>
      have hchanged := evaluates_changedScore slot change (hcode code rfl)
      rw [show (ending >>= change.revise (frame.get slot)) = .ok value
        from hvalue] at hchanged
      exact .cons (evaluates_set slot hchanged) .nil

theorem run_revision_error {frame : Frame} (slot : Slot) {code : Option Expr}
    {change : ScoreChange} {ending : Except EvalError Value} {error : EvalError}
    (hcode : ∀ e, code = some e → e.Evaluates machine (outer.under frame.scope)
      ending (outer.under frame.scope))
    (herror : revised code change ending (frame.get slot) = .error error)
    (last : Value) :
    Run machine (outer.under frame.scope) last (revision slot code change)
      (.error error) (outer.under frame.scope) := by
  cases code with
  | none => cases herror
  | some code =>
      have hchanged := evaluates_changedScore slot change (hcode code rfl)
      rw [show (ending >>= change.revise (frame.get slot)) = .error error
        from herror] at hchanged
      exact .cons_error (Expr.evaluates_assign_error hchanged)

/-- The expressions of a branch end as its conduct says, and change nothing. -/
structure Settles (machine : Machine) (tree : ResponseTree) (branch : Branch)
    (conduct : Conduct) (env : Tally → Environment) (tally : Tally) : Prop where
  score : ∀ code, tree.counted branch.score = some code →
    code.Evaluates machine (env tally) conduct.score (env tally)
  /-- The penalty sees the new score. -/
  penalty : ∀ score code,
    revised (tree.counted branch.score) branch.scoreChange conduct.score
        tally.score = .ok score →
      tree.counted branch.penalty = some code →
        code.Evaluates machine (env ⟨score, tally.penalty⟩) conduct.penalty
          (env ⟨score, tally.penalty⟩)
  scoreTrapped : IsTrapped conduct.score
  penaltyTrapped : IsTrapped conduct.penalty

/-- A frame with other accumulators. -/
def Frame.tallied (frame : Frame) (tally : Tally) : Frame :=
  { frame with score := tally.score, penalty := tally.penalty }

/-- The variables that an expression of a branch sees. -/
def tallyEnvironment (outer : Environment) (frame : Frame) (tally : Tally) :
    Environment :=
  outer.under (frame.tallied tally).scope

/-- The changes of the accumulators, as far as no error ends them. -/
theorem run_settle {branch : Branch} {conduct : Conduct} {frame : Frame}
    {tally after : Tally} (hframe : frame.tallied tally = frame)
    (hsettles : Settles machine tree branch conduct
      (tallyEnvironment outer frame) tally) {raised : Bool}
    (hafter : tally.settle tree branch conduct = (after, raised)) :
    if raised then ∃ error, error.isCatchable = true ∧ ∀ last,
      Run machine (outer.under frame.scope) last
        (revision .score (tree.counted branch.score) branch.scoreChange ++
          revision .penalty (tree.counted branch.penalty) branch.penaltyChange)
        (.error error) (outer.under (frame.tallied after).scope)
    else
      Steps machine outer frame
        (revision .score (tree.counted branch.score) branch.scoreChange ++
          revision .penalty (tree.counted branch.penalty) branch.penaltyChange)
        outer (frame.tallied after) := by
  have hscore : ∀ e, tree.counted branch.score = some e →
      e.Evaluates machine (outer.under frame.scope) conduct.score
        (outer.under frame.scope) := by
    intro e he
    have heval := hsettles.score e he
    rwa [tallyEnvironment, hframe] at heval
  have hread : frame.get .score = tally.score := by rw [← hframe]; rfl
  have hkept : frame.penalty = tally.penalty := by rw [← hframe]; rfl
  unfold Tally.settle at hafter
  cases hfirst : revised (tree.counted branch.score) branch.scoreChange
      conduct.score tally.score with
  | error error =>
      rw [hfirst] at hafter
      cases hafter
      refine ⟨error, isTrapped_revised hsettles.scoreTrapped error hfirst, ?_⟩
      intro last
      rw [hframe]
      exact (run_revision_error .score hscore (by rw [hread]; exact hfirst)
        last).append_error
  | ok score =>
      rw [hfirst] at hafter
      have hset : frame.set .score score = frame.tallied ⟨score, tally.penalty⟩ := by
        rw [← hkept]
        rfl
      have hsteps := steps_revision .score hscore (by rw [hread]; exact hfirst)
      rw [hset] at hsteps
      have hpenalty := hsettles.penalty score
      dsimp only at hafter
      cases hsecond : revised (tree.counted branch.penalty) branch.penaltyChange
          conduct.penalty tally.penalty with
      | error error =>
          rw [hsecond] at hafter
          cases hafter
          refine ⟨error, isTrapped_revised hsettles.penaltyTrapped error hsecond, ?_⟩
          intro last
          obtain ⟨value, hrun⟩ := hsteps last
          exact hrun.append (run_revision_error .penalty
            (fun e he => hpenalty e hfirst he) hsecond value)
      | ok penalty =>
          rw [hsecond] at hafter
          cases hafter
          exact hsteps.append (steps_revision .penalty
            (fun e he => hpenalty e hfirst he) hsecond)

/-- The statements that leave for a scene, if there is one. -/
def departure (target : Option String) : List Expr :=
  ((target.map fun target => Transition.mk target []).map Emit.transition).getD []

theorem branchStatements_scoredPlan (branch : Branch) :
    Emit.branchStatements (branch.scoredPlan tree ctx) =
      revision .score (tree.counted branch.score) branch.scoreChange ++
        revision .penalty (tree.counted branch.penalty) branch.penaltyChange ++
        departure (branch.exit.leavesFor? ctx.scene) :=
  List.append_nil _

theorem branchStatements_eq_nil_iff (branch : Branch) :
    Emit.branchStatements (branch.scoredPlan tree ctx) = [] ↔
      branch.acts tree = false := by
  have hrevision : ∀ slot (code : Option Expr) change,
      revision slot code change = [] ↔ code.isSome = false := by
    intro slot code change
    cases code <;> simp [revision]
  have hdeparture : departure (branch.exit.leavesFor? ctx.scene) = [] ↔
      branch.exit.isTransition = false := by
    cases branch.exit <;>
      simp [departure, Exit.leavesFor?, Exit.isTransition, Emit.transition]
  rw [branchStatements_scoredPlan, List.append_eq_nil_iff,
    List.append_eq_nil_iff, hrevision, hrevision, hdeparture, Branch.acts,
    Bool.or_eq_false_iff, Bool.or_eq_false_iff]

/-- The frame after leaving for a scene, or for none. -/
def Frame.departed (frame : Frame) : Option String → Frame
  | none => frame
  | some target => { frame with nextScene := .str target, stop := .bool true }

theorem steps_departure (frame : Frame) (target : Option String) :
    Steps machine outer frame (departure target) outer (frame.departed target) := by
  cases target with
  | none => exact .nil
  | some target =>
      exact .cons (evaluates_set .nextScene (Expr.evaluates_str target))
        (.cons (evaluates_set .stop (Expr.evaluates_bool true)) .nil)

/-- A branch without code leaves the account and the frame as they are. -/
theorem took_frame_of_not_acts {branch : Branch} (hacts : branch.acts tree = false)
    (conduct : Conduct) (place : Locator) (account : Account) (base : Frame)
    (scene : String) :
    (((account.took tree branch conduct place).frame base).departed
        ((account.took tree branch conduct place).leavesFor? scene branch)) =
      account.frame base := by
  simp only [Branch.acts, Bool.or_eq_false_iff, Option.isSome_eq_false_iff,
    Option.isNone_iff_eq_none] at hacts
  obtain ⟨⟨hscore, hpenalty⟩, hexit⟩ := hacts
  have hstays : branch.exit.leavesFor? scene = none := by
    cases hkind : branch.exit <;>
      simp [hkind, Exit.isTransition, Exit.leavesFor?] at hexit ⊢
  simp [Account.took, Tally.settle, revised, hscore, hpenalty, Branch.acts,
    hexit, Account.leavesFor?, hstays, Frame.departed, Account.frame]

/-- The code of a branch: its statements in a trap, and the record of an
error. -/
def trappedCode (statements : List Expr) (place : Locator) : List Expr :=
  [.assign Vars.branchResult (.call "errcatch" (statements ++ [.bool true])),
    .ifThen (Emit.isEmptyList (.ident Vars.branchResult))
      (.group [Emit.appendTo Vars.errors (.str place.text),
        Emit.increment Vars.nodeErrors]) none]

/-- An error in the code of a branch is trapped, recorded and counted. -/
theorem steps_trappedCode_error {statements : List Expr} {frame after : Frame}
    {error : EvalError} {errors : List Value} {count : Nat} (place : Locator)
    (hplain : machine.HasBuiltins) (hcatch : error.isCatchable = true)
    (hrun : Run machine (outer.under frame.scope) (.bool false) statements
      (.error error) (outer.under after.scope))
    (herrors : after.errors = .list errors) (hcount : after.nodeErrors = .int count)
    (hsmall : count + 1 < Decimal.twoPow 63) :
    Steps machine outer frame (trappedCode statements place) outer
      { after with
        branchResult := .list []
        errors := .list (errors ++ [Value.str place.text])
        nodeErrors := .int (count + 1 : Nat) } := by
  let trapped := after.set .branchResult (.list [])
  have hresult : (Expr.ident Vars.branchResult).Evaluates machine
      (outer.under trapped.scope) (.ok (.list [])) (outer.under trapped.scope) :=
    evaluates_slot trapped .branchResult
  have hrecord : Steps machine outer trapped
      [Emit.appendTo Vars.errors (.str place.text),
        Emit.increment Vars.nodeErrors] outer
      { after with
        branchResult := .list []
        errors := .list (errors ++ [Value.str place.text])
        nodeErrors := .int (count + 1 : Nat) } :=
    .cons (evaluates_appendTo .errors hplain herrors (Expr.evaluates_str place.text))
      (.cons (evaluates_increment .nodeErrors hcount hsmall) .nil)
  obtain ⟨value, hgroup⟩ := hrecord.group
  exact .cons
    (evaluates_set .branchResult
      (Expr.evaluates_errcatch_error hcatch hrun.append_error))
    (.cons (Expr.evaluates_ifThen (evaluates_isEmptyList hresult) hgroup) .nil)

/-- The code of a branch that raises no error leaves no record but its end. -/
theorem steps_trappedCode {statements : List Expr} {frame after : Frame}
    (place : Locator) (hsteps : Steps machine outer frame statements outer after) :
    Steps machine outer frame (trappedCode statements place) outer
      { after with branchResult := .list [.bool true] } := by
  let trapped := after.set .branchResult (.list [.bool true])
  obtain ⟨value, hrun⟩ := hsteps (.bool false)
  have hresult : (Expr.ident Vars.branchResult).Evaluates machine
      (outer.under trapped.scope) (.ok (.list [.bool true]))
      (outer.under trapped.scope) :=
    evaluates_slot trapped .branchResult
  exact .cons
    (evaluates_set .branchResult (Expr.evaluates_errcatch
      (hrun.append (.cons (Expr.evaluates_bool true) .nil))))
    (.cons (Expr.evaluates_ifThen_skip (evaluates_isEmptyList hresult)) .nil)

theorem branch_of_acts {branch : Branch} (hacts : branch.acts tree = true)
    (place : Locator) :
    Emit.branch (branch.scoredPlan tree ctx) place =
      some (.group (trappedCode
        (Emit.branchStatements (branch.scoredPlan tree ctx)) place)) := by
  unfold Emit.branch
  split
  · next hnone =>
      rw [branchStatements_eq_nil_iff, hacts] at hnone
      cases hnone
  · rfl

theorem branch_of_not_acts {branch : Branch} (hacts : branch.acts tree = false)
    (place : Locator) : Emit.branch (branch.scoredPlan tree ctx) place = none := by
  rw [Emit.branch, (branchStatements_eq_nil_iff branch).mpr hacts]

/-- The code of a branch settles its scores and leaves for its scene, unless an
error ends it. -/
theorem evaluates_taken (ctx : TreeContext) {branch : Branch} {conduct : Conduct}
    {account : Account} {base : Frame} (place : Locator)
    (hplain : machine.HasBuiltins) (hcount : account.count ≤ 1)
    (hsettles : Settles machine tree branch conduct
      (tallyEnvironment outer (account.frame base)) account.toTally) :
    ∃ value, ((Emit.branch (branch.scoredPlan tree ctx) place).getD
        (.bool false)).Evaluates machine (outer.under (account.frame base).scope)
      (.ok value)
      (outer.under (((account.took tree branch conduct place).frame base).departed
        ((account.took tree branch conduct place).leavesFor? ctx.scene
          branch)).scope) := by
  cases hacts : branch.acts tree with
  | false =>
      rw [took_frame_of_not_acts hacts, branch_of_not_acts hacts]
      exact ⟨_, Expr.evaluates_bool false⟩
  | true =>
      rw [branch_of_acts hacts, branchStatements_scoredPlan]
      refine Steps.group ?_
      obtain ⟨⟨after, raised⟩, hafter⟩ :
          ∃ settled, account.toTally.settle tree branch conduct = settled :=
        ⟨_, rfl⟩
      have hrun := run_settle rfl hsettles hafter
      simp only [Account.leavesFor?, Account.took, hafter, hacts]
      cases raised with
      | true =>
          obtain ⟨error, hcatch, hrun⟩ := hrun
          have hsmall : account.count + 1 < 0x8000000000000000 := by omega
          exact steps_trappedCode_error place hplain hcatch
            (hrun (.bool false)).append_error rfl rfl hsmall
      | false =>
          have hsteps := steps_trappedCode place (hrun.append (steps_departure
            ((account.frame base).tallied after)
            (branch.exit.leavesFor? ctx.scene)))
          cases hleaves : branch.exit.leavesFor? ctx.scene <;>
            rw [hleaves] at hsteps <;> exact hsteps

/-- The branch of the outcome is taken, if one of the two has any code. -/
theorem steps_taken {traversal : Traversal} {index : Nat} {node : Node}
    {conduct : Conduct} {account : Account} {base : Frame} {outcome : Bool}
    (hplain : machine.HasBuiltins) (houtcome : base.outcome = .bool outcome)
    (hcount : account.count ≤ 1)
    (hsettles : Settles machine tree (node.branch outcome) conduct
      (tallyEnvironment outer (account.frame base)) account.toTally) :
    Steps machine outer (account.frame base)
      (Emit.takeBranch (node.scoredPlan tree ctx traversal index) [.node index])
      outer
      (((account.took tree (node.branch outcome) conduct
          (branchLocator index outcome)).frame base).departed
        ((account.took tree (node.branch outcome) conduct
          (branchLocator index outcome)).leavesFor? ctx.scene
            (node.branch outcome))) := by
  have hread : (Expr.ident Vars.outcome).Evaluates machine
      (outer.under (account.frame base).scope) (.ok (.bool outcome))
      (outer.under (account.frame base).scope) := by
    rw [← houtcome]
    exact evaluates_slot (account.frame base) .outcome
  unfold Emit.takeBranch
  dsimp only
  obtain ⟨value, hbranch⟩ := evaluates_taken ctx (branchLocator index outcome)
    hplain hcount hsettles
  split
  · cases outcome with
    | true => exact .cons (Expr.evaluates_ifThen hread hbranch) .nil
    | false => exact .cons (Expr.evaluates_ifThen_else hread hbranch) .nil
  · next hnone =>
      rw [Bool.not_eq_true, Bool.or_eq_false_iff] at hnone
      have hnothing : ∀ branch : Branch, ∀ place,
          (Emit.branch (branch.scoredPlan tree ctx) place).isSome = false →
            branch.acts tree = false := by
        intro branch place hbranch
        cases hacts : branch.acts tree with
        | false => rfl
        | true =>
            rw [branch_of_acts hacts] at hbranch
            cases hbranch
      have hacts : (node.branch outcome).acts tree = false := by
        cases outcome with
        | true => exact hnothing _ _ hnone.1
        | false => exact hnothing _ _ hnone.2
      rw [took_frame_of_not_acts hacts]
      exact .nil

/-- Statements end in a `return` of an empty list. -/
def GivesUp (machine : Machine) (outer : Environment) (frame : Frame)
    (statements : List Expr) (after : Environment) : Prop :=
  ∃ final : Frame, ∀ last, Run machine (outer.under frame.scope) last statements
    (.error (.returned (.list []))) (after.under final.scope)

namespace GivesUp

variable {middle after : Environment} {frame between : Frame}

theorem cons {e : Expr} {rest : List Expr} {value : Value}
    (hhead : e.Evaluates machine (outer.under frame.scope) (.ok value)
      (middle.under between.scope))
    (htail : GivesUp machine middle between rest after) :
    GivesUp machine outer frame (e :: rest) after := by
  obtain ⟨final, hrun⟩ := htail
  exact ⟨final, fun _ => .cons hhead (hrun value)⟩

theorem append_left {first second : List Expr}
    (h : GivesUp machine outer frame first after) :
    GivesUp machine outer frame (first ++ second) after := by
  obtain ⟨final, hrun⟩ := h
  exact ⟨final, fun last => (hrun last).append_error⟩

theorem append {first second : List Expr}
    (hfirst : Steps machine outer frame first middle between)
    (hsecond : GivesUp machine middle between second after) :
    GivesUp machine outer frame (first ++ second) after := by
  obtain ⟨final, hrun⟩ := hsecond
  refine ⟨final, fun last => ?_⟩
  obtain ⟨value, hsteps⟩ := hfirst last
  exact hsteps.append (hrun value)

end GivesUp

/-- A node with too many errors gives up. -/
theorem givesUp_limit {frame : Frame} {count limit : Nat}
    (hcount : frame.nodeErrors = .int count) (hover : limit < count)
    (hsmall : count < Decimal.twoPow 32) :
    GivesUp machine outer frame
      [.ifThen (.binary .greater (.ident Vars.nodeErrors) (.int limit))
        Emit.giveUp none] outer := by
  have hread : (Expr.ident Vars.nodeErrors).Evaluates machine
      (outer.under frame.scope) (.ok (.int count)) (outer.under frame.scope) := by
    rw [← hcount]
    exact evaluates_slot frame .nodeErrors
  have hcompare : Value.applyOperator .greater (.int count) (.int limit) =
      .ok (.bool true) :=
    (applyOperator_greater hsmall (Nat.lt_trans hover hsmall)).trans
      (by rw [decide_eq_true hover])
  have hword : count < 4294967296 := hsmall
  exact ⟨frame, fun last => .cons_error (Expr.evaluates_ifThen
    (Expr.evaluates_operator rfl hread (Expr.evaluates_nat (by omega)) hcompare)
    (Expr.evaluates_return (Expr.evaluates_list .nil)))⟩

end ResponseTree

end SceneQuiz
