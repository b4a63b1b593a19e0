import SceneQuiz.Proofs.ResponseTree.Refinement
import SceneQuiz.Proofs.ResponseTree.ScoredNode
/-!
The function of a tree that only scores.  It follows the direct walk of the
tree, as the function of a silent tree does, and keeps an account of the scores
and errors of the visits; the walk does not depend on the account until a node
has too many errors, where the function gives up.
-/

namespace SceneQuiz

namespace ResponseTree

open SceneQuiz.Expr (Evaluates)

section Accounts

variable (tree : ResponseTree) (conduct : Node → Conduct)

def verdictOf (node : Node) : Verdict := (conduct node).verdict

/-- The branch that a node takes. -/
def taken (node : Node) : Branch := node.branch (verdictOf conduct node).outcome

/-- The account of some visits. -/
def accountOf (visited : List Node) : Account :=
  visited.foldl (Account.visit tree conduct) .start

/-- The frame when these nodes have been visited and the walk goes on. -/
def scoredFrame (simp : Value) (visited : List Node) : Frame :=
  (accountOf tree conduct visited).frame
    (frameAfter tree (verdictOf conduct) simp visited)

/-- The frame when the next node has run its test. -/
def testedFrame (simp : Value) (visited : List Node) (node : Node) : Frame :=
  ((accountOf tree conduct visited).tested (verdictOf conduct node)
    ((tree.indexOf? node.name).getD 0)).frame
      (frameAfter tree (verdictOf conduct) simp (visited ++ [node]))

/-- The frame when the next node has been visited; its branch may have left for
a scene. -/
def visitedFrame (simp : Value) (scene : String) (visited : List Node)
    (node : Node) : Frame :=
  (scoredFrame tree conduct simp (visited ++ [node])).departed
    ((accountOf tree conduct (visited ++ [node])).leavesFor? scene
      (taken conduct node))

/-- The variables that the test of the next node sees. -/
def testScope (env : Environment) (visited : List Node) : Environment :=
  ((env.under ∅).assign "simp" (.bool false)).under
    ((scoredFrame tree conduct (simpOf env) visited).testing (simpOf env)).scope

/-- The variables that the score and the penalty of the next node see. -/
def scoreScope (env : Environment) (visited : List Node) (node : Node) :
    Tally → Environment :=
  tallyEnvironment ((env.under ∅).assign "simp" (simpOf env))
    (testedFrame tree conduct (simpOf env) visited node)

/-- Every node that a direct walk comes to behaves as its conduct says, as long
as no node before it has too many errors. -/
def Conducted (ctx : TreeContext) (machine : Machine) : Prop :=
  ∀ visited node, Reached tree (verdictOf conduct) visited node →
    (accountOf tree conduct visited).most ≤ ctx.options.nodeErrorLimit →
      (verdictOf conduct node).IsTrappable ∧
        (node.testCall ctx).Evaluates machine
          (testScope tree conduct machine.env visited)
          (verdictOf conduct node).ending
          (testScope tree conduct machine.env visited) ∧
        Settles machine tree (taken conduct node) (conduct node)
          (scoreScope tree conduct machine.env visited node)
          (accountOf tree conduct visited).toTally

end Accounts

variable {tree : ResponseTree} {conduct : Node → Conduct} {ctx : TreeContext}
  {traversal : Traversal} {machine : Machine} {outer : Environment}
  {passed rest : List Nat} {visited : List Node}

theorem accountOf_concat (visited : List Node) (node : Node) :
    accountOf tree conduct (visited ++ [node]) =
      (accountOf tree conduct visited).visit tree conduct node :=
  List.foldl_concat ..

theorem Account.most_visit (account : Account) (node : Node) :
    (account.visit tree conduct node).most =
      max account.most (account.visit tree conduct node).count := by
  unfold Account.visit Account.took
  dsimp only
  split <;> rfl

/-- A test and a branch have an error each at most. -/
theorem Account.count_visit_le (account : Account) (node : Node) :
    (account.visit tree conduct node).count ≤ 2 := by
  have htest : (conduct node).verdict.errorCount ≤ 1 := by
    unfold Verdict.errorCount
    split <;> omega
  unfold Account.visit Account.took
  dsimp only
  split
  · exact Nat.succ_le_succ htest
  · exact Nat.le_succ_of_le htest

/-- A test moves the frame on to the branch of the node. -/
theorem recorded_scoredFrame (simp : Value) (visited : List Node) (node : Node)
    {index : Nat} (hindex : tree.indexOf? node.name = some index) :
    ((scoredFrame tree conduct simp visited).tested simp (verdictOf conduct node)
        (accountOf tree conduct visited).errors index).recorded node.name
          node.quiet (verdictOf conduct node)
          ((pathOf (verdictOf conduct) visited).map Value.str)
          (visited.map (Node.result (verdictOf conduct)))
          (feedbackOf (verdictOf conduct) visited) =
      testedFrame tree conduct simp visited node := by
  simp [testedFrame, scoredFrame, Account.frame, Account.tested, frameAfter,
    Frame.tested, Frame.recorded, pathOf, feedbackOf, Node.mark, Node.result,
    hindex]

theorem path_visitedFrame (simp : Value) (scene : String) (visited : List Node)
    (node : Node) :
    (visitedFrame tree conduct simp scene visited node).path =
      .list ((pathOf (verdictOf conduct) (visited ++ [node])).map Value.str) := by
  unfold visitedFrame
  cases (accountOf tree conduct (visited ++ [node])).leavesFor? scene
    (taken conduct node) <;> rfl

theorem nodeErrors_visitedFrame (simp : Value) (scene : String)
    (visited : List Node) (node : Node) :
    (visitedFrame tree conduct simp scene visited node).nodeErrors =
      .int ((accountOf tree conduct visited).visit tree conduct node).count := by
  rw [← accountOf_concat]
  unfold visitedFrame
  cases (accountOf tree conduct (visited ++ [node])).leavesFor? scene
    (taken conduct node) <;> rfl

theorem exists_stop_visitedFrame (simp : Value) (scene : String)
    (visited : List Node) (node : Node) :
    ∃ stopped, (visitedFrame tree conduct simp scene visited node).stop =
      .bool stopped := by
  unfold visitedFrame
  cases (accountOf tree conduct (visited ++ [node])).leavesFor? scene
    (taken conduct node)
  · exact ⟨false, rfl⟩
  · exact ⟨true, rfl⟩

/-- A walk that goes on to another node has left for no scene. -/
theorem visitedFrame_of_exit {simp : Value} {scene target : String} {node : Node}
    (hexit : (taken conduct node).exit = .node target) :
    visitedFrame tree conduct simp scene visited node =
      scoredFrame tree conduct simp (visited ++ [node]) := by
  simp [visitedFrame, Account.leavesFor?, hexit, Exit.leavesFor?, Frame.departed]

/-- The node that the walk has come to runs its test and its branch. -/
theorem Walking.steps_scored_visit (hwalked : Walked tree traversal)
    (hplain : machine.HasBuiltins) (hconducted : Conducted tree conduct ctx machine)
    {index : Nat} {node : Node}
    (h : Walking tree (verdictOf conduct) traversal passed (index :: rest) visited
      (some node))
    (hnode : tree.nodes[index]? = some node)
    (hmost : (accountOf tree conduct visited).most ≤ ctx.options.nodeErrorLimit)
    (houter : Restored machine.env outer) :
    Steps machine outer (scoredFrame tree conduct (simpOf machine.env) visited)
      (Emit.runTest (node.testCall ctx) [.node index] ++
        Emit.recordOutcome node.name node.quiet ++
        Emit.takeBranch (node.scoredPlan tree ctx traversal index) [.node index])
      ((machine.env.under ∅).assign "simp" (simpOf machine.env))
      (visitedFrame tree conduct (simpOf machine.env) ctx.scene visited node) := by
  obtain ⟨htrap, htest, hsettles⟩ := hconducted visited node (h.reached node rfl)
    hmost
  have hindex := indexOf?_name hwalked.names hnode
  unfold testScope at htest
  rw [← houter.assign, ← houter.value] at htest
  have hrun := (steps_runTest index hplain rfl htrap htest).append
    (steps_recordOutcome node.name node.quiet hplain rfl rfl rfl rfl)
  rw [recorded_scoredFrame (simpOf outer) visited node hindex, houter.assign,
    houter.value] at hrun
  have hcount : ((accountOf tree conduct visited).tested (verdictOf conduct node)
      ((tree.indexOf? node.name).getD 0)).count ≤ 1 := by
    change (verdictOf conduct node).errorCount ≤ 1
    unfold Verdict.errorCount
    split <;> omega
  have houtcome : (frameAfter tree (verdictOf conduct) (simpOf machine.env)
      (visited ++ [node])).outcome = .bool (verdictOf conduct node).outcome := by
    simp [frameAfter]
  have hvisit : accountOf tree conduct (visited ++ [node]) =
      ((accountOf tree conduct visited).tested (verdictOf conduct node)
        ((tree.indexOf? node.name).getD 0)).took tree (taken conduct node)
          (conduct node) (branchLocator index (verdictOf conduct node).outcome) := by
    rw [accountOf_concat, hindex, Option.getD_some]
    simp only [Account.visit, hindex, Option.getD_some]
    rfl
  refine hrun.append ?_
  unfold visitedFrame scoredFrame
  rw [hvisit]
  exact steps_taken hplain houtcome hcount hsettles

/-- A node that stays within the limit of errors hands the frame on. -/
theorem Walking.evaluates_scored_visit (hwalked : Walked tree traversal)
    (hplain : machine.HasBuiltins)
    (hsmall : ctx.options.nodeErrorLimit < Decimal.twoPow 32)
    (hconducted : Conducted tree conduct ctx machine) {index : Nat} {node : Node}
    (h : Walking tree (verdictOf conduct) traversal passed (index :: rest) visited
      (some node))
    (hnode : tree.nodes[index]? = some node)
    (hmost : (accountOf tree conduct (visited ++ [node])).most ≤
      ctx.options.nodeErrorLimit)
    (houter : Restored machine.env outer) :
    ∃ value, (Emit.node (node.scoredPlan tree ctx traversal index)
        ctx.options.nodeErrorLimit).Evaluates machine
      (outer.under
        (scoredFrame tree conduct (simpOf machine.env) visited).scope) (.ok value)
      (((machine.env.under ∅).assign "simp" (simpOf machine.env)).under
        (visitedFrame tree conduct (simpOf machine.env) ctx.scene visited
          node).scope) := by
  rw [accountOf_concat, Account.most_visit, Nat.max_le] at hmost
  have hsteps := h.steps_scored_visit hwalked hplain hconducted hnode hmost.1 houter
  obtain ⟨value, hgroup⟩ :=
    (hsteps.append (steps_limit (nodeErrors_visitedFrame ..) hmost.2 hsmall)).group
  exact ⟨value, Expr.evaluates_ifThen
    (h.evaluates_guard_open hwalked hplain hnode rfl rfl) hgroup⟩

/-- A node with too many errors ends the function. -/
theorem Walking.givesUp_scored_visit (hwalked : Walked tree traversal)
    (hplain : machine.HasBuiltins) (hconducted : Conducted tree conduct ctx machine)
    {index : Nat} {node : Node}
    (h : Walking tree (verdictOf conduct) traversal passed (index :: rest) visited
      (some node))
    (hnode : tree.nodes[index]? = some node)
    (hmost : (accountOf tree conduct visited).most ≤ ctx.options.nodeErrorLimit)
    (hover : ctx.options.nodeErrorLimit <
      (accountOf tree conduct (visited ++ [node])).most)
    (houter : Restored machine.env outer) :
    GivesUp machine outer (scoredFrame tree conduct (simpOf machine.env) visited)
      [Emit.node (node.scoredPlan tree ctx traversal index)
        ctx.options.nodeErrorLimit]
      ((machine.env.under ∅).assign "simp" (simpOf machine.env)) := by
  rw [accountOf_concat, Account.most_visit] at hover
  have hsteps := h.steps_scored_visit hwalked hplain hconducted hnode hmost houter
  have hfew : ((accountOf tree conduct visited).visit tree conduct node).count ≤ 2 :=
    Account.count_visit_le _ node
  have hsmall : ((accountOf tree conduct visited).visit tree conduct node).count <
      4294967296 := by omega
  have hcount : ctx.options.nodeErrorLimit <
      ((accountOf tree conduct visited).visit tree conduct node).count := by
    omega
  obtain ⟨final, hrun⟩ := GivesUp.append hsteps
    (givesUp_limit (nodeErrors_visitedFrame ..) hcount hsmall)
  exact ⟨final, fun _ => .cons_error (Expr.evaluates_ifThen
    (h.evaluates_guard_open hwalked hplain hnode rfl rfl)
    (Expr.evaluates_group (hrun (.bool false))))⟩

/-- How the code of some nodes ends: at the last node of the walk, or at a node
with too many errors. -/
def EndsAt (tree : ResponseTree) (conduct : Node → Conduct) (ctx : TreeContext)
    (machine : Machine) (outer : Environment) (frame : Frame) (code : List Expr)
    (before : List Node) (last : Node) : Prop :=
  if ctx.options.nodeErrorLimit < (accountOf tree conduct (before ++ [last])).most
  then
    GivesUp machine outer frame code
      ((machine.env.under ∅).assign "simp" (simpOf machine.env))
  else
    (∀ target, (taken conduct last).exit ≠ .node target) ∧
      Steps machine outer frame code
        ((machine.env.under ∅).assign "simp" (simpOf machine.env))
        (visitedFrame tree conduct (simpOf machine.env) ctx.scene before last)

/-- A node before the end of the walk does not change the end. -/
theorem EndsAt.cons {e : Expr} {rest : List Expr} {value : Value}
    {middle : Environment} {frame between : Frame} {before : List Node}
    {last : Node}
    (hhead : e.Evaluates machine (outer.under frame.scope) (.ok value)
      (middle.under between.scope))
    (htail : EndsAt tree conduct ctx machine middle between rest before last) :
    EndsAt tree conduct ctx machine outer frame (e :: rest) before last := by
  unfold EndsAt at htail ⊢
  split
  · next hover =>
      rw [if_pos hover] at htail
      exact .cons hhead htail
  · next hover =>
      rw [if_neg hover] at htail
      exact ⟨htail.1, .cons hhead htail.2⟩

theorem keepsGuards_scoredPlan :
    KeepsGuards tree traversal (Node.scoredPlan tree ctx traversal) :=
  fun _ _ => ⟨rfl, rfl⟩

/-- The code of the nodes that are not passed completes the walk, or gives up. -/
theorem Walking.endsAt (hwalked : Walked tree traversal)
    (hplain : machine.HasBuiltins)
    (hsmall : ctx.options.nodeErrorLimit < Decimal.twoPow 32)
    (hconducted : Conducted tree conduct ctx machine) {node : Node}
    (h : Walking tree (verdictOf conduct) traversal passed rest visited (some node))
    (hmost : (accountOf tree conduct visited).most ≤ ctx.options.nodeErrorLimit)
    (houter : Restored machine.env outer) :
    ∃ before last, Reached tree (verdictOf conduct) before last ∧
      ((before ++ [last]).map Node.name).Nodup ∧
      (accountOf tree conduct before).most ≤ ctx.options.nodeErrorLimit ∧
      EndsAt tree conduct ctx machine outer
        (scoredFrame tree conduct (simpOf machine.env) visited)
        (codeOf tree (Node.scoredPlan tree ctx traversal)
          ctx.options.nodeErrorLimit rest) before last := by
  induction rest generalizing passed visited node outer with
  | nil =>
      obtain ⟨index, hindex, _⟩ := h.pending node rfl
      cases hindex
  | cons index rest ih =>
      obtain ⟨head, hhead⟩ := h.node hwalked
      rw [codeOf_cons hhead]
      by_cases hsame : node = head
      case neg =>
        have hother : some node ≠ some head :=
          fun heq => hsame (Option.some.inj heq)
        have hskip := h.skip (by
          rintro _ ⟨⟩ hcurrent
          rw [hhead] at hcurrent
          exact hother hcurrent.symm)
        obtain ⟨before, last, hreached, hnodup, hbefore, hends⟩ :=
          ih hskip hmost houter
        exact ⟨before, last, hreached, hnodup, hbefore, .cons
          (h.evaluates_skip hwalked hplain keepsGuards_scoredPlan hhead hother
            rfl ⟨false, rfl⟩ _) hends⟩
      subst hsame
      obtain ⟨next, hnext, hends⟩ := h.visit hwalked hhead
      by_cases hover : ctx.options.nodeErrorLimit <
          (accountOf tree conduct (visited ++ [node])).most
      case pos =>
        refine ⟨visited, node, h.reached node rfl, hnext.nodup, hmost, ?_⟩
        rw [EndsAt, if_pos hover]
        exact (h.givesUp_scored_visit hwalked hplain hconducted hhead hmost hover
          houter).append_left
      have hwithin := Nat.not_lt.mp hover
      obtain ⟨value, hrun⟩ := h.evaluates_scored_visit hwalked hplain hsmall
        hconducted hhead hwithin houter
      cases next with
      | none =>
          refine ⟨visited, node, h.reached node rfl, hnext.nodup, hmost, ?_⟩
          rw [EndsAt, if_neg hover]
          exact ⟨hends.mp rfl, .cons hrun (hnext.steps_done hwalked hplain
            keepsGuards_scoredPlan (path_visitedFrame ..)
            (exists_stop_visitedFrame ..))⟩
      | some next =>
          obtain ⟨target, hexit⟩ :
              ∃ target, (taken conduct node).exit = .node target := by
            cases hexit : (taken conduct node).exit with
            | node target => exact ⟨target, rfl⟩
            | finish | scene _ | stateTransition =>
                unfold taken at hexit
                simp [hexit] at hends
          rw [visitedFrame_of_exit hexit] at hrun
          obtain ⟨before, last, hreached, hnodup, hbefore, hlast⟩ :=
            ih hnext hwithin (.again machine.env)
          exact ⟨before, last, hreached, hnodup, hbefore, .cons hrun hlast⟩

/-- Both accumulators are numbers. -/
def Tally.IsNumeric (tally : Tally) : Prop :=
  tally.score.IsNumeric ∧ tally.penalty.IsNumeric

/-- The accumulators as the function returns them: rounded if the tree is
scored. -/
def Tally.Shows (isScored : Bool) (scale : Nat) (tally shown : Tally) : Prop :=
  if isScored then
    tally.score.rounded scale = .ok shown.score ∧
      tally.penalty.rounded scale = .ok shown.penalty
  else shown = tally

theorem Tally.exists_shows (options : Options) {isScored : Bool} {tally : Tally}
    (h : isScored = true → tally.IsNumeric) :
    ∃ shown, tally.Shows isScored options.scoreScale shown := by
  obtain ⟨hpos, hbound⟩ := scoreScale_bounds options
  cases isScored with
  | false => exact ⟨tally, rfl⟩
  | true =>
      obtain ⟨hscore, hpenalty⟩ := h rfl
      obtain ⟨score, hscore⟩ := Value.exists_rounded hpos hbound hscore
      obtain ⟨penalty, hpenalty⟩ := Value.exists_rounded hpos hbound hpenalty
      exact ⟨⟨score, penalty⟩, hscore, hpenalty⟩

theorem steps_shown {frame : Frame} {tally shown : Tally} {isScored : Bool}
    {options : Options} (hplain : machine.HasBuiltins)
    (hframe : frame.tallied tally = frame)
    (hshown : tally.Shows isScored options.scoreScale shown) :
    Steps machine outer frame
      (if isScored then
        [Emit.rounded Vars.score options.scoreScale,
          Emit.rounded Vars.penalty options.scoreScale]
      else []) outer (frame.tallied shown) := by
  obtain ⟨_, hbound⟩ := scoreScale_bounds options
  cases isScored with
  | false =>
      cases hshown
      rw [hframe]
      exact .nil
  | true =>
      have hscore : frame.get .score = tally.score := by rw [← hframe]; rfl
      have hpenalty : (frame.set .score shown.score).get .penalty =
          tally.penalty := by
        rw [← hframe]
        rfl
      exact .cons (evaluates_rounded .score hplain hbound
          ((congrArg (Value.rounded _) hscore).trans hshown.1))
        (.cons (evaluates_rounded .penalty hplain hbound
          ((congrArg (Value.rounded _) hpenalty).trans hshown.2)) .nil)

/-- What the function returns after a walk that did not give up. -/
def scoredAnswer (tree : ResponseTree) (conduct : Node → Conduct) (scene : String)
    (shown : Tally) (before : List Node) (last : Node) : Value :=
  let visited := before ++ [last]
  let account := accountOf tree conduct visited
  .list [shown.score, shown.penalty,
    .list ((visited.map fun node =>
      Value.str (pathToken node.name (verdictOf conduct node).outcome)).reverse),
    .list (visited.map fun node => .list [.str node.name,
      .bool (verdictOf conduct node).outcome, (verdictOf conduct node).note]),
    .list (.str rootTag :: feedbackOf (verdictOf conduct) visited),
    ((account.leavesFor? scene (taken conduct last)).map Value.str).getD
      (.bool false),
    .list [],
    .list account.errors]

/-- The last expression of the function puts the answer together. -/
theorem evaluates_scored_result (hplain : machine.HasBuiltins) (simp : Value)
    (scene : String) (shown : Tally) (before : List Node) (last : Node) :
    Emit.result.Evaluates machine
      (outer.under ((visitedFrame tree conduct simp scene before last).tallied
        shown).scope)
      (.ok (scoredAnswer tree conduct scene shown before last))
      (outer.under ((visitedFrame tree conduct simp scene before last).tallied
        shown).scope) := by
  have hpath : (pathOf (verdictOf conduct) (before ++ [last])).map Value.str =
      ((before ++ [last]).map fun node =>
        Value.str (pathToken node.name (verdictOf conduct node).outcome)).reverse := by
    rw [pathOf, List.map_reverse, List.map_map]
    rfl
  unfold scoredAnswer visitedFrame
  dsimp only
  rw [← hpath]
  cases (accountOf tree conduct (before ++ [last])).leavesFor? scene
    (taken conduct last) <;> exact evaluates_result hplain rfl

theorem tallied_visitedFrame (simp : Value) (scene : String)
    (before : List Node) (last : Node) :
    (visitedFrame tree conduct simp scene before last).tallied
        (accountOf tree conduct (before ++ [last])).toTally =
      visitedFrame tree conduct simp scene before last := by
  unfold visitedFrame
  cases (accountOf tree conduct (before ++ [last])).leavesFor? scene
    (taken conduct last) <;> rfl

/-- The accumulators are numbers at the end of every walk that does not give
up. -/
def EndsNumeric (tree : ResponseTree) (conduct : Node → Conduct)
    (limit : Nat) : Prop :=
  ∀ before last, Reached tree (verdictOf conduct) before last →
    (∀ target, (taken conduct last).exit ≠ .node target) →
      (accountOf tree conduct (before ++ [last])).most ≤ limit →
        (accountOf tree conduct (before ++ [last])).toTally.IsNumeric

/-- What the function returns, at the end of the walk or where it gives up. -/
def Returns (tree : ResponseTree) (conduct : Node → Conduct) (ctx : TreeContext)
    (before : List Node) (last : Node) (value : Value) : Prop :=
  if ctx.options.nodeErrorLimit < (accountOf tree conduct (before ++ [last])).most
  then value = .list []
  else
    (∀ target, (taken conduct last).exit ≠ .node target) ∧
      ∃ shown, (accountOf tree conduct (before ++ [last])).toTally.Shows
          tree.isScored ctx.options.scoreScale shown ∧
        value = scoredAnswer tree conduct ctx.scene shown before last

/-- A block of the function's own variables starts with the first frame, and has
the value that its body ends in or returns. -/
theorem evaluates_own_block {body : List Expr} {value : Value}
    {after : Environment} {final : Frame} {outcome : Except EvalError Value}
    (houtcome : outcome = .ok value ∨ outcome = .error (.returned value))
    (hbody : Expr.Run machine (outer.under Frame.initial.scope) (.bool false) body
      outcome (after.under final.scope)) :
    (Expr.block Emit.accumulators body).Evaluates machine outer (.ok value)
      after := by
  rw [Frame.scope, ← Environment.push_defineAll] at hbody
  rw [← Environment.pop_under after final.scope]
  rcases houtcome with rfl | rfl
  · exact Expr.evaluates_block declares_accumulators hbody
  · exact Expr.evaluates_block_returned declares_accumulators hbody

/-- The body of the function, in a scope that binds nothing, completes the
walk or gives up. -/
theorem evaluates_scored_body (hwalked : Walked tree traversal)
    (hplain : machine.HasBuiltins)
    (hsmall : ctx.options.nodeErrorLimit < Decimal.twoPow 32)
    (hconducted : Conducted tree conduct ctx machine)
    (hnumeric : tree.isScored = true →
      EndsNumeric tree conduct ctx.options.nodeErrorLimit) :
    ∃ before last value, Reached tree (verdictOf conduct) before last ∧
      ((before ++ [last]).map Node.name).Nodup ∧
      (accountOf tree conduct before).most ≤ ctx.options.nodeErrorLimit ∧
      Returns tree conduct ctx before last value ∧
      (Expr.block (Emit.locals (tree.scoredPlan ctx traversal).writes)
        ((tree.scoredPlan ctx traversal).body tree.isScored ctx)).Evaluates
          machine machine.env.push (.ok value)
          ((machine.env.under ∅).assign "simp" (simpOf machine.env)) := by
  obtain ⟨root, hstart⟩ : ∃ root, Walking tree (verdictOf conduct) traversal []
      traversal.order [] (some root) := Walking.start hwalked
  obtain ⟨before, last, hreached, hnodup, hbefore, hends⟩ :=
    hstart.endsAt hwalked hplain hsmall hconducted (Nat.zero_le _)
      (.start machine.env)
  rw [codeless_scoredPlan.locals, codeless_scoredPlan.body]
  refine ⟨before, last, ?_⟩
  unfold Returns
  unfold EndsAt at hends
  by_cases hover : ctx.options.nodeErrorLimit <
      (accountOf tree conduct (before ++ [last])).most
  · rw [if_pos hover] at hends
    obtain ⟨final, hrun⟩ := hends
    refine ⟨.list [], hreached, hnodup, hbefore, by rw [if_pos hover], ?_⟩
    exact evaluates_own_block (.inr rfl) (hrun (.bool false)).append_error
  · rw [if_neg hover] at hends
    obtain ⟨hlast, hsteps⟩ := hends
    obtain ⟨shown, hshown⟩ := Tally.exists_shows ctx.options fun hscored =>
      hnumeric hscored before last hreached hlast (Nat.not_lt.mp hover)
    refine ⟨_, hreached, hnodup, hbefore, by
      rw [if_neg hover]
      exact ⟨hlast, shown, hshown, rfl⟩, ?_⟩
    obtain ⟨value, hrun⟩ := (hsteps.append (steps_shown hplain
      (tallied_visitedFrame ..) hshown)) (.bool false)
    rw [← List.append_assoc]
    exact evaluates_own_block (.inl rfl) (hrun.append
      (.cons (evaluates_scored_result hplain _ _ _ _ _) .nil))

/-- The function of a tree that only scores follows the direct walk of the tree,
and keeps account of it. -/
theorem invoke_scored {compiled : Compiled} {log : Log}
    (hcompile : tree.compile ctx = (some compiled, log)) (hscores : tree.OnlyScores)
    (hsmall : ctx.options.nodeErrorLimit < Decimal.twoPow 32)
    (hplain : machine.HasBuiltins) (hloaded : compiled.IsLoaded machine)
    (hconducted : Conducted tree conduct ctx machine)
    (hnumeric : tree.isScored = true →
      EndsNumeric tree conduct ctx.options.nodeErrorLimit)
    (hgas : ∀ after, Eval.invoke compiled.function [] machine ≠
      .error .gasExhausted after) :
    ∃ before last value spent, Reached tree (verdictOf conduct) before last ∧
      ((before ++ [last]).map Node.name).Nodup ∧
      (accountOf tree conduct before).most ≤ ctx.options.nodeErrorLimit ∧
      Returns tree conduct ctx before last value ∧
      Eval.invoke compiled.function [] machine =
        .ok value
          { machine with
            env := machine.env.assign "simp" (simpOf machine.env)
            gas := spent } := by
  obtain ⟨traversal, hwalk, rfl⟩ := hscores.compile hcompile
  obtain ⟨before, last, value, hreached, hnodup, hbefore, hreturns, heval⟩ :=
    evaluates_scored_body (walked_of_walk hwalk) hplain hsmall hconducted hnumeric
  obtain ⟨hhost, body, hbody, hdefined⟩ := hloaded
  cases hbody
  rcases Expr.ends_apply hhost hdefined heval machine.remaining machine.gas with
    ⟨spent, hout⟩ | ⟨spent, hdone⟩
  · exact absurd hout (hgas spent)
  · refine ⟨before, last, value, spent, hreached, hnodup, hbefore, hreturns, ?_⟩
    rw [Environment.assign_under_free _ rfl, Environment.pop_under] at hdone
    exact hdone

/-- A walk in a tree of two nodes, where the first leads to the second. -/
theorem Reached.of_pair {verdict : Node → Verdict} {first second : Node}
    (hnodes : ∀ node ∈ tree.nodes, node = first ∨ node = second)
    (hroot : second.name ≠ tree.root ∧ second.name ≠ first.name)
    (hfirst : (first.branch (verdict first).outcome).exit = .node second.name)
    (hsecond : ∀ target,
      (second.branch (verdict second).outcome).exit ≠ .node target)
    {node : Node} (h : Reached tree verdict visited node) :
    (visited = [] ∧ node = first) ∨ (visited = [first] ∧ node = second) := by
  induction h with
  | root hnode hname =>
      rcases hnodes _ hnode with rfl | rfl
      · exact .inl ⟨rfl, rfl⟩
      · exact absurd hname hroot.1
  | step _ hnext hexit ih =>
      rcases ih with ⟨rfl, rfl⟩ | ⟨rfl, rfl⟩
      · rcases hnodes _ hnext with rfl | rfl
        · rw [hfirst] at hexit
          exact absurd (Exit.node.inj hexit) hroot.2
        · exact .inr ⟨rfl, rfl⟩
      · exact absurd hexit (hsecond _)

/-- A machine that knows one test, and the function of a tree. -/
def Compiled.loadedWith (compiled : Compiled) (test : HostFunction) : Machine :=
  { (Machine.fresh 1000).register "ATSame" test with
    functions := match compiled.expr with
      | .binary .define _ body => NameMap.empty.insert compiled.function ⟨[], body⟩
      | _ => .empty }

theorem OnlyScores.isLoaded_loadedWith (h : tree.OnlyScores) {compiled : Compiled}
    {log : Log} (hcompile : tree.compile ctx = (some compiled, log))
    (test : HostFunction) : compiled.IsLoaded (compiled.loadedWith test) := by
  obtain ⟨traversal, -, rfl⟩ := h.compile hcompile
  have hname : functionName ctx.scene tree.name ≠ "ATSame" :=
    functionName_ne (by decide)
  refine ⟨?_, _, rfl, ?_⟩
  · simp [Compiled.loadedWith, Machine.register, Machine.fresh, assemble, hname]
  · simp [Compiled.loadedWith, assemble, Expr.defineFunction]

theorem OnlyScores.hasBuiltins_loadedWith (h : tree.OnlyScores)
    {compiled : Compiled} {log : Log}
    (hcompile : tree.compile ctx = (some compiled, log)) (test : HostFunction) :
    (compiled.loadedWith test).HasBuiltins := by
  obtain ⟨traversal, -, rfl⟩ := h.compile hcompile
  intro builtin
  have hname : functionName ctx.scene tree.name ≠ builtin.name :=
    functionName_ne (by cases builtin <;> decide)
  refine ⟨?_, ?_⟩
  · cases builtin <;> rfl
  · simp [Compiled.loadedWith, assemble, Expr.defineFunction, hname.symm]

end ResponseTree

end SceneQuiz
