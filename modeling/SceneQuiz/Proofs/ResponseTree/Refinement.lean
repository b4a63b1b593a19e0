import SceneQuiz.Proofs.ResponseTree.DirectWalk
import SceneQuiz.Proofs.ResponseTree.Rounding
/-!
The function of a silent tree refines the direct walk of its graph.  The code of
the nodes runs in the order of the function, and takes the frame of the function
from one visit of the direct walk to the next; at the end the function returns
what the visits recorded.
-/

namespace SceneQuiz

namespace ResponseTree

open SceneQuiz.Expr (Evaluates AllEvaluate)

variable {tree : ResponseTree} {verdict : Node → Verdict} {ctx : TreeContext}
  {traversal : Traversal} {machine : Machine} {outer : Environment}
  {passed rest : List Nat} {visited : List Node} {current : Option Node}

/-- The code of some nodes of the order, whatever is read of each. -/
def codeOf (tree : ResponseTree) (read : Nat → Node → NodePlan) (limit : Nat)
    (indices : List Nat) : List Expr :=
  (indices.filterMap fun index => tree.nodes[index]?.map (read index)).map
    fun node => Emit.node node limit

theorem codeOf_cons {read : Nat → Node → NodePlan} {limit index : Nat}
    {node : Node} (hnode : tree.nodes[index]? = some node) :
    codeOf tree read limit (index :: rest) =
      Emit.node (read index node) limit :: codeOf tree read limit rest := by
  simp [codeOf, hnode]

/-- The code of some nodes of the order. -/
def nodeCode (tree : ResponseTree) (ctx : TreeContext) (traversal : Traversal)
    (indices : List Nat) : List Expr :=
  (indices.filterMap fun index =>
    tree.nodes[index]?.map (Node.silentPlan tree ctx traversal index)).map
      fun node => Emit.node node ctx.options.nodeErrorLimit

theorem nodeCode_cons {index : Nat} {node : Node}
    (hnode : tree.nodes[index]? = some node) :
    nodeCode tree ctx traversal (index :: rest) =
      Emit.node (node.silentPlan tree ctx traversal index)
          ctx.options.nodeErrorLimit ::
        nodeCode tree ctx traversal rest :=
  codeOf_cons hnode

theorem Walking.node (hwalked : Walked tree traversal) {index : Nat}
    (h : Walking tree verdict traversal passed (index :: rest) visited current) :
    ∃ node, tree.nodes[index]? = some node := by
  have hmem : index ∈ traversal.order := by simp [h.order]
  exact ⟨_, List.getElem?_eq_getElem (hwalked.within index hmem)⟩

/-- What is read of a node keeps its guard. -/
def KeepsGuards (tree : ResponseTree) (traversal : Traversal)
    (read : Nat → Node → NodePlan) : Prop :=
  ∀ index node, (read index node).isRoot = (traversal.root? == some index) ∧
    (read index node).entries = traversal.entries tree index

/-- A node that the walk has not come to does nothing. -/
theorem Walking.evaluates_skip (hwalked : Walked tree traversal)
    (hplain : machine.HasBuiltins) {read : Nat → Node → NodePlan}
    (hread : KeepsGuards tree traversal read) {index : Nat} {node : Node}
    {frame : Frame}
    (h : Walking tree verdict traversal passed (index :: rest) visited current)
    (hnode : tree.nodes[index]? = some node) (hother : current ≠ some node)
    (hpath : frame.path = .list ((pathOf verdict visited).map Value.str))
    (hstop : ∃ stopped, frame.stop = .bool stopped) (limit : Nat) :
    (Emit.node (read index node) limit).Evaluates machine
      (outer.under frame.scope) (.ok (.bool false)) (outer.under frame.scope) := by
  obtain ⟨stopped, hstop⟩ := hstop
  have hfalse : (traversal.root? == some index ||
      (traversal.entries tree index).any fun token =>
        decide (token ∈ pathOf verdict visited)) = false :=
    Bool.eq_false_iff.mpr fun htrue =>
      hother ((h.guard_iff hwalked hnode).mp htrue)
  refine Expr.evaluates_ifThen_skip ?_
  rw [(hread index node).1, (hread index node).2]
  have hguard : (Emit.guard (traversal.root? == some index)
      (traversal.entries tree index)).Evaluates machine (outer.under frame.scope)
        (.ok (.bool (!stopped && _))) (outer.under frame.scope) :=
    evaluates_guard _ _ hplain hpath hstop
  rwa [hfalse, Bool.and_false] at hguard

/-- After the end of the walk the rest of the code does nothing. -/
theorem Walking.steps_done (hwalked : Walked tree traversal)
    (hplain : machine.HasBuiltins) {read : Nat → Node → NodePlan}
    (hread : KeepsGuards tree traversal read) {limit : Nat} {frame : Frame}
    (h : Walking tree verdict traversal passed rest visited none)
    (hpath : frame.path = .list ((pathOf verdict visited).map Value.str))
    (hstop : ∃ stopped, frame.stop = .bool stopped) :
    Steps machine outer frame (codeOf tree read limit rest) outer frame := by
  induction rest generalizing passed with
  | nil => exact .nil
  | cons index rest ih =>
      obtain ⟨node, hnode⟩ := h.node hwalked
      rw [codeOf_cons hnode]
      exact .cons
        (h.evaluates_skip hwalked hplain hread hnode (by simp) hpath hstop _)
        (ih (h.skip (by simp)))

theorem keepsGuards_silentPlan :
    KeepsGuards tree traversal (Node.silentPlan tree ctx traversal) :=
  fun _ _ => ⟨rfl, rfl⟩

/-- Outside the function only `simp` may differ, and it has its old value. -/
structure Restored (env outer : Environment) : Prop where
  value : simpOf outer = simpOf env
  assign : ∀ value, outer.assign "simp" value = (env.under ∅).assign "simp" value

theorem simpOf_under_empty (env : Environment) :
    simpOf (env.under ∅) = simpOf env :=
  congrArg (fun value => Option.getD value (Value.symbol "simp"))
    (Environment.get?_under_free rfl)

theorem Restored.start (env : Environment) : Restored env (env.under ∅) :=
  ⟨simpOf_under_empty env, fun _ => rfl⟩

theorem Restored.again (env : Environment) :
    Restored env ((env.under ∅).assign "simp" (simpOf env)) where
  value := by simp [simpOf]
  assign := fun _ => Environment.assign_assign ..

/-- The guard of the node that the walk has come to is open. -/
theorem Walking.evaluates_guard_open (hwalked : Walked tree traversal)
    (hplain : machine.HasBuiltins) {index : Nat} {node : Node} {frame : Frame}
    (h : Walking tree verdict traversal passed (index :: rest) visited
      (some node))
    (hnode : tree.nodes[index]? = some node)
    (hpath : frame.path = .list ((pathOf verdict visited).map Value.str))
    (hstop : frame.stop = .bool false) :
    (Emit.guard (traversal.root? == some index)
        (traversal.entries tree index)).Evaluates machine
      (outer.under frame.scope) (.ok (.bool true)) (outer.under frame.scope) := by
  have hopen := (h.guard_iff hwalked hnode).mpr rfl
  have heval : (Emit.guard (traversal.root? == some index)
      (traversal.entries tree index)).Evaluates machine (outer.under frame.scope)
        (.ok (.bool (!false && _))) (outer.under frame.scope) :=
    evaluates_guard _ _ hplain hpath hstop
  rwa [hopen] at heval

/-- The node that the walk has come to runs. -/
theorem Walking.evaluates_visit (hwalked : Walked tree traversal)
    (hplain : machine.HasBuiltins) (hlimit : 1 ≤ ctx.options.nodeErrorLimit)
    (hsmall : ctx.options.nodeErrorLimit < Decimal.twoPow 32)
    (hjudged : Judged tree verdict ctx machine) {index : Nat} {node : Node}
    (h : Walking tree verdict traversal passed (index :: rest) visited
      (some node))
    (hnode : tree.nodes[index]? = some node)
    (houter : Restored machine.env outer) :
    ∃ value, (Emit.node (node.silentPlan tree ctx traversal index)
        ctx.options.nodeErrorLimit).Evaluates machine
      (outer.under
        (frameAfter tree verdict (simpOf machine.env) visited).scope) (.ok value)
      (((machine.env.under ∅).assign "simp" (simpOf machine.env)).under
        ((frameAfter tree verdict (simpOf machine.env) (visited ++ [node])).left
          ((node.branch (verdict node).outcome).exit.leavesFor?
            ctx.scene)).scope) := by
  obtain ⟨htrap, htest⟩ := hjudged visited node (h.reached node rfl)
  unfold testEnvironment at htest
  rw [← houter.assign, ← houter.value] at htest
  have hguard : (Emit.guard (traversal.root? == some index)
      (traversal.entries tree index)).Evaluates machine
        (outer.under (frameAfter tree verdict (simpOf outer) visited).scope)
        (.ok (.bool true))
        (outer.under (frameAfter tree verdict (simpOf outer) visited).scope) :=
    h.evaluates_guard_open hwalked hplain hnode rfl rfl
  have hrun := evaluates_node hplain hlimit hsmall rfl rfl rfl rfl htrap hguard
    htest
  rwa [frameAfter_concat (simpOf outer) visited node
    (indexOf?_name hwalked.names hnode), houter.assign, houter.value] at hrun

/-- The code of the nodes that are not passed completes the walk. -/
theorem Walking.steps (hwalked : Walked tree traversal)
    (hplain : machine.HasBuiltins) (hlimit : 1 ≤ ctx.options.nodeErrorLimit)
    (hsmall : ctx.options.nodeErrorLimit < Decimal.twoPow 32)
    (hjudged : Judged tree verdict ctx machine) {node : Node}
    (h : Walking tree verdict traversal passed rest visited (some node))
    (houter : Restored machine.env outer) :
    ∃ before last, Reached tree verdict before last ∧
      (∀ target, (last.branch (verdict last).outcome).exit ≠ .node target) ∧
      ((before ++ [last]).map Node.name).Nodup ∧
      Steps machine outer
        (frameAfter tree verdict (simpOf machine.env) visited)
        (nodeCode tree ctx traversal rest)
        ((machine.env.under ∅).assign "simp" (simpOf machine.env))
        ((frameAfter tree verdict (simpOf machine.env) (before ++ [last])).left
          ((last.branch (verdict last).outcome).exit.leavesFor? ctx.scene)) := by
  induction rest generalizing passed visited node outer with
  | nil =>
      obtain ⟨index, hindex, _⟩ := h.pending node rfl
      cases hindex
  | cons index rest ih =>
      obtain ⟨head, hhead⟩ := h.node hwalked
      rw [nodeCode_cons hhead]
      by_cases hsame : node = head
      · subst hsame
        obtain ⟨value, hrun⟩ := h.evaluates_visit hwalked hplain hlimit hsmall
          hjudged hhead houter
        obtain ⟨next, hnext, hends⟩ := h.visit hwalked hhead
        cases next with
        | none =>
            refine ⟨visited, node, h.reached node rfl, hends.mp rfl,
              hnext.nodup,
              .cons hrun (hnext.steps_done hwalked hplain
                keepsGuards_silentPlan ?_ ?_)⟩
            · cases (node.branch (verdict node).outcome).exit.leavesFor?
                ctx.scene <;> rfl
            · cases (node.branch (verdict node).outcome).exit.leavesFor? ctx.scene
              · exact ⟨false, rfl⟩
              · exact ⟨true, rfl⟩
        | some next =>
            have hstays : (node.branch (verdict node).outcome).exit.leavesFor?
                ctx.scene = none := by
              cases hexit : (node.branch (verdict node).outcome).exit with
              | node target => rfl
              | finish => simp [hexit] at hends
              | scene target => simp [hexit] at hends
              | stateTransition => simp [hexit] at hends
            rw [hstays] at hrun
            obtain ⟨before, last, hreached, hlast, hnodup, hsteps⟩ :=
              ih hnext (.again machine.env)
            exact ⟨before, last, hreached, hlast, hnodup, .cons hrun hsteps⟩
      · have hother : some node ≠ some head :=
          fun heq => hsame (Option.some.inj heq)
        have hskip := h.skip (by
          rintro _ ⟨⟩ hcurrent
          rw [hhead] at hcurrent
          exact hother hcurrent.symm)
        obtain ⟨before, last, hreached, hends, hnodup, hsteps⟩ :=
          ih hskip houter
        exact ⟨before, last, hreached, hends, hnodup,
          .cons (h.evaluates_skip hwalked hplain keepsGuards_silentPlan hhead
            hother rfl ⟨false, rfl⟩ _) hsteps⟩

theorem declares_accumulators_append {env : Environment} {rest : List Expr}
    {bindings : List (String × Value)} (hrest : Expr.Declares machine env rest bindings) :
    Expr.Declares machine env (Emit.accumulators ++ rest)
      (Frame.initial.bindings ++ bindings) :=
  .assigned _ (Expr.evaluates_nat (by decide)) <|
  .assigned _ (Expr.evaluates_nat (by decide)) <|
  .assigned _ (Expr.evaluates_list .nil) <|
  .assigned _ (Expr.evaluates_list .nil) <|
  .assigned _ (Expr.evaluates_list .nil) <|
  .assigned _ (Expr.evaluates_list .nil) <|
  .assigned _ (Expr.evaluates_bool false) <|
  .assigned _ (Expr.evaluates_bool false) <|
  .assigned _ (Expr.evaluates_list .nil) <|
  .assigned _ (Expr.evaluates_nat (by decide)) <|
  .plain _ <| .plain _ <| .plain _ <| .plain _ hrest

theorem declares_accumulators {env : Environment} :
    Expr.Declares machine env Emit.accumulators Frame.initial.bindings :=
  declares_accumulators_append .nil

/-- What the function returns for a frame. -/
def Frame.answer (frame : Frame) (feedback : List Value) : Value :=
  .list [frame.score, frame.penalty, frame.path, frame.results,
    .list (.str rootTag :: feedback), frame.nextScene, frame.updates,
    frame.errors]

theorem evaluates_result {frame : Frame} {feedback : List Value}
    (hplain : machine.HasBuiltins) (hfeedback : frame.feedback = .list feedback) :
    Emit.result.Evaluates machine (outer.under frame.scope)
      (.ok (frame.answer feedback)) (outer.under frame.scope) := by
  have hread : (Expr.ident Vars.feedback).Evaluates machine
      (outer.under frame.scope) (.ok (.list feedback))
      (outer.under frame.scope) := by
    rw [← hfeedback]
    exact evaluates_slot frame .feedback
  have hshown : (Expr.call "append" [.list [.str rootTag],
      .ident Vars.feedback]).Evaluates machine (outer.under frame.scope)
        (.ok (.list (.str rootTag :: feedback))) (outer.under frame.scope) := by
    refine Expr.evaluates_builtin .append hplain
      (.cons (Expr.evaluates_list (.cons (Expr.evaluates_str _) .nil))
        (.cons hread .nil)) ?_
    simp [Builtin.apply, Builtin.appended, Value.asList?]
  exact Expr.evaluates_list <|
    .cons (evaluates_slot frame .score) <|
    .cons (evaluates_slot frame .penalty) <|
    .cons (evaluates_slot frame .path) <|
    .cons (evaluates_slot frame .results) <|
    .cons hshown <|
    .cons (evaluates_slot frame .nextScene) <|
    .cons (evaluates_slot frame .updates) <|
    .cons (evaluates_slot frame .errors) .nil

/-- The scores of a silent tree are zero, rounded or not. -/
theorem steps_rounding {frame : Frame} (hplain : machine.HasBuiltins)
    (hscore : frame.score = .int 0) (hpenalty : frame.penalty = .int 0)
    (isScored : Bool) (options : Options) :
    Steps machine outer frame
      (if isScored then
        [Emit.rounded Vars.score options.scoreScale,
          Emit.rounded Vars.penalty options.scoreScale]
      else []) outer frame := by
  cases isScored with
  | false => exact .nil
  | true =>
      have hsame : (frame.set .score (.int 0)).set .penalty (.int 0) = frame := by
        cases frame
        cases hscore
        cases hpenalty
        rfl
      obtain ⟨hpos, hbound⟩ := scoreScale_bounds options
      have hzero : (Value.int 0).rounded options.scoreScale = .ok (.int 0) :=
        Value.rounded_int hpos hbound 0
      have hsteps : Steps machine outer frame
          [Emit.rounded Vars.score options.scoreScale,
            Emit.rounded Vars.penalty options.scoreScale] outer
          ((frame.set .score (.int 0)).set .penalty (.int 0)) :=
        .cons (evaluates_rounded .score hplain hbound
            ((congrArg (Value.rounded _) hscore).trans hzero))
          (.cons (evaluates_rounded .penalty hplain hbound
            ((congrArg (Value.rounded _) hpenalty).trans hzero)) .nil)
      rwa [hsame] at hsteps

/-- The machine holds the function of a compiled tree. -/
def Compiled.IsLoaded (compiled : Compiled) (machine : Machine) : Prop :=
  machine.hosts.get? compiled.function = none ∧
    ∃ body, compiled.expr = .defineFunction compiled.function body ∧
      machine.functions.get? compiled.function = some ⟨[], body⟩

/-- The name of the function of a tree starts with a percent sign. -/
theorem functionName_ne {scene tree other : String} (h : other.toList.head? ≠ some '%') :
    functionName scene tree ≠ other := by
  rintro rfl
  simp [functionName] at h

/-- What the function returns after a direct walk: scores of zero, the marks of
the visits from the last to the first, their results from the first to the last,
the messages, the scene that the walk leaves for, no updates, and the places of
errors. -/
def walkAnswer (tree : ResponseTree) (verdict : Node → Verdict) (scene : String)
    (before : List Node) (last : Node) : Value :=
  let visited := before ++ [last]
  let exit := (last.branch (verdict last).outcome).exit
  .list [.int 0, .int 0,
    .list ((visited.map fun node =>
      Value.str (pathToken node.name (verdict node).outcome)).reverse),
    .list (visited.map fun node =>
      .list [.str node.name, .bool (verdict node).outcome, (verdict node).note]),
    .list (.str rootTag :: feedbackOf verdict visited),
    ((exit.leavesFor? scene).map Value.str).getD (.bool false),
    .list [],
    .list (errorsOf tree verdict visited)]

theorem answer_left (simp : Value) (before : List Node) (last : Node)
    (scene : String) :
    ((frameAfter tree verdict simp (before ++ [last])).left
        ((last.branch (verdict last).outcome).exit.leavesFor? scene)).answer
          (feedbackOf verdict (before ++ [last])) =
      walkAnswer tree verdict scene before last := by
  have hpath : (pathOf verdict (before ++ [last])).map Value.str =
      ((before ++ [last]).map fun node =>
        Value.str (pathToken node.name (verdict node).outcome)).reverse := by
    rw [pathOf, List.map_reverse, List.map_map]
    rfl
  unfold walkAnswer
  dsimp only
  rw [← hpath]
  cases (last.branch (verdict last).outcome).exit.leavesFor? scene <;> rfl

/-- The body of the function, in a scope that binds nothing, completes the
walk. -/
theorem evaluates_body (hwalked : Walked tree traversal)
    (hplain : machine.HasBuiltins) (hlimit : 1 ≤ ctx.options.nodeErrorLimit)
    (hsmall : ctx.options.nodeErrorLimit < Decimal.twoPow 32)
    (hjudged : Judged tree verdict ctx machine) :
    ∃ before last, Reached tree verdict before last ∧
      (∀ target, (last.branch (verdict last).outcome).exit ≠ .node target) ∧
      ((before ++ [last]).map Node.name).Nodup ∧
      (Expr.block (Emit.locals (tree.silentPlan ctx traversal).writes)
        ((tree.silentPlan ctx traversal).body tree.isScored ctx)).Evaluates
          machine machine.env.push
          (.ok (walkAnswer tree verdict ctx.scene before last))
          ((machine.env.under ∅).assign "simp" (simpOf machine.env)) := by
  obtain ⟨root, hstart⟩ : ∃ root, Walking tree verdict traversal []
      traversal.order [] (some root) := Walking.start hwalked
  obtain ⟨before, last, hreached, hends, hnodup, hsteps⟩ :=
    hstart.steps hwalked hplain hlimit hsmall hjudged (.start machine.env)
  refine ⟨before, last, hreached, hends, hnodup, ?_⟩
  let final := (frameAfter tree verdict (simpOf machine.env)
    (before ++ [last])).left
      ((last.branch (verdict last).outcome).exit.leavesFor? ctx.scene)
  have hfinal : final.score = .int 0 ∧ final.penalty = .int 0 ∧
      final.feedback = .list (feedbackOf verdict (before ++ [last])) := by
    unfold final
    cases (last.branch (verdict last).outcome).exit.leavesFor? ctx.scene <;>
      exact ⟨rfl, rfl, rfl⟩
  obtain ⟨hscore, hpenalty, hfeedback⟩ := hfinal
  obtain ⟨value, hrun⟩ := hsteps.append
    (steps_rounding hplain hscore hpenalty tree.isScored ctx.options)
    (.bool false)
  have hresult : Emit.result.Evaluates machine
      (((machine.env.under ∅).assign "simp" (simpOf machine.env)).under
        final.scope)
      (.ok (walkAnswer tree verdict ctx.scene before last))
      (((machine.env.under ∅).assign "simp" (simpOf machine.env)).under
        final.scope) := by
    rw [← answer_left (simpOf machine.env)]
    exact evaluates_result hplain hfeedback
  have hblock : (Expr.block Emit.accumulators
      ((tree.silentPlan ctx traversal).body tree.isScored ctx)).Evaluates machine
        machine.env.push (.ok (walkAnswer tree verdict ctx.scene before last))
        (((machine.env.under ∅).assign "simp" (simpOf machine.env)).under
          final.scope).pop := by
    refine Expr.evaluates_block declares_accumulators ?_
    rw [body_silentPlan, ← List.append_assoc, Environment.push_defineAll,
      ← Frame.scope]
    exact hrun.append (.cons hresult .nil)
  rwa [Environment.pop_under, ← locals_silentPlan] at hblock

/-- The function of a silent tree does what a direct walk of the tree does.  It
runs the tests of the nodes of the walk, each of them once, and no other. -/
theorem invoke_follows_walk {compiled : Compiled} {log : Log}
    (hcompile : tree.compile ctx = (some compiled, log)) (hsilent : tree.Silent)
    (hlimit : 1 ≤ ctx.options.nodeErrorLimit)
    (hsmall : ctx.options.nodeErrorLimit < Decimal.twoPow 32)
    (hplain : machine.HasBuiltins) (hloaded : compiled.IsLoaded machine)
    (hjudged : Judged tree verdict ctx machine)
    (hgas : ∀ after, Eval.invoke compiled.function [] machine ≠
      .error .gasExhausted after) :
    ∃ before last spent, Reached tree verdict before last ∧
      (∀ target, (last.branch (verdict last).outcome).exit ≠ .node target) ∧
      ((before ++ [last]).map Node.name).Nodup ∧
      Eval.invoke compiled.function [] machine =
        .ok (walkAnswer tree verdict ctx.scene before last)
          { machine with
            env := machine.env.assign "simp" (simpOf machine.env)
            gas := spent } := by
  obtain ⟨traversal, hwalk, rfl⟩ := compile_silent hsilent hcompile
  obtain ⟨before, last, hreached, hends, hnodup, heval⟩ :=
    evaluates_body (walked_of_walk hwalk) hplain hlimit hsmall hjudged
  obtain ⟨hhost, body, hbody, hdefined⟩ := hloaded
  cases hbody
  rcases Expr.ends_apply hhost hdefined heval machine.remaining machine.gas with
    ⟨spent, hout⟩ | ⟨spent, hdone⟩
  · exact absurd hout (hgas spent)
  · refine ⟨before, last, spent, hreached, hends, hnodup, ?_⟩
    rw [Environment.assign_under_free _ rfl, Environment.pop_under] at hdone
    exact hdone

/-- A fork: the first test fails and leads to the second one, which passes and
leaves for a scene. -/
def forkTree : ResponseTree where
  name := "p"
  value := 1.0
  scoreMode := .best
  feedbackVariables := ""
  root := "a"
  nodes :=
    [⟨"a", "Same", "1", "2", "", true, .plain,
        { Branch.plain with exit := .node "b" }⟩,
      ⟨"b", "Same", "1", "1", "", false,
        { Branch.plain with exit := .scene "end" }, .plain⟩]

def forkContext : TreeContext where
  options := .default
  registry := Registry.register .empty ⟨"Same", .none, true, false⟩
  scene := "start"
  sceneNames := ["start", "end"]
  inputs := []
  stateVariables := []
  reader := none

/-- A test for equal numbers. -/
def sameTest : HostFunction
  | [left, right] =>
      .ok (.list [.bool (left.looselyEquals right), .str "", .str ""])
  | args => .error (.arity "ATSame" (.exactly 2) args.length)

def forkVerdict (node : Node) : Verdict :=
  .judged (node.name == "b") (.str "") (.str "")

/-- A machine that knows the test, and the function of the fork. -/
def forkMachine (compiled : Compiled) : Machine :=
  match compiled.expr.eval ((Machine.fresh 1000).register "ATSame" sameTest) with
  | .ok _ after => after
  | .error _ after => after

theorem forkTree_silent : forkTree.Silent where
  setup := rfl
  branches := by
    have hplain : ∀ exit, Branch.Silent { Branch.plain with exit := exit } :=
      fun _ => ⟨by simp [Branch.plain], by simp [Branch.plain], rfl, rfl⟩
    intro node hnode outcome
    simp only [forkTree, List.mem_cons, List.not_mem_nil, or_false] at hnode
    rcases hnode with rfl | rfl <;> cases outcome <;> exact hplain _

theorem forkTree_compiles : (forkTree.compile forkContext).1.isSome = true := by
  decide +kernel

/-- What is compiled of the fork. -/
def forkCompiled : Compiled :=
  (forkTree.compile forkContext).1.get forkTree_compiles

theorem forkTree_compile :
    forkTree.compile forkContext =
      (some forkCompiled, (forkTree.compile forkContext).2) := by
  rw [forkCompiled, Option.some_get]

theorem forkCompiled_isLoaded :
    forkCompiled.IsLoaded (forkMachine forkCompiled) := by
  obtain ⟨traversal, hwalk, hassemble⟩ :=
    compile_silent forkTree_silent forkTree_compile
  rw [hassemble]
  exact ⟨rfl, _, rfl, rfl⟩

theorem forkMachine_hasBuiltins :
    (forkMachine forkCompiled).HasBuiltins := by
  obtain ⟨traversal, hwalk, hassemble⟩ :=
    compile_silent forkTree_silent forkTree_compile
  rw [hassemble]
  intro builtin
  cases builtin <;> exact ⟨rfl, rfl⟩

theorem forkTree_judged :
    Judged forkTree forkVerdict forkContext (forkMachine forkCompiled) := by
  obtain ⟨traversal, hwalk, hassemble⟩ :=
    compile_silent forkTree_silent forkTree_compile
  intro visited node hreached
  refine ⟨trivial, ?_⟩
  have hhost : (forkMachine forkCompiled).hosts.get? "ATSame" = some sameTest := by
    rw [hassemble]
    rfl
  have hnode := hreached.mem
  simp only [forkTree, List.mem_cons, List.not_mem_nil, or_false] at hnode
  rcases hnode with rfl | rfl
  · exact Expr.evaluates_host hhost (by decide) (.cons (Expr.evaluates_nat (n := 1) (by decide))
      (.cons (Expr.evaluates_nat (n := 2) (by decide)) .nil)) rfl
  · exact Expr.evaluates_host hhost (by decide) (.cons (Expr.evaluates_nat (n := 1) (by decide))
      (.cons (Expr.evaluates_nat (n := 1) (by decide)) .nil)) rfl

/-- Does a run end at the step budget? -/
def endsAtBudget (result : EStateM.Result EvalError Machine Value) : Bool :=
  match result with
  | .error .gasExhausted _ => true
  | _ => false

theorem ne_exhausted {result : EStateM.Result EvalError Machine Value}
    (h : endsAtBudget result = false) (after : Machine) : result ≠ .error .gasExhausted after := by
  rintro rfl
  cases h

/-- The function of the fork visits both nodes. -/
theorem invoke_fork :
    ∃ before last spent, Reached forkTree forkVerdict before last ∧
      (∀ target,
        (last.branch (forkVerdict last).outcome).exit ≠ .node target) ∧
      ((before ++ [last]).map Node.name).Nodup ∧
      Eval.invoke forkCompiled.function [] (forkMachine forkCompiled) =
        .ok (walkAnswer forkTree forkVerdict "start" before last)
          { forkMachine forkCompiled with
            env := (forkMachine forkCompiled).env.assign "simp"
              (simpOf (forkMachine forkCompiled).env)
            gas := spent } := by
  refine invoke_follows_walk forkTree_compile forkTree_silent (by decide)
    (by decide) forkMachine_hasBuiltins forkCompiled_isLoaded forkTree_judged ?_
  intro after hout
  have hrun : endsAtBudget (Eval.invoke forkCompiled.function []
      (forkMachine forkCompiled)) = false := by
    decide +kernel
  rw [hout] at hrun
  cases hrun

end ResponseTree

end SceneQuiz
