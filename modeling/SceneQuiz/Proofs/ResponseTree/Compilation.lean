import SceneQuiz.Proofs.Diagnostic.Stored
import SceneQuiz.Proofs.ResponseTree.Order
import SceneQuiz.ResponseTree.Code
/-!
What the compilation of a response tree reports, and what it depends on.  A tree that is
not compiled has errors to show, and all diagnostics point at places of the tree.  Of the
other scenes it only matters which names they have.
-/

namespace SceneQuiz

open Logged (StaysWithin)

variable {P : Locator → Prop}

/-- What is wrong with a template is wrong with the template as a whole. -/
theorem Template.within_compile {template : Template} {ctx : TemplateContext} {log : Log}
    (h : template.compile ctx = .error log) (hwhole : P []) : log.Within P := by
  rw [compile] at h
  split at h
  · cases h
  · next faults _ =>
      cases h
      apply Log.within_ofErrors
      intro diagnostic hdiagnostic
      obtain ⟨fault, -, rfl⟩ := List.mem_map.mp hdiagnostic
      rw [TemplateFault.diagnostic]
      split <;> exact hwhole

theorem Template.filled_compile {template : Template} {ctx : TemplateContext} {log : Log}
    (h : template.compile ctx = .error log) : log.Filled :=
  (within_compile h (P := fun _ => True) trivial).filled

/-- Arguments of tests are reported by their fields. -/
theorem TestFault.exists_field {fault : TestFault} {path : Locator} {diagnostic : Diagnostic}
    (h : diagnostic ∈ fault.diagnostics path) :
    ∃ field ∈ ["test", "sans", "tans", "options"],
      diagnostic.path = path ++ [Segment.field field] := by
  cases fault with
  | unknown codename =>
      rw [diagnostics, List.mem_singleton] at h
      exact ⟨"test", by simp, by rw [h, Diagnostic.path_error]⟩
  | invalid codename faults =>
      rw [diagnostics] at h
      obtain ⟨fault, -, rfl⟩ := List.mem_map.mp h
      exact ⟨fault.field, by cases fault <;> simp [ArgumentFault.field],
        Diagnostic.path_error _ _ _⟩

namespace ResponseTree

variable {tree : ResponseTree} {ctx : TreeContext} {traversal : Traversal}

/-- What a diagnostic about a tree can point at: the tree, a node, or one of their
parts. -/
inductive Place (tree : ResponseTree) : Locator → Prop
  | whole : Place tree []
  | part {field : String} : field ∈ ["name", "root", "nodes", "feedback_variables"] →
      Place tree [.field field]
  | node {index : Nat} : index < tree.nodes.length → Place tree [.node index]
  | nodePart {index : Nat} {field : String} : index < tree.nodes.length →
      field ∈ ["name", "test", "sans", "tans", "options"] →
      Place tree [.node index, .field field]
  | branchPart {index : Nat} (outcome : Bool) {field : String} : index < tree.nodes.length →
      field ∈ ["score", "penalty", "feedback", "exit", "variables"] →
      Place tree [.node index, .branch outcome, .field field]

theorem within_planScore {path : Locator} (h : P path) (source : Option String)
    (change : ScoreChange) (accumulator : String) :
    StaysWithin P (planScore source change accumulator path) := by
  cases source with
  | none => exact .of_pure none
  | some source => exact (StaysWithin.optionalExpr? h source).bind fun _ => .of_pure _

theorem within_planTest {path : Locator}
    (h : ∀ field ∈ ["test", "sans", "tans", "options"], P (path ++ [Segment.field field]))
    (node : Node) : StaysWithin P (planTest ctx node path) := by
  have hfault : ∀ fault : TestFault, ∀ diagnostic ∈ fault.diagnostics path,
      P diagnostic.path := by
    intro fault diagnostic hdiagnostic
    obtain ⟨field, hfield, hpath⟩ := TestFault.exists_field hdiagnostic
    rw [hpath]
    exact h field hfield
  rw [planTest]
  apply (StaysWithin.expr? (h "sans" (by simp)) _).bind
  intro student
  apply (StaysWithin.optionalExpr? (h "tans" (by simp)) _).bind
  intro teacher
  apply (StaysWithin.optionalExpr? (h "options" (by simp)) _).bind
  intro options
  split
  · next fault _ => exact (StaysWithin.errors (hfault fault)).bind fun _ => .of_pure _
  · split
    · exact .of_pure _
    · split
      · exact .of_pure _
      · next fault _ =>
          refine (StaysWithin.errors fun diagnostic hdiagnostic => ?_).bind fun _ => .of_pure _
          exact hfault fault diagnostic (List.mem_of_mem_filter hdiagnostic)

theorem within_planExit {path : Locator}
    (h : ∀ field ∈ ["exit", "variables"], P (path ++ [Segment.field field])) (node : Node)
    (branch : Branch) : StaysWithin P (planExit ctx node branch path) := by
  have hvariables := h "variables" (by simp)
  have hleave : ∀ target : String, StaysWithin P (do
      let code ← Logged.fragment? branch.transitionCode (path ++ [Segment.field "variables"])
      return some (⟨target, code.getD []⟩ : Transition)) := fun _ =>
    (StaysWithin.fragment? hvariables _).bind fun _ => .of_pure _
  rw [planExit]
  cases branch.exit with
  | scene target =>
      have hunknown : P ((Fault.unknownSceneTarget node.name target).diagnostic
          (path ++ [Segment.field "exit"])).path := by
        rw [Fault.diagnostic, Diagnostic.path_error]
        exact h "exit" (by simp)
      dsimp only
      split
      · exact (StaysWithin.error hunknown).bind fun _ => hleave target
      · exact hleave target
  | stateTransition => exact hleave ctx.scene
  | finish | node target =>
      dsimp only
      split
      · refine (StaysWithin.warning ?_).bind fun _ => .of_pure none
        rwa [Diagnostic.path_warning]
      · exact .of_pure none

theorem within_planFeedback {path : Locator} (h : P path) (feedback : Template) :
    StaysWithin P (planFeedback ctx feedback path) := by
  rw [planFeedback]
  split
  · exact .of_pure none
  · split
    · exact .of_pure _
    · next log hcompile =>
        have hlog := Template.within_compile (P := fun inner => P (path ++ inner)) hcompile
          (by rwa [List.append_nil])
        exact (StaysWithin.absorb hlog).bind fun _ => .of_pure none

theorem within_planBranch {nodePath : Locator} {outcome : Bool}
    (h : ∀ field ∈ ["score", "penalty", "feedback", "exit", "variables"],
      P (nodePath ++ [Segment.branch outcome] ++ [Segment.field field])) (node : Node) :
    StaysWithin P (planBranch tree ctx node outcome nodePath) := by
  have hscore : ∀ source change accumulator path {next : Option Expr → Logged BranchPlan},
      P path → (∀ value, StaysWithin P (next value)) →
        StaysWithin P (if tree.isScored then planScore source change accumulator path >>= next
          else pure none >>= next) := by
    intro source change accumulator path next hpath hnext
    split
    · exact (within_planScore hpath source change accumulator).bind hnext
    · exact (StaysWithin.of_pure none).bind hnext
  refine hscore _ _ _ _ (h "score" (by simp)) fun score => ?_
  refine hscore _ _ _ _ (h "penalty" (by simp)) fun penalty => ?_
  have hexit : ∀ field ∈ ["exit", "variables"],
      P (nodePath ++ [Segment.branch outcome] ++ [Segment.field field]) := fun field hfield =>
    h field (List.mem_append_right ["score", "penalty", "feedback"] hfield)
  refine (within_planExit hexit _ _).bind fun transition => ?_
  exact (within_planFeedback (h "feedback" (by simp)) _).bind fun feedback => .of_pure _

theorem within_planNode {index : Nat} (h : index < tree.nodes.length) (node : Node) :
    StaysWithin tree.Place (planNode tree ctx traversal index node) := by
  have htest : ∀ field ∈ ["test", "sans", "tans", "options"],
      tree.Place ([Segment.node index] ++ [Segment.field field]) := fun _ hfield =>
    .nodePart h (List.mem_cons_of_mem "name" hfield)
  refine (within_planTest htest node).bind fun _ => ?_
  refine (within_planBranch (fun _ hfield => .branchPart true h hfield) node).bind fun _ => ?_
  exact (within_planBranch (fun _ hfield => .branchPart false h hfield) node).bind fun _ =>
    .of_pure _

theorem within_planNodes (indices : List Nat) :
    StaysWithin tree.Place (planNodes tree ctx traversal indices) := by
  induction indices with
  | nil => exact .of_pure []
  | cons index rest ih =>
      rw [planNodes]
      split
      · exact ih
      · next node hnode =>
          have hindex := (List.getElem?_eq_some_iff.mp hnode).1
          exact (within_planNode hindex node).bind fun _ => ih.bind fun _ => .of_pure _

theorem within_plan (tree : ResponseTree) (ctx : TreeContext) (traversal : Traversal) :
    StaysWithin tree.Place (tree.plan ctx traversal) :=
  (StaysWithin.fragment? (.part (by simp)) _).bind fun _ =>
    (within_planNodes _).bind fun _ => .of_pure _

theorem place_faultPath (tree : ResponseTree) (fault : Fault) :
    tree.Place (tree.faultPath fault) := by
  have hnode : ∀ name, tree.Place (tree.faultPath (.unknownExitTarget name "")) := by
    intro name
    rw [faultPath]
    dsimp only
    split
    · next index hindex =>
        obtain ⟨found, hfound, -⟩ := indexOf?_eq_some hindex
        exact .node (List.getElem?_eq_some_iff.mp hfound).1
    · exact .part (by simp)
  cases fault with
  | missingRoot root => exact .part (by simp)
  | cycle path =>
      cases path with
      | nil => exact .whole
      | cons name rest => exact hnode name
  | unknownExitTarget name target | unknownSceneTarget name target => exact hnode name
  | duplicateNode name => exact .part (by simp)

theorem place_orphan (hwalk : tree.walk = .ok traversal) {warning : Diagnostic}
    (h : warning ∈ tree.orphanWarnings traversal) : tree.Place warning.path := by
  obtain ⟨index, hindex, rfl⟩ := List.mem_map.mp h
  have hrange : index < traversal.graph.length :=
    List.mem_range.mp (List.mem_of_mem_filter hindex)
  rw [length_graph (walked_of_walk hwalk).graph] at hrange
  rw [Diagnostic.path_warning]
  exact .node hrange

/-- What is reported about a tree points at places of the tree. -/
theorem within_compile (tree : ResponseTree) (ctx : TreeContext) :
    (tree.compile ctx).2.Within tree.Place := by
  rw [compile]
  split
  · next fault _ =>
      have hfault : tree.Place (fault.diagnostic (tree.faultPath fault)).path := by
        rw [Fault.diagnostic, Diagnostic.path_error]
        exact place_faultPath tree fault
      exact Log.within_ofErrors (List.forall_mem_singleton.mpr hfault)
  · next traversal hwalk =>
      have hwarned : ((tree.orphanWarnings traversal).foldl Log.pushWarning .empty).Within
          tree.Place := ⟨Log.filled_empty.pushWarnings _,
        (Log.located_empty _).pushWarnings fun _ => place_orphan hwalk⟩
      have hplan := within_plan tree ctx traversal _ hwarned
      cases hrun : (tree.plan ctx traversal).run
        ((tree.orphanWarnings traversal).foldl Log.pushWarning .empty) with
      | mk plan log =>
          rw [hrun] at hplan
          simp only [hrun]
          split <;> exact hplan

theorem filled_compile (tree : ResponseTree) (ctx : TreeContext) :
    (tree.compile ctx).2.Filled := (within_compile tree ctx).filled

variable {names : List String}

theorem planExit_sceneNames (hnames : ∀ name, name ∈ names ↔ name ∈ ctx.sceneNames) (node : Node)
    (branch : Branch) (path : Locator) :
    planExit { ctx with sceneNames := names } node branch path = planExit ctx node branch path := by
  unfold planExit
  simp only [hnames]

theorem planBranch_sceneNames (hnames : ∀ name, name ∈ names ↔ name ∈ ctx.sceneNames)
    (node : Node) (outcome : Bool) (nodePath : Locator) :
    planBranch tree { ctx with sceneNames := names } node outcome nodePath =
      planBranch tree ctx node outcome nodePath := by
  unfold planBranch
  simp only [planExit_sceneNames hnames]
  rfl

theorem planNode_sceneNames (hnames : ∀ name, name ∈ names ↔ name ∈ ctx.sceneNames) (index : Nat)
    (node : Node) :
    planNode tree { ctx with sceneNames := names } traversal index node =
      planNode tree ctx traversal index node := by
  unfold planNode
  simp only [planBranch_sceneNames hnames]
  rfl

theorem planNodes_sceneNames (hnames : ∀ name, name ∈ names ↔ name ∈ ctx.sceneNames)
    (indices : List Nat) :
    planNodes tree { ctx with sceneNames := names } traversal indices =
      planNodes tree ctx traversal indices := by
  induction indices with
  | nil => rfl
  | cons index rest ih =>
      unfold planNodes
      simp only [planNode_sceneNames hnames, ih]

/-- A tree is compiled alike wherever there are the same scenes. -/
theorem compile_sceneNames (tree : ResponseTree)
    (hnames : ∀ name, name ∈ names ↔ name ∈ ctx.sceneNames) :
    tree.compile { ctx with sceneNames := names } = tree.compile ctx := by
  unfold compile
  simp only [plan, planNodes_sceneNames hnames]
  rfl

end ResponseTree

end SceneQuiz
