import Mathlib.Data.List.Pairwise
import SceneQuiz.Proofs.ResponseTree.DirectWalk
import SceneQuiz.Proofs.ResponseTree.Visit
/-!
What a walk finds, told without the walk.  Branches that lead from node to node
make a relation on the nodes of a tree; the walk of an accepted tree lists
exactly the nodes that the root reaches by it, and a tree is refused exactly if
its names or targets are wrong or the root reaches a cycle.
-/

namespace SceneQuiz

namespace ResponseTree

open Relation (ReflTransGen TransGen)

section Relations

variable (tree : ResponseTree)

/-- The names of the nodes, in declaration order. -/
def nodeNames : List String := tree.nodes.map Node.name

/-- The branch of this outcome leads from one node to the other. -/
def Exits (outcome : Bool) (source target : Nat) : Prop :=
  ∃ node next, tree.nodes[source]? = some node ∧
    tree.nodes[target]? = some next ∧
      (node.branch outcome).exit = .node next.name

/-- Some branch leads from one node to the other. -/
def Links (source target : Nat) : Prop :=
  ∃ outcome, tree.Exits outcome source target

/-- Branches lead from a node with the name of the root to this node. -/
def Reaches (index : Nat) : Prop :=
  ∃ root node, tree.nodes[root]? = some node ∧ node.name = tree.root ∧
    ReflTransGen tree.Links root index

/-- Some branch leads to a node that is not declared. -/
def HasStray : Prop :=
  ∃ node ∈ tree.nodes, ∃ outcome target,
    (node.branch outcome).exit = .node target ∧ target ∉ tree.nodeNames

/-- The root reaches a node that leads back to itself. -/
def HasCycle : Prop :=
  ∃ index, tree.Reaches index ∧ TransGen tree.Links index index

/-- Names along branches from a node that the root reaches back to it. -/
structure IsCycle (path : List String) : Prop where
  closed : path.head? = path.getLast?
  long : 2 ≤ path.length
  joined : path.IsChain fun name next =>
    ∃ node ∈ tree.nodes, node.name = name ∧
      ∃ outcome, (node.branch outcome).exit = .node next
  reached : ∀ name ∈ path, ∃ index node, tree.nodes[index]? = some node ∧
    node.name = name ∧ tree.Reaches index

end Relations

variable {tree : ResponseTree} {graph : Graph}

theorem indexOf?_eq_none_iff {name : String} :
    tree.indexOf? name = none ↔ name ∉ tree.nodeNames := by
  simp [indexOf?, nodeNames]

/-- The edges of the graph are the branches that lead to nodes. -/
theorem mem_edges_iff_exits (hgraph : tree.graph = .ok graph)
    (hnames : tree.nodeNames.Nodup) {outcome : Bool} {source target : Nat} :
    (⟨outcome, target⟩ : Edge) ∈ graph.edges source ↔
      tree.Exits outcome source target := by
  cases hnode : tree.nodes[source]? with
  | none =>
      have hout : graph[source]? = none := by
        rw [List.getElem?_eq_none_iff] at hnode ⊢
        rwa [length_graph hgraph]
      simp [Graph.edges, Exits, hout, hnode]
  | some node =>
      rw [mem_edges_iff hgraph hnode]
      constructor
      · rintro ⟨name, hexit, hindex⟩
        obtain ⟨next, hnext, rfl⟩ := indexOf?_eq_some hindex
        exact ⟨node, next, hnode, hnext, hexit⟩
      · rintro ⟨same, next, hsame, hnext, hexit⟩
        rw [hnode, Option.some.injEq] at hsame
        subst hsame
        exact ⟨next.name, hexit, indexOf?_name hnames hnext⟩

theorem links_graph (hgraph : tree.graph = .ok graph)
    (hnames : tree.nodeNames.Nodup) : graph.Links = tree.Links := by
  funext source target
  exact propext (exists_congr fun _ => mem_edges_iff_exits hgraph hnames)

theorem reaches_iff (hnames : tree.nodeNames.Nodup) {root index : Nat}
    (hroot : tree.indexOf? tree.root = some root) :
    tree.Reaches index ↔ ReflTransGen tree.Links root index := by
  constructor
  · rintro ⟨other, node, hnode, hname, hlinks⟩
    have hother := indexOf?_name hnames hnode
    rw [hname, hroot, Option.some.injEq] at hother
    exact hother ▸ hlinks
  · intro hlinks
    obtain ⟨node, hnode, hname⟩ := indexOf?_eq_some hroot
    exact ⟨root, node, hnode, hname, hlinks⟩

/-- Only nodes of the tree are reached. -/
theorem Reaches.exists_node {index : Nat} (h : tree.Reaches index) :
    ∃ node, tree.nodes[index]? = some node := by
  obtain ⟨root, first, hfirst, -, hlinks⟩ := h
  rcases Relation.ReflTransGen.cases_tail hlinks with rfl | ⟨_, -, _, _, next, -, hnext, -⟩
  · exact ⟨first, hfirst⟩
  · exact ⟨next, hnext⟩

theorem exists_of_mapM_eq_error {α β ε : Type} {f : α → Except ε β}
    {items : List α} {error : ε} (h : items.mapM f = .error error) :
    ∃ item ∈ items, f item = .error error := by
  induction items with
  | nil => cases h
  | cons item rest ih =>
      rw [List.mapM_cons] at h
      cases hitem : f item with
      | error found =>
          simp only [hitem, bind, Except.bind, Except.error.injEq] at h
          exact ⟨item, List.mem_cons_self, h ▸ hitem⟩
      | ok result =>
          cases hrest : rest.mapM f with
          | error found =>
              simp only [hitem, hrest, bind, Except.bind, Except.error.injEq] at h
              obtain ⟨other, hother, herror⟩ := ih (h ▸ hrest)
              exact ⟨other, List.mem_cons_of_mem item hother, herror⟩
          | ok results => simp [hitem, hrest, bind, Except.bind, pure, Except.pure] at h

/-- Without a graph, some branch leads to a node that is not declared. -/
theorem hasStray_of_graph_eq_error {fault : Fault}
    (h : tree.graph = .error fault) :
    tree.HasStray ∧ ∃ node target, fault = .unknownExitTarget node target := by
  obtain ⟨node, hnode, hmap⟩ := exists_of_mapM_eq_error h
  obtain ⟨⟨outcome, target⟩, htarget, hedge⟩ := exists_of_mapM_eq_error hmap
  cases hindex : tree.indexOf? target with
  | some index => simp [edge, hindex] at hedge
  | none =>
      simp only [edge, hindex, Except.error.injEq] at hedge
      exact ⟨⟨node, hnode, outcome, target, mem_targets_iff.mp htarget,
        indexOf?_eq_none_iff.mp hindex⟩, node.name, target, hedge.symm⟩

theorem not_hasStray_of_graph (hgraph : tree.graph = .ok graph) :
    ¬ tree.HasStray := by
  rintro ⟨node, hnode, outcome, target, hexit, hstray⟩
  obtain ⟨index, hindex, rfl⟩ := List.mem_iff_getElem.mp hnode
  obtain ⟨place, hplace⟩ := indexOf?_of_exit hgraph
    (List.getElem?_eq_getElem hindex) hexit
  rw [indexOf?_eq_none_iff.mpr hstray] at hplace
  cases hplace

/-- What a walk can end in, and why. -/
theorem walk_cases (tree : ResponseTree) :
    (∃ name, tree.walk = .error (.duplicateNode name) ∧
      ¬ tree.nodeNames.Nodup) ∨
    (tree.walk = .error (.missingRoot tree.root) ∧
      tree.root ∉ tree.nodeNames) ∨
    (∃ node target, tree.walk = .error (.unknownExitTarget node target) ∧
      tree.HasStray) ∨
    ∃ graph root, tree.nodeNames.Nodup ∧ tree.indexOf? tree.root = some root ∧
      tree.graph = .ok graph ∧
      ((∃ order, visit graph (tree.nodes.length + 1) [] [] root = .ok order ∧
          tree.walk = .ok ⟨graph, order⟩) ∨
        ∃ cycle, visit graph (tree.nodes.length + 1) [] [] root = .error cycle ∧
          tree.walk = .error (.cycle (cycle.map tree.nameOf))) := by
  cases hrepeat : firstRepeat? [] (tree.nodes.map Node.name) with
  | some name =>
      refine Or.inl ⟨name, by simp [walk, hrepeat], fun hnodup => ?_⟩
      have hnone := firstRepeat?_eq_none_iff.mpr
        ⟨hnodup, fun other _ => List.not_mem_nil (a := other)⟩
      exact absurd (hrepeat.symm.trans hnone) (by simp)
  | none =>
      have hnames : tree.nodeNames.Nodup := (firstRepeat?_eq_none_iff.mp hrepeat).1
      cases hroot : tree.indexOf? tree.root with
      | none =>
          exact Or.inr (Or.inl
            ⟨by simp [walk, hrepeat, hroot], indexOf?_eq_none_iff.mp hroot⟩)
      | some root =>
          cases hgraph : tree.graph with
          | error fault =>
              obtain ⟨hstray, node, target, rfl⟩ := hasStray_of_graph_eq_error hgraph
              refine Or.inr (Or.inr (Or.inl ⟨node, target, ?_, hstray⟩))
              simp [walk, hrepeat, hroot, hgraph, bind, Except.bind]
          | ok graph =>
              refine Or.inr (Or.inr (Or.inr ⟨graph, root, hnames, rfl, rfl, ?_⟩))
              cases hvisit : visit graph (tree.nodes.length + 1) [] [] root with
              | ok order =>
                  refine Or.inl ⟨order, rfl, ?_⟩
                  simp [walk, hrepeat, hroot, hgraph, hvisit, bind, Except.bind]
              | error cycle =>
                  refine Or.inr ⟨cycle, rfl, ?_⟩
                  simp [walk, hrepeat, hroot, hgraph, hvisit, bind, Except.bind]

/-- A walk lists the nodes that the root reaches. -/
theorem mem_order_iff {traversal : Traversal} (h : tree.walk = .ok traversal)
    {index : Nat} : index ∈ traversal.order ↔ tree.Reaches index := by
  have hwalked := walked_of_walk h
  rcases walk_cases tree with ⟨_, herror, -⟩ | ⟨herror, -⟩ | ⟨_, _, herror, -⟩ |
    ⟨graph, root, hnames, hroot, hgraph, ⟨order, hvisit, hok⟩ | ⟨_, -, herror⟩⟩
  · simp [h] at herror
  · simp [h] at herror
  · simp [h] at herror
  · rw [h, Except.ok.injEq] at hok
    subst hok
    obtain ⟨first, rest, hfirst, horder⟩ := hwalked.root
    rw [hroot, Option.some.injEq] at hfirst
    subst hfirst
    change order = root :: rest at horder
    rw [reaches_iff hnames hroot, ← links_graph hgraph hnames]
    constructor
    · intro hindex
      rcases visit_reaches _ hvisit index hindex with hnone | hlinks
      · cases hnone
      · exact hlinks
    · intro hlinks
      have hfirst : root ∈ order := by
        simp only [horder, List.mem_cons_self]
      exact hwalked.ordered.mem_of_reflTransGen hfirst hlinks
  · simp [h] at herror

theorem nodup_edges (hgraph : tree.graph = .ok graph) {index : Nat}
    {node : Node} (hnode : tree.nodes[index]? = some node) :
    (graph.edges index).Nodup := by
  obtain ⟨edges, hedges, hmap⟩ := forall₂_at (mapM_eq_ok hgraph) hnode
  have houtcomes : edges.map Edge.outcome = node.targets.map Prod.fst := by
    rw [← List.forall₂_eq_eq_eq, List.forall₂_map_left_iff,
      List.forall₂_map_right_iff]
    refine (mapM_eq_ok hmap).flip.imp fun edge target hedge => ?_
    cases hindex : tree.indexOf? target.2 with
    | none => simp [ResponseTree.edge, hindex] at hedge
    | some place =>
        simp only [ResponseTree.edge, hindex, Except.ok.injEq] at hedge
        rw [← hedge]
  have htargets : (node.targets.map Prod.fst).Nodup := by
    cases hyes : (node.branch true).exit.nodeTarget? <;>
      cases hno : (node.branch false).exit.nodeTarget? <;>
        simp [Node.targets, outcomes, hyes, hno]
  have hsame : graph.edges index = edges := by simp [Graph.edges, hedges]
  rw [hsame]
  exact List.Nodup.of_map Edge.outcome (houtcomes ▸ htargets)

theorem nameOf_eq {index : Nat} {node : Node}
    (hnode : tree.nodes[index]? = some node) : tree.nameOf index = node.name := by
  simp [nameOf, hnode]

theorem nameOf_inj (hnames : tree.nodeNames.Nodup) {first second : Nat}
    (hfirst : first < tree.nodes.length) (hsecond : second < tree.nodes.length)
    (h : tree.nameOf first = tree.nameOf second) : first = second := by
  have hone := List.getElem?_eq_getElem hfirst
  have htwo := List.getElem?_eq_getElem hsecond
  rw [nameOf_eq hone, nameOf_eq htwo] at h
  have hplace := indexOf?_name hnames hone
  rw [h, indexOf?_name hnames htwo, Option.some.injEq] at hplace
  exact hplace.symm

/-- No mark of a branch that leads into a node is listed twice. -/
theorem nodup_entries {traversal : Traversal} (hwalked : Walked tree traversal)
    (index : Nat) : (traversal.entries tree index).Nodup := by
  unfold Traversal.entries
  rw [List.nodup_flatMap]
  constructor
  · intro source hsource
    have hnode := List.getElem?_eq_getElem (hwalked.within source hsource)
    refine (nodup_edges hwalked.graph hnode).filterMap ?_
    rintro ⟨outcome, target⟩ ⟨result, other⟩ token hfirst hsecond
    by_cases hone : target = index
    · by_cases htwo : other = index
      · simp only [hone, htwo, if_true, Option.mem_def, Option.some.injEq]
          at hfirst hsecond
        rw [hone, htwo, (pathToken_inj (hfirst.trans hsecond.symm)).2]
      · simp [htwo] at hsecond
    · simp [hone] at hfirst
  · refine hwalked.ordered.nodup.imp_of_mem fun {first second} hfirst hsecond hne => ?_
    intro token hone htwo
    obtain ⟨edge, -, hedge⟩ := List.mem_filterMap.mp hone
    obtain ⟨other, -, hother⟩ := List.mem_filterMap.mp htwo
    split at hedge
    · split at hother
      · have hsame := (Option.some.inj hedge).trans (Option.some.inj hother).symm
        exact hne (nameOf_inj hwalked.names (hwalked.within first hfirst)
          (hwalked.within second hsecond) (pathToken_inj hsame).1)
      · cases hother
    · cases hedge

/-- The walk of an accepted tree: every node that the root reaches is listed
once, the root first and each node before those it leads to; all other nodes
are orphans; and the marks that lead into a node are those of the branches of
reached nodes. -/
theorem walk_lists_reached {tree : ResponseTree} {traversal : Traversal}
    (h : tree.walk = .ok traversal) :
    traversal.order.Nodup ∧
    (∃ root node, traversal.order.head? = some root ∧
      tree.nodes[root]? = some node ∧ node.name = tree.root) ∧
    (∀ index, index ∈ traversal.order ↔ tree.Reaches index) ∧
    (∀ source target, tree.Reaches source → tree.Links source target →
      target ∈ traversal.order ∧
        traversal.order.idxOf source < traversal.order.idxOf target) ∧
    traversal.orphans.Pairwise (· < ·) ∧
    (∀ index, index ∈ traversal.orphans ↔
      index < tree.nodes.length ∧ ¬ tree.Reaches index) ∧
    ∀ index, tree.Reaches index →
      (traversal.entries tree index).Nodup ∧
      ∀ token, token ∈ traversal.entries tree index ↔
        ∃ source node outcome, tree.nodes[source]? = some node ∧
          tree.Reaches source ∧ tree.Exits outcome source index ∧
            token = pathToken node.name outcome := by
  have hwalked := walked_of_walk h
  have hlinks := links_graph hwalked.graph hwalked.names
  refine ⟨hwalked.ordered.nodup, ?_, fun index => mem_order_iff h, ?_, ?_, ?_, ?_⟩
  · obtain ⟨root, rest, hroot, horder⟩ := hwalked.root
    obtain ⟨node, hnode, hname⟩ := indexOf?_eq_some hroot
    exact ⟨root, node, by rw [horder, List.head?_cons], hnode, hname⟩
  · intro source target hsource hlink
    exact hwalked.ordered.idxOf_lt ((mem_order_iff h).mpr hsource) (hlinks ▸ hlink)
  · exact List.pairwise_lt_range.filter _
  · intro index
    rw [Traversal.orphans, length_graph hwalked.graph, List.mem_filter,
      List.mem_range, decide_eq_true_eq, mem_order_iff h]
  · intro index _
    refine ⟨nodup_entries hwalked index, fun token => ?_⟩
    rw [mem_entries_iff]
    constructor
    · rintro ⟨source, hsource, ⟨outcome, target⟩, hedge, rfl, rfl⟩
      have hnode := List.getElem?_eq_getElem (hwalked.within source hsource)
      exact ⟨source, _, outcome, hnode, (mem_order_iff h).mp hsource,
        (mem_edges_iff_exits hwalked.graph hwalked.names).mp hedge,
        by rw [nameOf_eq hnode]⟩
    · rintro ⟨source, node, outcome, hnode, hsource, hexits, rfl⟩
      exact ⟨source, (mem_order_iff h).mpr hsource, ⟨outcome, index⟩,
        (mem_edges_iff_exits hwalked.graph hwalked.names).mpr hexits, rfl,
        by rw [nameOf_eq hnode]⟩

/-- A node whose branches only lead on. -/
def bareNode (name : String) (onTrue onFalse : Exit) : Node :=
  ⟨name, "AlgEquiv", "ans1", "1", "", false, { Branch.plain with exit := onTrue },
    { Branch.plain with exit := onFalse }⟩

/-- Two ways from the root to one node, and a node beside them that leads to
itself. -/
def diamondTree : ResponseTree :=
  ⟨"p", 1.0, .first, "", "a",
    [bareNode "d" .finish .stateTransition, bareNode "a" (.node "b") (.node "c"),
      bareNode "b" .finish (.node "d"), bareNode "e" (.node "e") .finish,
      bareNode "c" (.node "d") (.node "d")]⟩

def diamondTraversal : Traversal :=
  ⟨[[], [⟨true, 2⟩, ⟨false, 4⟩], [⟨false, 0⟩], [⟨true, 3⟩],
    [⟨true, 0⟩, ⟨false, 0⟩]], [1, 4, 2, 0]⟩

theorem diamond_lists_reached :
    diamondTree.walk = .ok diamondTraversal ∧
    (∀ index, index ∈ [1, 4, 2, 0] ↔ diamondTree.Reaches index) ∧
    diamondTraversal.orphans = [3] ∧ ¬ diamondTree.Reaches 3 ∧
    diamondTraversal.entries diamondTree 0 = ["c-T", "c-F", "b-F"] ∧
    (diamondTraversal.entries diamondTree 0).Nodup := by
  have hwalk : diamondTree.walk = .ok diamondTraversal := by rfl
  obtain ⟨-, -, hlisted, -, -, horphans, hentries⟩ := walk_lists_reached hwalk
  have horphan : diamondTraversal.orphans = [3] := by decide +kernel
  refine ⟨hwalk, hlisted, horphan, ?_, by decide +kernel, ?_⟩
  · exact ((horphans 3).mp (by simp [horphan])).2
  · exact (hentries 0 ((hlisted 0).mp (by decide))).1

/-- A cycle of the graph, by the names of its nodes. -/
theorem isCycle_of_graph (hgraph : tree.graph = .ok graph)
    (hnames : tree.nodeNames.Nodup) {root : Nat}
    (hroot : tree.indexOf? tree.root = some root) {cycle : List Nat}
    (h : graph.IsCycle root cycle) :
    tree.IsCycle (cycle.map tree.nameOf) where
  closed := by rw [List.head?_map, List.getLast?_map, h.closed]
  long := by simpa using h.long
  joined := by
    rw [List.isChain_map]
    refine h.joined.imp fun source target hlink => ?_
    rw [links_graph hgraph hnames] at hlink
    obtain ⟨outcome, node, next, hnode, hnext, hexit⟩ := hlink
    exact ⟨node, List.mem_of_getElem? hnode, (nameOf_eq hnode).symm, outcome,
      by rw [nameOf_eq hnext, hexit]⟩
  reached := by
    intro name hname
    obtain ⟨index, hindex, rfl⟩ := List.mem_map.mp hname
    have hreaches : tree.Reaches index := by
      rw [reaches_iff hnames hroot, ← links_graph hgraph hnames]
      exact h.reached index hindex
    obtain ⟨node, hnode⟩ := hreaches.exists_node
    exact ⟨index, node, hnode, (nameOf_eq hnode).symm, hreaches⟩

theorem not_hasCycle_of_walk {traversal : Traversal}
    (h : tree.walk = .ok traversal) : ¬ tree.HasCycle := by
  rintro ⟨index, hreaches, hcycle⟩
  have hwalked := walked_of_walk h
  rw [← links_graph hwalked.graph hwalked.names] at hcycle
  exact hwalked.ordered.not_transGen ((mem_order_iff h).mpr hreaches) hcycle

/-- A visit that ends with a cycle has found one that the root reaches. -/
theorem cycle_of_visit (hgraph : tree.graph = .ok graph)
    (hnames : tree.nodeNames.Nodup) {root : Nat}
    (hroot : tree.indexOf? tree.root = some root) {fuel : Nat} {cycle : List Nat}
    (h : visit graph fuel [] [] root = .error cycle) :
    tree.IsCycle (cycle.map tree.nameOf) ∧ tree.HasCycle := by
  have hcycle : graph.IsCycle root cycle := visit_isCycle fuel
    (List.isChain_singleton root)
    (fun other hother => List.mem_singleton.mp hother ▸ ReflTransGen.refl) h
  refine ⟨isCycle_of_graph hgraph hnames hroot hcycle, ?_⟩
  obtain ⟨node, hnode, hback⟩ := hcycle.transGen
  have hreached := hcycle.reached node hnode
  rw [links_graph hgraph hnames] at hback hreached
  exact ⟨node, (reaches_iff hnames hroot).mpr hreached, hback⟩

theorem exists_walk_eq_error_iff :
    (∃ fault, tree.walk = .error fault) ↔
      ¬ tree.nodeNames.Nodup ∨ tree.root ∉ tree.nodeNames ∨ tree.HasStray ∨
        tree.HasCycle := by
  constructor
  · rintro ⟨fault, hfault⟩
    rcases walk_cases tree with ⟨_, -, hrepeat⟩ | ⟨-, hroot⟩ | ⟨_, _, -, hstray⟩ |
      ⟨graph, root, hnames, hroot, hgraph, ⟨order, -, hok⟩ | ⟨cycle, hvisit, -⟩⟩
    · exact Or.inl hrepeat
    · exact Or.inr (Or.inl hroot)
    · exact Or.inr (Or.inr (Or.inl hstray))
    · simp [hok] at hfault
    · exact Or.inr (Or.inr (Or.inr
        (cycle_of_visit hgraph hnames hroot hvisit).2))
  · intro hwrong
    cases hwalk : tree.walk with
    | error fault => exact ⟨fault, rfl⟩
    | ok traversal =>
        have hwalked := walked_of_walk hwalk
        obtain ⟨root, -, hroot, -⟩ := hwalked.root
        rcases hwrong with hrepeat | hmissing | hstray | hcycle
        · exact absurd hwalked.names hrepeat
        · simp [indexOf?_eq_none_iff.mpr hmissing] at hroot
        · exact absurd hstray (not_hasStray_of_graph hwalked.graph)
        · exact absurd hcycle (not_hasCycle_of_walk hwalk)

theorem exists_cycle_iff (hnames : tree.nodeNames.Nodup)
    (hroot : tree.root ∈ tree.nodeNames) (hstray : ¬ tree.HasStray) :
    (∃ path, tree.walk = .error (.cycle path)) ↔ tree.HasCycle := by
  rcases walk_cases tree with ⟨_, -, hrepeat⟩ | ⟨-, hmissing⟩ | ⟨_, _, -, hfound⟩ |
    ⟨graph, root, -, hindex, hgraph, ⟨order, -, hok⟩ | ⟨cycle, hvisit, herror⟩⟩
  · exact absurd hnames hrepeat
  · exact absurd hroot hmissing
  · exact absurd hfound hstray
  · have hnone := not_hasCycle_of_walk hok
    simp [hok, hnone]
  · have hfound := (cycle_of_visit hgraph hnames hindex hvisit).2
    simp [herror, hfound]

theorem isCycle_of_walk {path : List String}
    (h : tree.walk = .error (.cycle path)) : tree.IsCycle path := by
  rcases walk_cases tree with ⟨_, herror, -⟩ | ⟨herror, -⟩ | ⟨_, _, herror, -⟩ |
    ⟨graph, root, hnames, hroot, hgraph, ⟨order, -, herror⟩ | ⟨cycle, hvisit, herror⟩⟩
  · simp [herror] at h
  · simp [herror] at h
  · simp [herror] at h
  · simp [herror] at h
  · rw [herror, Except.error.injEq, Fault.cycle.injEq] at h
    exact h ▸ (cycle_of_visit hgraph hnames hroot hvisit).1

/-- When a walk fails.  More fuel would change nothing; it fails exactly if
names repeat, the root or a target is not declared, or the root reaches a cycle;
where only the last can happen, it happens exactly if a cycle is reported; and
what is reported is a cycle. -/
theorem walk_fails_iff (tree : ResponseTree) :
    (∀ graph root extra, tree.graph = .ok graph →
      tree.indexOf? tree.root = some root →
        visit graph (tree.nodes.length + 1 + extra) [] [] root =
          visit graph (tree.nodes.length + 1) [] [] root) ∧
    ((∃ fault, tree.walk = .error fault) ↔
      ¬ tree.nodeNames.Nodup ∨ tree.root ∉ tree.nodeNames ∨ tree.HasStray ∨
        tree.HasCycle) ∧
    (tree.nodeNames.Nodup → tree.root ∈ tree.nodeNames → ¬ tree.HasStray →
      ((∃ path, tree.walk = .error (.cycle path)) ↔ tree.HasCycle)) ∧
    ∀ path, tree.walk = .error (.cycle path) → tree.IsCycle path := by
  refine ⟨?_, exists_walk_eq_error_iff, exists_cycle_iff,
    fun path hpath => isCycle_of_walk hpath⟩
  intro graph root extra hgraph hroot
  obtain ⟨node, hnode, -⟩ := indexOf?_eq_some hroot
  exact visit_add_fuel (graph_within hgraph) extra _ (by simp) List.nodup_nil
    (by simp) (List.getElem?_eq_some_iff.mp hnode).1

/-- A root that leads into a cycle of two other nodes. -/
def loopTree : ResponseTree :=
  ⟨"p", 1.0, .first, "", "a",
    [bareNode "a" .finish (.node "b"), bareNode "b" (.node "c") .finish,
      bareNode "c" (.node "b") .finish]⟩

theorem loop_reported :
    loopTree.walk = .error (.cycle ["b", "c", "b"]) ∧ loopTree.HasCycle ∧
      loopTree.IsCycle ["b", "c", "b"] := by
  have hwalk : loopTree.walk = .error (.cycle ["b", "c", "b"]) := by rfl
  obtain ⟨-, -, hcycle, hpath⟩ := walk_fails_iff loopTree
  have hnames : loopTree.nodeNames.Nodup := by decide
  have hroot : loopTree.root ∈ loopTree.nodeNames := by decide
  have hstray : ¬ loopTree.HasStray := by
    rintro ⟨node, hnode, outcome, target, hexit, hstray⟩
    simp only [loopTree, List.mem_cons, List.not_mem_nil, or_false] at hnode
    rcases hnode with rfl | rfl | rfl <;> cases outcome <;> cases hexit <;>
      exact hstray (by decide)
  exact ⟨hwalk, (hcycle hnames hroot hstray).mp ⟨_, hwalk⟩, hpath _ hwalk⟩

end ResponseTree

end SceneQuiz
