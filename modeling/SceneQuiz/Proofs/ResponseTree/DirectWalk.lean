import Mathlib.Data.List.Nodup
import SceneQuiz.Proofs.ResponseTree.NodeRun
import SceneQuiz.Proofs.ResponseTree.Order
/-!
Direct walks of a response tree.  A direct walk starts at the root and follows,
from each node, the branch of the outcome of its test.  The code of the tree
passes all nodes in one fixed order instead; in that order, the guards hold of
exactly the nodes of the direct walk, one after the other.
-/

namespace SceneQuiz

namespace ResponseTree

open SceneQuiz.Expr (Evaluates)

/-- A direct walk comes to a node after it has visited some nodes. -/
inductive Reached (tree : ResponseTree) (verdict : Node → Verdict) :
    List Node → Node → Prop where
  | root {node : Node} (hnode : node ∈ tree.nodes)
      (hname : node.name = tree.root) : Reached tree verdict [] node
  | step {visited : List Node} {node next : Node}
      (hnode : Reached tree verdict visited node) (hnext : next ∈ tree.nodes)
      (hexit : (node.branch (verdict node).outcome).exit = .node next.name) :
      Reached tree verdict (visited ++ [node]) next

section Records

variable (tree : ResponseTree) (verdict : Node → Verdict)

/-- The mark that a visited node leaves. -/
def Node.mark (node : Node) : String :=
  pathToken node.name (verdict node).outcome

/-- What is recorded of a visited node. -/
def Node.result (node : Node) : Value :=
  .list [.str node.name, .bool (verdict node).outcome, (verdict node).note]

/-- Marks of visited nodes, the last one first. -/
def pathOf (visited : List Node) : List String :=
  (visited.map (Node.mark verdict)).reverse

/-- Messages of visited nodes that are not quiet. -/
def feedbackOf (visited : List Node) : List Value :=
  visited.flatMap fun node =>
    if node.quiet then [] else [(verdict node).feedback]

/-- Places of the tests that raised an error. -/
def errorsOf (visited : List Node) : List Value :=
  visited.flatMap fun node =>
    if (verdict node).isRaised then
      [.str (testLocator ((tree.indexOf? node.name).getD 0)).text]
    else []

/-- The frame when these nodes have been visited and the walk goes on. -/
def frameAfter (simp : Value) (visited : List Node) : Frame :=
  { Frame.initial with
    path := .list ((pathOf verdict visited).map Value.str)
    results := .list (visited.map (Node.result verdict))
    feedback := .list (feedbackOf verdict visited)
    errors := .list (errorsOf tree verdict visited)
    nodeErrors := .int
      ((visited.getLast?.map fun node => (verdict node).errorCount).getD 0 : Nat)
    testResult := (visited.getLast?.map fun node => (verdict node).answer).getD
      (.symbol Vars.testResult)
    outcome := (visited.getLast?.map fun node =>
      Value.bool (verdict node).outcome).getD (.symbol Vars.outcome)
    savedSimp := (visited.getLast?.map fun _ => simp).getD
      (.symbol Vars.savedSimp) }

/-- The variables that a test sees when these nodes have been visited. -/
def testEnvironment (env : Environment) (visited : List Node) : Environment :=
  ((env.under ∅).assign "simp" (.bool false)).under
    ((frameAfter tree verdict (simpOf env) visited).testing (simpOf env)).scope

/-- Every test that a direct walk comes to ends with its verdict, and changes
nothing. -/
def Judged (ctx : TreeContext) (machine : Machine) : Prop :=
  ∀ visited node, Reached tree verdict visited node →
    (verdict node).IsTrappable ∧
      (node.testCall ctx).Evaluates machine
        (testEnvironment tree verdict machine.env visited) (verdict node).ending
        (testEnvironment tree verdict machine.env visited)

end Records

variable {tree : ResponseTree} {verdict : Node → Verdict}

theorem Reached.mem {visited : List Node} {node : Node}
    (h : Reached tree verdict visited node) : node ∈ tree.nodes := by
  cases h with
  | root hnode _ => exact hnode
  | step _ hnext _ => exact hnext

/-- A visit moves the frame on by one node. -/
theorem frameAfter_concat (simp : Value) (visited : List Node) (node : Node)
    {index : Nat} (hindex : tree.indexOf? node.name = some index) :
    ((frameAfter tree verdict simp visited).tested simp (verdict node)
        (errorsOf tree verdict visited) index).recorded node.name node.quiet
          (verdict node) ((pathOf verdict visited).map Value.str)
          (visited.map (Node.result verdict)) (feedbackOf verdict visited) =
      frameAfter tree verdict simp (visited ++ [node]) := by
  simp [frameAfter, Frame.tested, Frame.recorded, pathOf, errorsOf, feedbackOf,
    Node.mark, Node.result, hindex]

theorem pathToken_inj {name other : String} {outcome result : Bool}
    (h : pathToken name outcome = pathToken other result) :
    name = other ∧ outcome = result := by
  have hchars : ∀ (text : String) (truth : Bool), (pathToken text truth).toList =
      text.toList ++ ['-', if truth then 'T' else 'F'] := by
    intro text truth
    cases truth <;> simp [pathToken]
  have hsame := congrArg String.toList h
  rw [hchars, hchars] at hsame
  obtain ⟨hname, hmark⟩ := List.append_inj' hsame rfl
  refine ⟨String.toList_inj.mp hname, ?_⟩
  cases outcome <;> cases result <;> simp at hmark ⊢

theorem mem_entries_iff {traversal : Traversal} {index : Nat} {token : String} :
    token ∈ traversal.entries tree index ↔
      ∃ source ∈ traversal.order, ∃ edge ∈ traversal.graph.edges source,
        edge.target = index ∧
          token = pathToken (tree.nameOf source) edge.outcome := by
  simp only [Traversal.entries, List.mem_flatMap, List.mem_filterMap]
  constructor
  · rintro ⟨source, hsource, edge, hedge, htoken⟩
    split at htoken
    · next htarget => exact ⟨source, hsource, edge, hedge, htarget,
        (Option.some.inj htoken).symm⟩
    · cases htoken
  · rintro ⟨source, hsource, edge, hedge, htarget, rfl⟩
    exact ⟨source, hsource, edge, hedge, if_pos htarget⟩

/-- A node has an entry on the path exactly if a visited node leads to it. -/
theorem entries_any_iff {traversal : Traversal} (hwalked : Walked tree traversal)
    {visited : List Node}
    (hvisited : ∀ node ∈ visited,
      ∃ source ∈ traversal.order, tree.nodes[source]? = some node)
    {index : Nat} {node : Node} (hnode : tree.nodes[index]? = some node) :
    ((traversal.entries tree index).any fun token =>
        decide (token ∈ pathOf verdict visited)) = true ↔
      ∃ earlier ∈ visited,
        (earlier.branch (verdict earlier).outcome).exit = .node node.name := by
  simp only [List.any_eq_true, decide_eq_true_eq, pathOf, List.mem_reverse,
    List.mem_map]
  constructor
  · rintro ⟨token, hentry, earlier, hearlier, rfl⟩
    refine ⟨earlier, hearlier, ?_⟩
    obtain ⟨source, hsource, edge, hedge, htarget, htoken⟩ :=
      mem_entries_iff.mp hentry
    obtain ⟨hname, houtcome⟩ := pathToken_inj htoken
    obtain ⟨place, _, hplace⟩ := hvisited earlier hearlier
    have hsame : tree.nodes[source]? = some earlier := by
      obtain ⟨other, hother⟩ : ∃ other, tree.nodes[source]? = some other :=
        ⟨_, List.getElem?_eq_getElem (hwalked.within source hsource)⟩
      have hfirst := indexOf?_name hwalked.names hplace
      have hsecond := indexOf?_name hwalked.names hother
      rw [hname, nameOf, hother, Option.map_some, Option.getD_some, hsecond] at hfirst
      rw [Option.some.inj hfirst, hplace]
    obtain ⟨target, hexit, hindex⟩ :=
      (mem_edges_iff hwalked.graph hsame).mp hedge
    obtain ⟨found, hfound, hfoundName⟩ := indexOf?_eq_some hindex
    rw [htarget, hnode, Option.some.injEq] at hfound
    rw [houtcome, hexit, ← hfoundName, hfound]
  · rintro ⟨earlier, hearlier, hexit⟩
    obtain ⟨source, hsource, hplace⟩ := hvisited earlier hearlier
    refine ⟨Node.mark verdict earlier, ?_, earlier, hearlier, rfl⟩
    refine mem_entries_iff.mpr ⟨source, hsource,
      ⟨(verdict earlier).outcome, index⟩, ?_, rfl, ?_⟩
    · exact (mem_edges_iff hwalked.graph hplace).mpr
        ⟨node.name, hexit, indexOf?_name hwalked.names hnode⟩
    · simp [Node.mark, nameOf, hplace]

/-- A walk has visited some nodes and come to `current`, or to its end.  The
nodes it visited are among the passed ones of the order; `current` is one of the
rest. -/
structure Walking (tree : ResponseTree) (verdict : Node → Verdict)
    (traversal : Traversal) (passed rest : List Nat) (visited : List Node)
    (current : Option Node) : Prop where
  order : traversal.order = passed ++ rest
  past : ∀ node ∈ visited, ∃ index ∈ passed, tree.nodes[index]? = some node
  reached : ∀ node, current = some node → Reached tree verdict visited node
  pending : ∀ node, current = some node →
    ∃ index ∈ rest, tree.nodes[index]? = some node
  /-- A visited node leads to another one, or to `current`. -/
  closed : ∀ node ∈ visited, ∀ target,
    (node.branch (verdict node).outcome).exit = .node target →
      (∃ next, current = some next ∧ next.name = target) ∨
        ∃ other ∈ visited, other.name = target
  started : current = none → visited ≠ []
  nodup : (visited.map Node.name).Nodup

variable {traversal : Traversal} {passed rest : List Nat} {visited : List Node}
  {current : Option Node} {node : Node} {index : Nat}

theorem node_unique (hwalked : Walked tree traversal) {other : Nat}
    {same : Node} (hnode : tree.nodes[index]? = some node)
    (hsame : tree.nodes[other]? = some same) (hname : node.name = same.name) :
    index = other ∧ node = same := by
  have hfirst := indexOf?_name hwalked.names hnode
  rw [hname, indexOf?_name hwalked.names hsame, Option.some.injEq] at hfirst
  subst hfirst
  rw [hsame, Option.some.injEq] at hnode
  exact ⟨rfl, hnode.symm⟩

theorem Walking.start (hwalked : Walked tree traversal) :
    ∃ root, Walking tree verdict traversal [] traversal.order [] (some root) := by
  obtain ⟨index, rest, hroot, horder⟩ := hwalked.root
  obtain ⟨root, hnode, hname⟩ := indexOf?_eq_some hroot
  refine ⟨root, rfl, by simp, ?_, ?_, by simp, by simp, List.nodup_nil⟩
  · rintro _ ⟨⟩
    exact .root (List.mem_of_getElem? hnode) hname
  · rintro _ ⟨⟩
    exact ⟨index, by simp [horder], hnode⟩

/-- A node that the walk has not come to is passed. -/
theorem Walking.skip
    (h : Walking tree verdict traversal passed (index :: rest) visited current)
    (hother : ∀ node, current = some node → tree.nodes[index]? ≠ some node) :
    Walking tree verdict traversal (passed ++ [index]) rest visited current where
  order := by rw [h.order, List.append_assoc, List.singleton_append]
  past := by
    intro node hnode
    obtain ⟨place, hplace, hfound⟩ := h.past node hnode
    exact ⟨place, List.mem_append_left _ hplace, hfound⟩
  reached := h.reached
  pending := by
    intro node hnode
    obtain ⟨place, hplace, hfound⟩ := h.pending node hnode
    rcases List.mem_cons.mp hplace with rfl | hlater
    · exact absurd hfound (hother node hnode)
    · exact ⟨place, hlater, hfound⟩
  closed := h.closed
  started := h.started
  nodup := h.nodup

/-- The next node of the order has not been visited. -/
theorem Walking.fresh (hwalked : Walked tree traversal)
    (h : Walking tree verdict traversal passed (index :: rest) visited current)
    (hnode : tree.nodes[index]? = some node) :
    ∀ earlier ∈ visited, earlier.name ≠ node.name := by
  intro earlier hearlier hname
  obtain ⟨place, hplace, hfound⟩ := h.past earlier hearlier
  have hsame := (node_unique hwalked hfound hnode hname).1
  have hnodup := hwalked.ordered.nodup
  rw [h.order] at hnodup
  exact List.disjoint_of_nodup_append hnodup hplace
    (hsame ▸ List.mem_cons_self)

/-- A visited node hands the walk on to a later node, or ends it. -/
theorem Walking.visit (hwalked : Walked tree traversal)
    (h : Walking tree verdict traversal passed (index :: rest) visited
      (some node))
    (hnode : tree.nodes[index]? = some node) :
    ∃ next, Walking tree verdict traversal (passed ++ [index]) rest
        (visited ++ [node]) next ∧
      (next = none ↔
        ∀ target, (node.branch (verdict node).outcome).exit ≠ .node target) := by
  have horder : traversal.order = passed ++ [index] ++ rest := by
    rw [h.order, List.append_assoc, List.singleton_append]
  have hpast : ∀ earlier ∈ visited ++ [node],
      ∃ place ∈ passed ++ [index], tree.nodes[place]? = some earlier := by
    intro earlier hearlier
    rcases List.mem_append.mp hearlier with hbefore | hlast
    · obtain ⟨place, hplace, hat⟩ := h.past earlier hbefore
      exact ⟨place, List.mem_append_left _ hplace, hat⟩
    · rw [List.mem_singleton] at hlast
      subst hlast
      exact ⟨index, by simp, hnode⟩
  have hnodup : ((visited ++ [node]).map Node.name).Nodup := by
    rw [List.map_append, List.nodup_append]
    refine ⟨h.nodup, List.nodup_singleton _, ?_⟩
    intro name hname other hother
    obtain ⟨earlier, hearlier, rfl⟩ := List.mem_map.mp hname
    rw [List.map_singleton, List.mem_singleton] at hother
    subst hother
    exact h.fresh hwalked hnode earlier hearlier
  have hclosed : ∀ earlier ∈ visited, ∀ target,
      (earlier.branch (verdict earlier).outcome).exit = .node target →
        ∃ other ∈ visited ++ [node], other.name = target := by
    intro earlier hearlier target hleads
    rcases h.closed earlier hearlier target hleads with
      ⟨_, ⟨⟩, rfl⟩ | ⟨found, hfound, hname⟩
    · exact ⟨node, by simp, rfl⟩
    · exact ⟨found, List.mem_append_left _ hfound, hname⟩
  have hordered := hwalked.ordered
  rw [h.order] at hordered
  obtain ⟨hedges, _⟩ := hordered.of_append
  by_cases hexit :
      ∃ target, (node.branch (verdict node).outcome).exit = .node target
  · obtain ⟨target, hexit⟩ := hexit
    obtain ⟨place, hplace⟩ := indexOf?_of_exit hwalked.graph hnode hexit
    obtain ⟨next, hnext, rfl⟩ := indexOf?_eq_some hplace
    have hlater : place ∈ rest :=
      hedges ⟨(verdict node).outcome, place⟩
        ((mem_edges_iff hwalked.graph hnode).mpr ⟨next.name, hexit, hplace⟩)
    refine ⟨some next, ⟨horder, hpast, ?_, ?_, ?_, by simp, hnodup⟩,
      by simp [hexit]⟩
    · rintro _ ⟨⟩
      exact .step (h.reached node rfl) (List.mem_of_getElem? hnext) hexit
    · rintro _ ⟨⟩
      exact ⟨place, hlater, hnext⟩
    · intro earlier hearlier target hleads
      rcases List.mem_append.mp hearlier with hbefore | hlast
      · exact Or.inr (hclosed earlier hbefore target hleads)
      · rw [List.mem_singleton] at hlast
        subst hlast
        rw [hexit] at hleads
        exact Or.inl ⟨next, rfl, Exit.node.inj hleads⟩
  · have hends : ∀ target,
        (node.branch (verdict node).outcome).exit ≠ .node target :=
      fun target hleads => hexit ⟨target, hleads⟩
    refine ⟨none, ⟨horder, hpast, by simp, by simp, ?_, by simp, hnodup⟩,
      by simp [hends]⟩
    intro earlier hearlier target hleads
    rcases List.mem_append.mp hearlier with hbefore | hlast
    · exact Or.inr (hclosed earlier hbefore target hleads)
    · rw [List.mem_singleton] at hlast
      subst hlast
      exact absurd hleads (hends target)

/-- The root comes first, so nothing is passed before it. -/
theorem Walking.visited_of_root (hwalked : Walked tree traversal)
    (h : Walking tree verdict traversal passed (index :: rest) visited current)
    (hroot : traversal.root? = some index) : visited = [] := by
  have hpassed : passed = [] := by
    cases passed with
    | nil => rfl
    | cons first more =>
        have hnodup := hwalked.ordered.nodup
        rw [Traversal.root?, h.order, List.cons_append, List.head?_cons,
          Option.some.injEq] at hroot
        rw [h.order, List.cons_append, hroot] at hnodup
        exact absurd (by simp) (List.nodup_cons.mp hnodup).1
  cases visited with
  | nil => rfl
  | cons first more =>
      obtain ⟨place, hplace, _⟩ := h.past first List.mem_cons_self
      rw [hpassed] at hplace
      cases hplace

/-- The guard of the next node of the order holds exactly if the walk has come
to it. -/
theorem Walking.guard_iff (hwalked : Walked tree traversal)
    (h : Walking tree verdict traversal passed (index :: rest) visited current)
    (hnode : tree.nodes[index]? = some node) :
    (traversal.root? == some index ||
        (traversal.entries tree index).any fun token =>
          decide (token ∈ pathOf verdict visited)) = true ↔
      current = some node := by
  have hvisited : ∀ earlier ∈ visited,
      ∃ source ∈ traversal.order, tree.nodes[source]? = some earlier := by
    intro earlier hearlier
    obtain ⟨source, hsource, hfound⟩ := h.past earlier hearlier
    exact ⟨source, h.order ▸ List.mem_append_left _ hsource, hfound⟩
  obtain ⟨root, others, hroot, horder⟩ := hwalked.root
  rw [Bool.or_eq_true, entries_any_iff hwalked hvisited hnode, beq_iff_eq]
  constructor
  · rintro (hhead | ⟨earlier, hearlier, hexit⟩)
    · have hnone := h.visited_of_root hwalked hhead
      cases current with
      | none => exact absurd hnone (h.started rfl)
      | some current =>
          have hreached := h.reached current rfl
          obtain ⟨place, _, hplace⟩ := h.pending current rfl
          rw [Traversal.root?, horder, List.head?_cons, Option.some.injEq] at hhead
          subst hhead
          obtain ⟨found, hfound, hname⟩ := indexOf?_eq_some hroot
          rw [hnode, Option.some.injEq] at hfound
          subst hfound
          cases hreached with
          | root _ hcurrent =>
              rw [(node_unique hwalked hnode hplace
                (hname.trans hcurrent.symm)).2]
          | step _ _ _ => simp at hnone
    · rcases h.closed earlier hearlier node.name hexit with
        ⟨next, rfl, hname⟩ | ⟨again, hagain, hname⟩
      · obtain ⟨place, _, hplace⟩ := h.pending next rfl
        rw [(node_unique hwalked hplace hnode hname).2]
      · exact absurd hname (h.fresh hwalked hnode again hagain)
  · rintro rfl
    have hreached := h.reached node rfl
    cases hreached with
    | root _ hname =>
        left
        have hindex := indexOf?_name hwalked.names hnode
        rw [hname, hroot] at hindex
        rw [Traversal.root?, horder, List.head?_cons, hindex]
    | step _ _ hexit => exact Or.inr ⟨_, by simp, hexit⟩

end ResponseTree

end SceneQuiz
