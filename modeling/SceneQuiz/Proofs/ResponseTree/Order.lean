import Mathlib.Data.List.Perm.Subperm
import SceneQuiz.ResponseTree.Walk
/-!
The order of a walk.  A finished visit lists every node after all that lead to
it: the edges of a listed node go to nodes further on in the list.  For an
accepted tree the root comes first, and the list has no repetitions.
-/

namespace SceneQuiz

namespace ResponseTree

/-- Every edge of a listed node leads further on in the list, where the node
itself does not occur again. -/
def Graph.Ordered (graph : Graph) : List Nat → Prop
  | [] => True
  | node :: rest =>
      (∀ edge ∈ graph.edges node, edge.target ∈ rest) ∧ node ∉ rest ∧
        graph.Ordered rest

/-- Every edge leads to one of the first `size` nodes. -/
def Graph.Within (graph : Graph) (size : Nat) : Prop :=
  ∀ node, ∀ edge ∈ graph.edges node, edge.target < size

theorem Graph.Ordered.nodup {graph : Graph} {order : List Nat}
    (h : graph.Ordered order) : order.Nodup := by
  induction order with
  | nil => exact List.nodup_nil
  | cons node rest ih => exact List.nodup_cons.mpr ⟨h.2.1, ih h.2.2⟩

theorem Graph.Ordered.of_append {graph : Graph} {before rest : List Nat}
    (h : graph.Ordered (before ++ rest)) : graph.Ordered rest := by
  induction before with
  | nil => exact h
  | cons node before ih => exact ih h.2.2

/-- What a visit with ancestors `path` has made of the finished nodes `done`. -/
structure Finished (graph : Graph) (size : Nat) (path done result : List Nat) :
    Prop where
  ordered : graph.Ordered result
  grown : ∃ found, result = found ++ done
  apart : ∀ node ∈ path, node ∉ result
  within : ∀ node ∈ result, node < size

theorem Finished.mem {graph : Graph} {size : Nat} {path done result : List Nat}
    (h : Finished graph size path done result) {node : Nat}
    (hnode : node ∈ done) : node ∈ result := by
  obtain ⟨found, rfl⟩ := h.grown
  exact List.mem_append.mpr (Or.inr hnode)

theorem Finished.trans {graph : Graph} {size : Nat}
    {path done middle result : List Nat}
    (hfirst : Finished graph size path done middle)
    (hsecond : Finished graph size path middle result) :
    Finished graph size path done result := by
  obtain ⟨first, rfl⟩ := hfirst.grown
  obtain ⟨second, rfl⟩ := hsecond.grown
  exact ⟨hsecond.ordered, ⟨second ++ first, by simp⟩, hsecond.apart,
    hsecond.within⟩

/-- Nodes that are finished one after the other are all finished in the end. -/
theorem foldlM_finished {graph : Graph} {size : Nat} {path : List Nat}
    {step : List Nat → Edge → Except (List Nat) (List Nat)}
    (hstep : ∀ edge done result, edge.target < size →
      Finished graph size path done done → step done edge = .ok result →
        Finished graph size path done result ∧ edge.target ∈ result)
    {edges : List Edge} (hedges : ∀ edge ∈ edges, edge.target < size)
    {done result : List Nat} (hdone : Finished graph size path done done)
    (h : edges.foldlM step done = .ok result) :
    Finished graph size path done result ∧
      ∀ edge ∈ edges, edge.target ∈ result := by
  induction edges generalizing done with
  | nil =>
      cases h
      exact ⟨hdone, by simp⟩
  | cons edge rest ih =>
      rw [List.foldlM_cons] at h
      cases hvisit : step done edge with
      | error cycle => simp [hvisit, bind, Except.bind] at h
      | ok middle =>
          rw [hvisit] at h
          obtain ⟨hfirst, hmem⟩ := hstep edge done middle
            (hedges edge List.mem_cons_self) hdone hvisit
          have hmiddle : Finished graph size path middle middle :=
            ⟨hfirst.ordered, ⟨[], rfl⟩, hfirst.apart, hfirst.within⟩
          obtain ⟨hrest, hall⟩ := ih
            (fun other hother => hedges other (List.mem_cons_of_mem edge hother))
            hmiddle h
          refine ⟨hfirst.trans hrest, ?_⟩
          intro other hother
          rcases List.mem_cons.mp hother with rfl | hother
          · exact hrest.mem hmem
          · exact hall other hother

theorem length_le_of_nodup {path : List Nat} {size : Nat} (hnodup : path.Nodup)
    (hwithin : ∀ node ∈ path, node < size) : path.length ≤ size := by
  have hsub : path ⊆ List.range size := fun node hnode =>
    List.mem_range.mpr (hwithin node hnode)
  simpa using (hnodup.subperm hsub).length_le

/-- A visit that ends without a cycle has finished its node: without fuel its path
would be longer than there are nodes. -/
theorem visit_finished {graph : Graph} {size : Nat}
    (hgraph : graph.Within size) (fuel : Nat) {path done result : List Nat}
    {node : Nat} (hfuel : size < path.length + fuel) (hnodup : path.Nodup)
    (hpath : ∀ other ∈ path, other < size) (hnode : node < size)
    (hdone : Finished graph size path done done)
    (h : visit graph fuel path done node = .ok result) :
    Finished graph size path done result ∧ node ∈ result ∧
      (node ∉ done → ∃ rest, result = node :: rest) := by
  induction fuel generalizing path done result node with
  | zero =>
      have hlength := length_le_of_nodup hnodup hpath
      omega
  | succ fuel ih =>
      unfold visit at h
      by_cases hold : node ∈ done
      · simp only [hold, if_true] at h
        cases h
        exact ⟨hdone, hold, fun hnew => absurd hold hnew⟩
      · by_cases hcycle : node ∈ path
        · simp [hold, hcycle] at h
        · simp only [hold, hcycle, if_false] at h
          cases hfold : (graph.edges node).foldlM
              (fun done edge => visit graph fuel (node :: path) done edge.target)
              done with
          | error cycle => simp [hfold, bind, Except.bind] at h
          | ok finished =>
              rw [hfold] at h
              cases h
              have hpath' : ∀ other ∈ node :: path, other < size := by
                intro other hother
                rcases List.mem_cons.mp hother with rfl | hother
                · exact hnode
                · exact hpath other hother
              have hapart : ∀ other ∈ node :: path, other ∉ done := by
                intro other hother
                rcases List.mem_cons.mp hother with rfl | hother
                · exact hold
                · exact hdone.apart other hother
              obtain ⟨hchildren, htargets⟩ := foldlM_finished
                (fun edge done' result' htarget hdone' hvisit =>
                  have hall := ih (by simp only [List.length_cons]; omega)
                    (List.nodup_cons.mpr ⟨hcycle, hnodup⟩) hpath' htarget
                    hdone' hvisit
                  ⟨hall.1, hall.2.1⟩)
                (hgraph node) ⟨hdone.ordered, ⟨[], rfl⟩, hapart, hdone.within⟩
                hfold
              have hself : node ∉ finished :=
                hchildren.apart node List.mem_cons_self
              obtain ⟨found, hfound⟩ := hchildren.grown
              refine ⟨⟨⟨htargets, hself, hchildren.ordered⟩,
                ⟨node :: found, by simp [hfound]⟩, ?_, ?_⟩,
                List.mem_cons_self, fun _ => ⟨finished, rfl⟩⟩
              · intro other hother hmem
                rcases List.mem_cons.mp hmem with rfl | hmem
                · exact hcycle hother
                · exact hchildren.apart other
                    (List.mem_cons_of_mem node hother) hmem
              · intro other hmem
                rcases List.mem_cons.mp hmem with rfl | hmem
                · exact hnode
                · exact hchildren.within other hmem

theorem mapM_eq_ok {α β ε : Type} {f : α → Except ε β} {items : List α}
    {results : List β} (h : items.mapM f = .ok results) :
    List.Forall₂ (fun item result => f item = .ok result) items results := by
  induction items generalizing results with
  | nil =>
      cases h
      exact List.Forall₂.nil
  | cons item rest ih =>
      rw [List.mapM_cons] at h
      cases hitem : f item with
      | error error => simp [hitem, bind, Except.bind] at h
      | ok result =>
          cases hrest : rest.mapM f with
          | error error => simp [hitem, hrest, bind, Except.bind] at h
          | ok others =>
              simp only [hitem, hrest, bind, Except.bind] at h
              cases h
              exact List.Forall₂.cons hitem (ih hrest)

theorem firstRepeat?_eq_none_iff {seen names : List String} :
    firstRepeat? seen names = none ↔
      names.Nodup ∧ ∀ name ∈ names, name ∉ seen := by
  induction names generalizing seen with
  | nil => simp [firstRepeat?]
  | cons name rest ih =>
      by_cases hseen : name ∈ seen
      · simp [firstRepeat?, hseen]
      · simp only [firstRepeat?, hseen, if_false, ih, List.nodup_cons,
          List.mem_cons]
        constructor
        · rintro ⟨hnodup, hfresh⟩
          refine ⟨⟨fun hmem => hfresh name hmem (Or.inl rfl), hnodup⟩, ?_⟩
          rintro other (rfl | hother)
          · exact hseen
          · exact fun hmem => hfresh other hother (Or.inr hmem)
        · rintro ⟨⟨hname, hnodup⟩, hfresh⟩
          refine ⟨hnodup, fun other hother => ?_⟩
          rintro (rfl | hmem)
          · exact hname hother
          · exact hfresh other (Or.inr hother) hmem

theorem indexOf?_eq_some {tree : ResponseTree} {name : String} {index : Nat}
    (h : tree.indexOf? name = some index) :
    ∃ node, tree.nodes[index]? = some node ∧ node.name = name := by
  obtain ⟨hlt, hname, -⟩ := List.findIdx?_eq_some_iff_getElem.mp h
  exact ⟨tree.nodes[index], List.getElem?_eq_getElem hlt, by simpa using hname⟩

/-- With unique names, a name leads back to its place. -/
theorem indexOf?_name {tree : ResponseTree} {node : Node} {index : Nat}
    (hnames : (tree.nodes.map Node.name).Nodup)
    (hnode : tree.nodes[index]? = some node) :
    tree.indexOf? node.name = some index := by
  obtain ⟨hlt, rfl⟩ := List.getElem?_eq_some_iff.mp hnode
  refine List.findIdx?_eq_some_iff_getElem.mpr ⟨hlt, by simp, ?_⟩
  intro earlier hearlier heq
  have hsame : tree.nodes[earlier].name = tree.nodes[index].name := by
    simpa using heq
  have hdiffer := List.pairwise_iff_getElem.mp hnames earlier index
    (by simpa using Nat.lt_trans hearlier hlt) (by simpa using hlt) hearlier
  exact hdiffer (by simpa using hsame)

theorem forall₂_at {α β : Type} {R : α → β → Prop} {items : List α}
    {results : List β} (h : List.Forall₂ R items results) {index : Nat}
    {item : α} (hitem : items[index]? = some item) :
    ∃ result, results[index]? = some result ∧ R item result := by
  obtain ⟨hitems, rfl⟩ := List.getElem?_eq_some_iff.mp hitem
  have hresults : index < results.length := h.length_eq ▸ hitems
  exact ⟨results[index], List.getElem?_eq_getElem hresults, h.get hitems hresults⟩

theorem mem_targets_iff {node : Node} {outcome : Bool} {target : String} :
    (outcome, target) ∈ node.targets ↔
      (node.branch outcome).exit = .node target := by
  have hexit : ∀ exit : Exit, exit.nodeTarget? = some target ↔
      exit = .node target := by
    intro exit
    cases exit <;> simp [Exit.nodeTarget?]
  cases outcome <;> simp [Node.targets, outcomes, hexit]

/-- The edges of a node are its branches that lead to nodes. -/
theorem mem_edges_iff {tree : ResponseTree} {graph : Graph}
    (hgraph : tree.graph = .ok graph) {index : Nat} {node : Node}
    (hnode : tree.nodes[index]? = some node) {edge : Edge} :
    edge ∈ graph.edges index ↔
      ∃ target, (node.branch edge.outcome).exit = .node target ∧
        tree.indexOf? target = some edge.target := by
  obtain ⟨edges, hedges, hmap⟩ := forall₂_at (mapM_eq_ok hgraph) hnode
  have hall := mapM_eq_ok hmap
  have hof : ∀ target : Bool × String, tree.edge node target = .ok edge ↔
      target.1 = edge.outcome ∧ tree.indexOf? target.2 = some edge.target := by
    intro target
    unfold ResponseTree.edge
    cases tree.indexOf? target.2 with
    | none => simp
    | some found =>
        obtain ⟨outcome, place⟩ := edge
        simp
  have hgraphEdges : graph.edges index = edges := by
    simp [Graph.edges, hedges]
  rw [hgraphEdges]
  constructor
  · intro hedge
    obtain ⟨place, hplace, hget⟩ := List.mem_iff_getElem.mp hedge
    obtain ⟨target, htarget, hmade⟩ := forall₂_at hall.flip
      (List.getElem?_eq_getElem hplace)
    rw [hget] at hmade
    obtain ⟨houtcome, hindex⟩ := (hof target).mp hmade
    refine ⟨target.2, mem_targets_iff.mp ?_, hindex⟩
    rw [← houtcome]
    exact List.mem_of_getElem? htarget
  · rintro ⟨target, hexit, hindex⟩
    obtain ⟨place, hplace, hget⟩ :=
      List.mem_iff_getElem.mp (mem_targets_iff.mpr hexit)
    obtain ⟨made, hmade, hedge⟩ := forall₂_at hall
      (List.getElem?_eq_getElem hplace)
    rw [hget] at hedge
    have hsame := (hof (edge.outcome, target)).mpr ⟨rfl, hindex⟩
    rw [hsame] at hedge
    cases hedge
    exact List.mem_of_getElem? hmade

/-- In a tree with a graph, every branch to a node leads to a node of the tree. -/
theorem indexOf?_of_exit {tree : ResponseTree} {graph : Graph}
    (hgraph : tree.graph = .ok graph) {index : Nat} {node : Node}
    (hnode : tree.nodes[index]? = some node) {outcome : Bool} {target : String}
    (hexit : (node.branch outcome).exit = .node target) :
    ∃ place, tree.indexOf? target = some place := by
  obtain ⟨edges, _, hmap⟩ := forall₂_at (mapM_eq_ok hgraph) hnode
  obtain ⟨place, hplace, hget⟩ :=
    List.mem_iff_getElem.mp (mem_targets_iff.mpr hexit)
  obtain ⟨made, _, hedge⟩ := forall₂_at (mapM_eq_ok hmap)
    (List.getElem?_eq_getElem hplace)
  rw [hget, ResponseTree.edge] at hedge
  cases hindex : tree.indexOf? target with
  | none => simp [hindex] at hedge
  | some found => exact ⟨found, rfl⟩

theorem length_graph {tree : ResponseTree} {graph : Graph}
    (hgraph : tree.graph = .ok graph) : graph.length = tree.nodes.length :=
  (mapM_eq_ok hgraph).length_eq.symm

/-- Edges lead to nodes of the tree. -/
theorem graph_within {tree : ResponseTree} {graph : Graph}
    (hgraph : tree.graph = .ok graph) : graph.Within tree.nodes.length := by
  intro index edge hedge
  cases hnode : tree.nodes[index]? with
  | none =>
      have hout : graph[index]? = none := by
        rw [List.getElem?_eq_none_iff] at hnode ⊢
        rwa [length_graph hgraph]
      simp [Graph.edges, hout] at hedge
  | some node =>
      obtain ⟨target, -, hindex⟩ := (mem_edges_iff hgraph hnode).mp hedge
      obtain ⟨found, hfound, -⟩ := indexOf?_eq_some hindex
      exact (List.getElem?_eq_some_iff.mp hfound).1

/-- What an accepted tree and its walk have to do with each other. -/
structure Walked (tree : ResponseTree) (traversal : Traversal) : Prop where
  names : (tree.nodes.map Node.name).Nodup
  graph : tree.graph = .ok traversal.graph
  root : ∃ root rest, tree.indexOf? tree.root = some root ∧
    traversal.order = root :: rest
  ordered : traversal.graph.Ordered traversal.order
  within : ∀ index ∈ traversal.order, index < tree.nodes.length

/-- An accepted tree is listed from its root on, every node after those that
lead to it. -/
theorem walked_of_walk {tree : ResponseTree} {traversal : Traversal}
    (h : tree.walk = .ok traversal) : Walked tree traversal := by
  unfold walk at h
  split at h
  · cases h
  · next hrepeat =>
      split at h
      · cases h
      · next root hroot =>
          cases hgraph : tree.graph with
          | error fault => simp [hgraph, bind, Except.bind] at h
          | ok graph =>
              simp only [hgraph, bind, Except.bind] at h
              split at h
              · next order hvisit =>
                  cases h
                  obtain ⟨found, hfound, -⟩ := indexOf?_eq_some hroot
                  have hnew : Finished graph tree.nodes.length [] [] [] :=
                    ⟨trivial, ⟨[], rfl⟩, by simp, by simp⟩
                  obtain ⟨hfinished, -, hhead⟩ := visit_finished
                    (graph_within hgraph) (tree.nodes.length + 1) (by simp)
                    List.nodup_nil (by simp)
                    (List.getElem?_eq_some_iff.mp hfound).1 hnew hvisit
                  obtain ⟨rest, hrest⟩ := hhead (by simp)
                  exact ⟨(firstRepeat?_eq_none_iff.mp hrepeat).1, hgraph,
                    ⟨root, rest, hroot, hrest⟩, hfinished.ordered,
                    hfinished.within⟩
              · cases h

end ResponseTree

end SceneQuiz
