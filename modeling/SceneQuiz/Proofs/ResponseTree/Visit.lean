import Mathlib.Data.List.Chain
import Mathlib.Logic.Relation
import SceneQuiz.Proofs.ResponseTree.Order
/-!
Visits of a graph.  A visit that ends well has finished nodes that its node
leads to, and no others; one that ends with a cycle has cut it out of its own
path, so it is one.  Both hold with whatever fuel, and enough fuel is as good as
more.
-/

namespace SceneQuiz

namespace ResponseTree

open Relation (ReflTransGen TransGen)

/-- An edge leads from one node to the other. -/
def Graph.Links (graph : Graph) (source target : Nat) : Prop :=
  ∃ outcome, (⟨outcome, target⟩ : Edge) ∈ graph.edges source

theorem Graph.links_of_mem {graph : Graph} {node : Nat} {edge : Edge}
    (h : edge ∈ graph.edges node) : graph.Links node edge.target :=
  ⟨edge.outcome, h⟩

/-- Along the edges, an ordered list is left only towards its end. -/
theorem Graph.Ordered.mem_of_transGen {graph : Graph} {rest : List Nat}
    {node other : Nat} (h : graph.Ordered (node :: rest))
    (hsteps : TransGen graph.Links node other) : other ∈ rest := by
  induction hsteps with
  | single hstep =>
      obtain ⟨outcome, hedge⟩ := hstep
      exact h.1 _ hedge
  | tail _ hstep ih =>
      obtain ⟨outcome, hedge⟩ := hstep
      obtain ⟨before, after, rfl⟩ := List.append_of_mem ih
      have hlater := h.2.2.of_append.1 _ hedge
      exact List.mem_append_right before (List.mem_cons_of_mem _ hlater)

theorem Graph.Ordered.mem_of_reflTransGen {graph : Graph} {order : List Nat}
    {node other : Nat} (h : graph.Ordered order) (hnode : node ∈ order)
    (hsteps : ReflTransGen graph.Links node other) : other ∈ order := by
  obtain ⟨before, rest, rfl⟩ := List.append_of_mem hnode
  rcases Relation.reflTransGen_iff_eq_or_transGen.mp hsteps with rfl | hsteps
  · exact hnode
  · exact List.mem_append_right before
      (List.mem_cons_of_mem node (h.of_append.mem_of_transGen hsteps))

/-- A listed node does not lead back to itself. -/
theorem Graph.Ordered.not_transGen {graph : Graph} {order : List Nat}
    {node : Nat} (h : graph.Ordered order) (hnode : node ∈ order) :
    ¬ TransGen graph.Links node node := by
  intro hsteps
  obtain ⟨before, rest, rfl⟩ := List.append_of_mem hnode
  exact h.of_append.2.1 (h.of_append.mem_of_transGen hsteps)

theorem Graph.Ordered.idxOf_lt {graph : Graph} {order : List Nat}
    {node other : Nat} (h : graph.Ordered order) (hnode : node ∈ order)
    (hstep : graph.Links node other) :
    other ∈ order ∧ order.idxOf node < order.idxOf other := by
  obtain ⟨outcome, hedge⟩ := hstep
  induction order with
  | nil => cases hnode
  | cons first rest ih =>
      obtain ⟨hedges, hfirst, hrest⟩ := h
      by_cases hsame : node = first
      · subst hsame
        have hlater : other ∈ rest := hedges _ hedge
        have hne : other ≠ node := fun heq => hfirst (heq ▸ hlater)
        refine ⟨List.mem_cons_of_mem node hlater, ?_⟩
        rw [List.idxOf_cons_self, List.idxOf_cons_ne _ hne.symm]
        exact Nat.succ_pos _
      · have hmem : node ∈ rest := (List.mem_cons.mp hnode).resolve_left hsame
        obtain ⟨hlater, hlt⟩ := ih hrest hmem
        have hne : other ≠ first := fun heq => hfirst (heq ▸ hlater)
        refine ⟨List.mem_cons_of_mem first hlater, ?_⟩
        rw [List.idxOf_cons_ne _ (Ne.symm hsame), List.idxOf_cons_ne _ hne.symm]
        exact Nat.succ_lt_succ hlt

theorem foldlM_eq_ok_mem {step : List Nat → Edge → Except (List Nat) (List Nat)}
    {found : Nat → Prop} {edges : List Edge}
    (hstep : ∀ edge ∈ edges, ∀ done result, step done edge = .ok result →
      ∀ node ∈ result, node ∈ done ∨ found node)
    {done result : List Nat} (h : edges.foldlM step done = .ok result) :
    ∀ node ∈ result, node ∈ done ∨ found node := by
  induction edges generalizing done with
  | nil =>
      cases h
      exact fun node hnode => Or.inl hnode
  | cons edge rest ih =>
      rw [List.foldlM_cons] at h
      cases hfirst : step done edge with
      | error cycle => simp [hfirst, bind, Except.bind] at h
      | ok middle =>
          rw [hfirst] at h
          intro node hnode
          rcases ih (fun other hother =>
            hstep other (List.mem_cons_of_mem edge hother)) h node hnode with
            hmiddle | hfound
          · exact hstep edge List.mem_cons_self done middle hfirst node hmiddle
          · exact Or.inr hfound

/-- A visit finishes no node that its own node does not lead to. -/
theorem visit_reaches {graph : Graph} (fuel : Nat) {path done result : List Nat}
    {node : Nat} (h : visit graph fuel path done node = .ok result) :
    ∀ other ∈ result, other ∈ done ∨ ReflTransGen graph.Links node other := by
  induction fuel generalizing path done result node with
  | zero =>
      cases h
      exact fun other hother => Or.inl hother
  | succ fuel ih =>
      unfold visit at h
      by_cases hold : node ∈ done
      · simp only [hold, if_true] at h
        cases h
        exact fun other hother => Or.inl hother
      · by_cases hcycle : node ∈ path
        · simp [hold, hcycle] at h
        · simp only [hold, hcycle, if_false] at h
          cases hfold : (graph.edges node).foldlM
              (fun done edge => visit graph fuel (node :: path) done edge.target)
              done with
          | error cycle => simp [hfold, bind, Except.bind] at h
          | ok finished =>
              rw [hfold] at h
              cases h
              have hfinished := foldlM_eq_ok_mem
                (fun edge hedge done result hvisit other hother =>
                  (ih hvisit other hother).imp id fun hsteps =>
                    ReflTransGen.head (Graph.links_of_mem hedge) hsteps) hfold
              intro other hother
              rcases List.mem_cons.mp hother with rfl | hother
              · exact Or.inr ReflTransGen.refl
              · exact hfinished other hother

/-- Nodes along edges from a node that the root reaches back to it. -/
structure Graph.IsCycle (graph : Graph) (root : Nat) (cycle : List Nat) :
    Prop where
  closed : cycle.head? = cycle.getLast?
  long : 2 ≤ cycle.length
  joined : cycle.IsChain graph.Links
  reached : ∀ node ∈ cycle, ReflTransGen graph.Links root node

/-- A closed chain leads from its first node back to it. -/
theorem Graph.IsCycle.transGen {graph : Graph} {root : Nat}
    {cycle : List Nat}
    (h : graph.IsCycle root cycle) :
    ∃ node ∈ cycle, TransGen graph.Links node node := by
  match cycle, h with
  | [], h => exact absurd h.long (by simp)
  | [_], h => exact absurd h.long (by simp)
  | node :: next :: rest, h =>
      obtain ⟨hstep, hchain⟩ := List.isChain_cons_cons.mp h.joined
      have hlast : (next :: rest).getLast (List.cons_ne_nil next rest) = node := by
        have hclosed := h.closed
        rw [List.head?_cons, List.getLast?_cons_cons,
          List.getLast?_eq_some_getLast (List.cons_ne_nil next rest),
          Option.some.injEq] at hclosed
        exact hclosed.symm
      exact ⟨node, List.mem_cons_self, TransGen.head' hstep
        (List.relationReflTransGen_of_exists_isChain_cons rest hchain hlast)⟩

theorem exists_takeWhile_append {path : List Nat} {node : Nat}
    (h : node ∈ path) :
    ∃ rest, path = path.takeWhile (· != node) ++ node :: rest := by
  induction path with
  | nil => cases h
  | cons first rest ih =>
      by_cases hsame : first = node
      · subst hsame
        exact ⟨rest, by simp⟩
      · obtain ⟨others, hothers⟩ :=
          ih ((List.mem_cons.mp h).resolve_left (Ne.symm hsame))
        refine ⟨others, ?_⟩
        rw [List.takeWhile_cons_of_pos (by simpa using hsame),
          List.cons_append, ← hothers]

/-- The cycle cut out of a path whose nodes lead to one another. -/
theorem isCycle_of_mem_path {graph : Graph} {root node : Nat} {path : List Nat}
    (hchain : (node :: path).IsChain fun later earlier =>
      graph.Links earlier later)
    (hreached : ∀ other ∈ node :: path, ReflTransGen graph.Links root other)
    (hmem : node ∈ path) :
    graph.IsCycle root
      (node :: (path.takeWhile (· != node)).reverse ++ [node]) := by
  obtain ⟨rest, hsplit⟩ := exists_takeWhile_append hmem
  have hpath : node :: path =
      (node :: path.takeWhile (· != node) ++ [node]) ++ rest := by
    rw [List.append_assoc, List.singleton_append, List.cons_append, ← hsplit]
  have hback : node :: (path.takeWhile (· != node)).reverse ++ [node] =
      (node :: path.takeWhile (· != node) ++ [node]).reverse := by simp
  refine ⟨?_, by simp, ?_, ?_⟩
  · rw [List.getLast?_concat, List.cons_append, List.head?_cons]
  · rw [hpath] at hchain
    rw [hback, List.isChain_reverse]
    exact hchain.left_of_append
  · intro other hother
    apply hreached
    rw [hback, List.mem_reverse] at hother
    rw [hpath]
    exact List.mem_append_left rest hother

theorem exists_of_foldlM_eq_error
    {step : List Nat → Edge → Except (List Nat) (List Nat)} {edges : List Edge}
    {done cycle : List Nat} (h : edges.foldlM step done = .error cycle) :
    ∃ edge ∈ edges, ∃ before, step before edge = .error cycle := by
  induction edges generalizing done with
  | nil => cases h
  | cons edge rest ih =>
      rw [List.foldlM_cons] at h
      cases hfirst : step done edge with
      | error found =>
          simp only [hfirst, bind, Except.bind, Except.error.injEq] at h
          exact ⟨edge, List.mem_cons_self, done, h ▸ hfirst⟩
      | ok middle =>
          rw [hfirst] at h
          obtain ⟨other, hother, before, herror⟩ := ih h
          exact ⟨other, List.mem_cons_of_mem edge hother, before, herror⟩

/-- A cycle that a visit reports is one. -/
theorem visit_isCycle {graph : Graph} {root : Nat} (fuel : Nat)
    {path done cycle : List Nat} {node : Nat}
    (hchain : (node :: path).IsChain fun later earlier =>
      graph.Links earlier later)
    (hreached : ∀ other ∈ node :: path, ReflTransGen graph.Links root other)
    (h : visit graph fuel path done node = .error cycle) :
    graph.IsCycle root cycle := by
  induction fuel generalizing path done node with
  | zero => cases h
  | succ fuel ih =>
      unfold visit at h
      by_cases hold : node ∈ done
      · simp [hold] at h
      · by_cases hmem : node ∈ path
        · simp only [hold, hmem, if_true, if_false, Except.error.injEq] at h
          exact h ▸ isCycle_of_mem_path hchain hreached hmem
        · simp only [hold, hmem, if_false] at h
          cases hfold : (graph.edges node).foldlM
              (fun done edge => visit graph fuel (node :: path) done edge.target)
              done with
          | ok finished =>
              rw [hfold] at h
              cases h
          | error found =>
              simp only [hfold, bind, Except.bind, Except.error.injEq] at h
              subst h
              obtain ⟨edge, hedge, before, hvisit⟩ :=
                exists_of_foldlM_eq_error hfold
              have hstep := Graph.links_of_mem hedge
              refine ih (hchain.cons_cons hstep) ?_ hvisit
              intro other hother
              rcases List.mem_cons.mp hother with rfl | hother
              · exact (hreached node List.mem_cons_self).tail hstep
              · exact hreached other hother

theorem foldlM_congr {first second : List Nat → Edge → Except (List Nat) (List Nat)}
    {edges : List Edge}
    (h : ∀ edge ∈ edges, ∀ done, first done edge = second done edge)
    (done : List Nat) : edges.foldlM first done = edges.foldlM second done := by
  induction edges generalizing done with
  | nil => rfl
  | cons edge rest ih =>
      rw [List.foldlM_cons, List.foldlM_cons, h edge List.mem_cons_self]
      exact bind_congr fun middle =>
        ih (fun other hother => h other (List.mem_cons_of_mem edge hother)) middle

/-- A visit with enough fuel does not depend on how much there is. -/
theorem visit_add_fuel {graph : Graph} {size : Nat}
    (hgraph : graph.Within size) (extra fuel : Nat) {path done : List Nat}
    {node : Nat} (hfuel : size < path.length + fuel) (hnodup : path.Nodup)
    (hpath : ∀ other ∈ path, other < size) (hnode : node < size) :
    visit graph (fuel + extra) path done node =
      visit graph fuel path done node := by
  induction fuel generalizing path done node with
  | zero =>
      have hlength := length_le_of_nodup hnodup hpath
      omega
  | succ fuel ih =>
      rw [Nat.add_right_comm, visit, visit]
      by_cases hold : node ∈ done
      · simp only [hold, if_true]
      · by_cases hmem : node ∈ path
        · simp only [hold, hmem, if_true, if_false]
        · simp only [hold, hmem, if_false]
          rw [foldlM_congr fun edge hedge done => ih
            (by simp only [List.length_cons]; omega)
            (List.nodup_cons.mpr ⟨hmem, hnodup⟩)
            (List.forall_mem_cons.mpr ⟨hnode, hpath⟩) (hgraph node edge hedge)]

end ResponseTree

end SceneQuiz
