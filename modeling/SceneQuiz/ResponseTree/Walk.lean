import SceneQuiz.Diagnostic.Document
import SceneQuiz.ResponseTree.Basic
/-!
The graph of a response tree: which nodes the root reaches, and an order in
which every node comes after all that lead into it.  A graph with a cycle that
the root reaches has no such order; the cycle is reported.
-/

namespace SceneQuiz

namespace ResponseTree

/-- What is wrong with the graph of a tree. -/
inductive Fault where
  | missingRoot (root : String)
  /-- Names along the cycle; the first is the last. -/
  | cycle (path : List String)
  | unknownExitTarget (node target : String)
  | unknownSceneTarget (node target : String)
  | duplicateNode (name : String)
deriving DecidableEq, Repr

namespace Fault

def code : Fault → Code
  | .missingRoot _ => Code.missingRoot
  | .cycle _ => Code.cyclicGraph
  | .unknownExitTarget _ _ => Code.unknownExitTarget
  | .unknownSceneTarget _ _ => Code.unknownSceneTarget
  | .duplicateNode _ => Code.duplicateName

def message : Fault → String
  | .missingRoot root => "root node '" ++ root ++ "' does not exist"
  | .cycle path => "cyclic graph: " ++ " -> ".intercalate path
  | .unknownExitTarget node target =>
      "node '" ++ node ++ "' exits to unknown node '" ++ target ++ "'"
  | .unknownSceneTarget node target =>
      "node '" ++ node ++ "' exits to unknown scene '" ++ target ++ "'"
  | .duplicateNode name => "duplicate node name '" ++ name ++ "'"

def diagnostic (fault : Fault) (path : Locator) : Diagnostic :=
  (Diagnostic.error fault.code fault.message).under path

end Fault

/-- A branch that leads to another node. -/
structure Edge where
  outcome : Bool
  target : Nat
deriving DecidableEq, Repr

/-- The edges of each node, by its place among the nodes. -/
abbrev Graph := List (List Edge)

/-- The edges that leave a node. -/
def Graph.edges (graph : Graph) (node : Nat) : List Edge :=
  graph[node]?.getD []

/-- The branches of a node that lead to nodes, by name. -/
def Node.targets (node : Node) : List (Bool × String) :=
  outcomes.filterMap fun outcome =>
    (node.branch outcome).exit.nodeTarget?.map fun target => (outcome, target)

/-- The first name that has occurred before. -/
def firstRepeat? (seen : List String) : List String → Option String
  | [] => none
  | name :: rest =>
      if name ∈ seen then some name else firstRepeat? (name :: seen) rest

/-- The edge of one branch. -/
def edge (tree : ResponseTree) (node : Node) (target : Bool × String) :
    Except Fault Edge :=
  match tree.indexOf? target.2 with
  | some index => .ok ⟨target.1, index⟩
  | none => .error (.unknownExitTarget node.name target.2)

/-- The graph of a tree, if every branch leads somewhere. -/
def graph (tree : ResponseTree) : Except Fault Graph :=
  tree.nodes.mapM fun node => node.targets.mapM (tree.edge node)

/-- Visit a node on `path`, the innermost of its ancestors first.  `done` holds
the nodes that are finished, the last one first; on a cycle, its nodes are
returned instead.

A path has no repetitions, so `fuel` suffices if there are no more nodes. -/
def visit (graph : Graph) : (fuel : Nat) → (path done : List Nat) →
    (node : Nat) → Except (List Nat) (List Nat)
  | 0, _, done, _ => .ok done
  | fuel + 1, path, done, node =>
      if node ∈ done then .ok done
      else if node ∈ path then
        .error (node :: (path.takeWhile (· != node)).reverse ++ [node])
      else do
        let finished ← (graph.edges node).foldlM
          (fun done edge => visit graph fuel (node :: path) done edge.target) done
        return node :: finished

/-- What a walk from the root finds. -/
structure Traversal where
  graph : Graph
  /-- Nodes in an order that follows the edges, the root first. -/
  order : List Nat
deriving Repr

/-- Names of nodes by their places. -/
def nameOf (tree : ResponseTree) (index : Nat) : String :=
  (tree.nodes[index]?.map Node.name).getD ""

/-- Walk a tree from its root. -/
def walk (tree : ResponseTree) : Except Fault Traversal :=
  match firstRepeat? [] (tree.nodes.map Node.name) with
  | some name => .error (.duplicateNode name)
  | none =>
      match tree.indexOf? tree.root with
      | none => .error (.missingRoot tree.root)
      | some root => do
          let graph ← tree.graph
          match visit graph (tree.nodes.length + 1) [] [] root with
          | .ok order => .ok ⟨graph, order⟩
          | .error cycle => .error (.cycle (cycle.map tree.nameOf))

namespace Traversal

/-- The root, which comes first. -/
def root? (traversal : Traversal) : Option Nat := traversal.order.head?

/-- Nodes that the root does not reach, in declaration order. -/
def orphans (traversal : Traversal) : List Nat :=
  (List.range traversal.graph.length).filter fun node =>
    decide (node ∉ traversal.order)

/-- Marks of the branches that lead into a node. -/
def entries (traversal : Traversal) (tree : ResponseTree) (node : Nat) :
    List String :=
  traversal.order.flatMap fun source =>
    (traversal.graph.edges source).filterMap fun edge =>
      if edge.target = node then some (pathToken (tree.nameOf source) edge.outcome)
      else none

end Traversal

end ResponseTree

end SceneQuiz
