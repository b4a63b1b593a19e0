import SceneQuiz.Template.Basic
/-!
Response trees: graphs of answer tests that judge a response.  Evaluation
starts at the root; each node runs a test, and the branch of the outcome says
what to score, what to show and where to go on.
-/

namespace SceneQuiz

/-- A value that survives the change of scenes. -/
structure StateVariable where
  name : String
  /-- The number it is stored under, whatever its name. -/
  storage : Nat
  /-- A hint for authors. -/
  declaredType : String
  initialValue : String
deriving DecidableEq, Repr

/-- How the scores of several attempts combine. -/
inductive ScoreMode where
  | noScore
  | first
  | best
  | bestN
deriving DecidableEq, Repr

/-- How a branch changes the score. -/
inductive ScoreChange where
  | set
  | add
  | subtract
deriving DecidableEq, Repr

/-- Where a branch leads. -/
inductive Exit where
  | finish
  | node (target : String)
  | scene (target : String)
  /-- Update state variables and enter the same scene again. -/
  | stateTransition
deriving DecidableEq, Repr

namespace Exit

/-- Does the exit leave for a scene? -/
def isTransition : Exit → Bool
  | .scene _ | .stateTransition => true
  | .finish | .node _ => false

def nodeTarget? : Exit → Option String
  | .node target => some target
  | _ => none

end Exit

namespace ResponseTree

/-- What happens after one outcome of a test. -/
structure Branch where
  score : Option String
  scoreChange : ScoreChange
  penalty : Option String
  penaltyChange : ScoreChange
  feedback : Template
  /-- Code that runs when the branch leaves for a scene. -/
  transitionCode : String
  exit : Exit
deriving Repr

/-- A branch that only ends the evaluation. -/
def Branch.plain : Branch := ⟨none, .set, none, .set, .empty, "", .finish⟩

/-- One test of a tree. -/
structure Node where
  name : String
  /-- The name of the answer test. -/
  test : String
  /-- What the student answered. -/
  studentAnswer : String
  /-- What it is compared with. -/
  teacherAnswer : String
  options : String
  /-- A quiet test shows no message of its own. -/
  quiet : Bool
  onTrue : Branch
  onFalse : Branch
deriving Repr

def Node.branch (node : Node) (outcome : Bool) : Branch :=
  if outcome then node.onTrue else node.onFalse

end ResponseTree

/-- A response tree. -/
structure ResponseTree where
  name : String
  /-- The weight of the tree within its scene. -/
  value : Float
  scoreMode : ScoreMode
  /-- Code that runs before the first test. -/
  feedbackVariables : String
  root : String
  nodes : List ResponseTree.Node
deriving Repr

namespace ResponseTree

/-- The place of a node among the nodes. -/
def indexOf? (tree : ResponseTree) (name : String) : Option Nat :=
  tree.nodes.findIdx? fun node => node.name == name

def isScored (tree : ResponseTree) : Bool := tree.scoreMode != .noScore

/-- The two outcomes of a test, in the order they are treated in. -/
def outcomes : List Bool := [true, false]

/-- The mark that a node leaves on the path when it takes a branch. -/
def pathToken (node : String) (outcome : Bool) : String :=
  node ++ (if outcome then "-T" else "-F")

end ResponseTree

end SceneQuiz
