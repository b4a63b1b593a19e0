import SceneQuiz.Expr.Basic
import SceneQuiz.Template.Basic
import SceneQuiz.Template.IndexStyle
/-!
Blocks: templates whose shape has been checked and whose expressions have been
read.  A block is flat if its value is a text; any other has markers in it that
are rendered after evaluation.
-/

namespace SceneQuiz

/-- An injected expression. -/
structure Injection where
  mode : InjectMode
  expr : Expr
  /-- For an assignment, the name that is shown once it is assigned. -/
  key : Option String
  /-- The value of a `simp` flag. -/
  simp : Option Bool
  mathMode : Bool
deriving BEq, Repr

/-- A block. -/
inductive Block where
  | container (items : List Block)
  | text (text : String)
  | inject (injection : Injection)
  | define (pairs : List (String × Expr))
  | cond (branches : List (Expr × Block)) (otherwise : Option Block)
  | foreach (iterators : List (String × Expr)) (body : Block)
  | indexing (style : IndexStyle) (start : Expr) (body : Block)
  | index
  | reveal (input : String) (value : Expr) (body : Block)
  | lang (codes : List String) (body : Block)
deriving Repr

/-- Names of the blocks that are known by name. -/
def Block.knownNames : List String := ["indexing", "index", "reveal", "lang"]

/-- Direct child blocks. -/
def Block.children : Block → List Block
  | .container items => items
  | .cond branches otherwise => branches.map Prod.snd ++ otherwise.toList
  | .foreach _ body | .indexing _ _ body | .reveal _ _ body | .lang _ body =>
      [body]
  | .text _ | .inject _ | .define _ | .index => []

mutual

/-- Is the value of the block a text? -/
def Block.isFlat (block : Block) : Bool :=
  match block with
  | .container items => Block.allFlat items
  | .text _ | .inject _ | .define _ => true
  | .cond branches otherwise =>
      Block.allBodiesFlat branches &&
        (match otherwise with
          | some body => body.isFlat
          | none => true)
  | .foreach _ body => body.isFlat
  | .indexing _ _ _ | .index | .reveal _ _ _ | .lang _ _ => false
termination_by structural block

def Block.allFlat (blocks : List Block) : Bool :=
  match blocks with
  | [] => true
  | block :: rest => block.isFlat && Block.allFlat rest
termination_by structural blocks

def Block.allBodiesFlat (branches : List (Expr × Block)) : Bool :=
  match branches with
  | [] => true
  | (_, body) :: rest => body.isFlat && Block.allBodiesFlat rest
termination_by structural branches

end

mutual

/-- How many loops a block holds. -/
def Block.loopCount (block : Block) : Nat :=
  match block with
  | .container items => Block.loopCountOfAll items
  | .text _ | .inject _ | .define _ | .index => 0
  | .cond branches otherwise =>
      Block.loopCountOfBodies branches +
        (match otherwise with
          | some body => body.loopCount
          | none => 0)
  | .foreach _ body => body.loopCount + 1
  | .indexing _ _ body | .reveal _ _ body | .lang _ body => body.loopCount
termination_by structural block

def Block.loopCountOfAll (blocks : List Block) : Nat :=
  match blocks with
  | [] => 0
  | block :: rest => block.loopCount + Block.loopCountOfAll rest
termination_by structural blocks

def Block.loopCountOfBodies (branches : List (Expr × Block)) : Nat :=
  match branches with
  | [] => 0
  | (_, body) :: rest => body.loopCount + Block.loopCountOfBodies rest
termination_by structural branches

end

end SceneQuiz
