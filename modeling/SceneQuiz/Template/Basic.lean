import SceneQuiz.Source
import SceneQuiz.Text.Basic
/-!
Templates: text with blocks in it.  A template is its source together with the
tree of its blocks.  Expressions inside blocks are still text, and every node
knows the bytes of the source it stands for.
-/

namespace SceneQuiz

/-- A pair `name="value"` of a block. -/
structure Attribute where
  name : String
  value : String
deriving DecidableEq, Repr

/-- How an injected value is shown. -/
inductive InjectMode where
  | latex
  | value
deriving DecidableEq, Repr

/-- Where a node stands. -/
structure Site where
  position : Position
  /-- The node starts inside a formula. -/
  mathMode : Bool
deriving DecidableEq, Repr, Inhabited

/-- The site with the classification of the byte it starts at. -/
def Site.marked (map : List Bool) (site : Site) : Site :=
  { site with mathMode := map[site.position.start]?.getD false }

/-- One arm of a conditional block; an `else` has no condition. -/
structure Branch (α : Type) where
  condition : Option String
  children : List α
  position : Position
deriving DecidableEq, Repr

/-- One node of a template. -/
inductive Node where
  | root (site : Site) (children : List Node)
  | raw (site : Site) (text : String)
  /-- The value of an expression. -/
  | inject (site : Site) (mode : InjectMode) (expression : String)
  | define (site : Site) (bindings : List Attribute)
  | cond (site : Site) (branches : List (Branch Node))
  /-- The children once for each member of the iterators, in step. -/
  | foreach (site : Site) (iterators : List Attribute) (children : List Node)
  | comment (site : Site) (text : String)
  | escape (site : Site) (value : String)
  /-- A block known by name only. -/
  | named (site : Site) (name : String) (params : List Attribute)
      (children : List Node)
deriving Repr

namespace Node

def site : Node → Site
  | .root site _ | .raw site _ | .inject site _ _ | .define site _
  | .cond site _ | .foreach site _ _ | .comment site _ | .escape site _
  | .named site _ _ _ => site

def position (node : Node) : Position := node.site.position

def mathMode (node : Node) : Bool := node.site.mathMode

/-- Direct children, in source order. -/
def children : Node → List Node
  | .root _ children | .foreach _ _ children | .named _ _ _ children => children
  | .cond _ branches => branches.flatMap Branch.children
  | _ => []

/-- The word a document uses for this kind of node. -/
def kindName : Node → String
  | .root _ _ => "root"
  | .raw _ _ => "raw"
  | .inject _ _ _ => "inject"
  | .define _ _ => "define"
  | .cond _ _ => "if"
  | .foreach _ _ _ => "foreach"
  | .comment _ _ => "comment"
  | .escape _ _ => "escape"
  | .named _ _ _ _ => "named"

end Node

/-- A template. -/
structure Template where
  source : String
  root : Node
deriving Repr

namespace Template

/-- A template of plain text. -/
def plain (text : String) : Template :=
  let site : Site := ⟨⟨0, Text.byteLength text⟩, false⟩
  ⟨text, .root site (if text = "" then [] else [.raw site text])⟩

/-- The template without content. -/
def empty : Template := plain ""

instance : Inhabited Template := ⟨empty⟩

def isEmpty (template : Template) : Bool :=
  match template.root with
  | .root _ children => children.isEmpty
  | _ => false

end Template

end SceneQuiz
