import SceneQuiz.Template.Basic
/-!
Which parts of a template are formulas.  Formula delimiters need not respect
block boundaries, so they are found in the bytes of the source, and each node
then learns from the byte it starts at.

Bytes that belong to a block itself, such as its header or an expression in
it, are skipped: a delimiter does not start there.
-/

namespace SceneQuiz

namespace MathMode

/-- An open formula, by what closes it. -/
inductive Delimiter where
  | inline
  | display
  | dollars
  | environment (name : List UInt8)
deriving DecidableEq, Repr

/-- What a token does to the open formulas. -/
inductive Change where
  | opens (delimiter : Delimiter)
  | closes
  | nothing
deriving DecidableEq, Repr

/-- Close the innermost formula if it is the right one. -/
def closing (top : Option Delimiter) (delimiter : Delimiter) : Change :=
  if top = some delimiter then .closes else .nothing

/-- The name of a known environment that follows an opening such as
`\begin` with its brace. -/
def environmentAfter (opening : String) (environments : List String)
    (rest : List UInt8) : Option (List UInt8) :=
  let opening := Text.bytes opening
  if opening.isPrefixOf rest then
    let tail := rest.drop opening.length
    let name := tail.takeWhile (· != 0x7d)
    if name.length < tail.length ∧ name ∈ environments.map Text.bytes then
      some name
    else none
  else none

/-- The token at the start of some bytes: its length and what it does. -/
def token (environments : List String) (top : Option Delimiter)
    (rest : List UInt8) : Nat × Change :=
  match rest with
  | 0x5c :: 0x28 :: _ => (2, .opens .inline)
  | 0x5c :: 0x29 :: _ => (2, closing top .inline)
  | 0x5c :: 0x5b :: _ => (2, .opens .display)
  | 0x5c :: 0x5d :: _ => (2, closing top .display)
  | 0x24 :: 0x24 :: _ =>
      (2, if top = some .dollars then .closes else .opens .dollars)
  | 0x5c :: 0x5c :: _ => (2, .nothing)
  | _ =>
      match environmentAfter "\\begin\x7b" environments rest with
      | some name => (name.length + 8, .opens (.environment name))
      | none =>
          match environmentAfter "\\end\x7b" environments rest with
          | some name => (name.length + 6, closing top (.environment name))
          | none => (1, .nothing)

/-- The open formulas after a change. -/
def Change.apply (change : Change) (stack : List Delimiter) : List Delimiter :=
  match change with
  | .opens delimiter => delimiter :: stack
  | .closes => stack.tail
  | .nothing => stack

/-- A delimiter belongs to the formula it opens or closes. -/
def Change.isInside (change : Change) (stack : List Delimiter) : Bool :=
  match change with
  | .opens _ | .closes => true
  | .nothing => !stack.isEmpty

/-- Is this byte skipped? -/
def isSkipped (skip : List Position) (offset : Nat) : Bool :=
  skip.any fun range => range.covers offset

/-- Classify bytes from an offset on.  The first `pending` of them belong to a
token that has been read and are classified like it. -/
def scanFrom (skip : List Position) (environments : List String)
    (offset pending : Nat) (inside : Bool) (stack : List Delimiter) :
    List UInt8 → List Bool
  | [] => []
  | byte :: rest =>
      match pending with
      | more + 1 =>
          inside ::
            scanFrom skip environments (offset + 1) more inside stack rest
      | 0 =>
          if isSkipped skip offset then
            (!stack.isEmpty) ::
              scanFrom skip environments (offset + 1) 0 inside stack rest
          else
            let found := token environments stack.head? (byte :: rest)
            let inside := found.2.isInside stack
            inside ::
              scanFrom skip environments (offset + 1) (found.1 - 1) inside
                (found.2.apply stack) rest

/-- For each byte of a source, whether it is inside a formula. -/
def scan (source : String) (skip : List Position) (environments : List String) :
    List Bool :=
  scanFrom skip environments 0 0 false [] (Text.bytes source)

/-- Parts of `[cursor, stop)` that none of some ranges covers; the ranges are
given by ascending start. -/
def gapsFrom (cursor stop : Nat) : List Position → List Position
  | [] => if cursor < stop then [⟨cursor, stop⟩] else []
  | range :: rest =>
      (if cursor < range.start then [⟨cursor, range.start⟩] else []) ++
        gapsFrom (max cursor range.stop) stop rest

/-- Parts of a range that none of some others covers. -/
def gaps (outer : Position) (inner : List Position) : List Position :=
  gapsFrom outer.start outer.stop
    (inner.mergeSort fun a b => decide (a.start ≤ b.start))

end MathMode

mutual

/-- Bytes of a node that are not text: all of a node without children, and
what a block covers besides its children.  The outermost node is only a frame
(`isFrame`) and has no bytes of its own. -/
def Node.skipsWithin (node : Node) (isFrame : Bool) : List Position :=
  match node with
  | .raw _ _ => []
  | .comment site _ | .inject site _ _ | .escape site _ | .define site _ =>
      [site.position]
  | .root site children | .foreach site _ children
  | .named site _ _ children =>
      (if isFrame then []
        else MathMode.gaps site.position (children.map Node.position)) ++
        Node.skipsOfAll children
  | .cond site branches =>
      (if isFrame then []
        else MathMode.gaps site.position
          ((branches.flatMap Branch.children).map Node.position)) ++
        Node.skipsOfBranches branches
termination_by structural node

def Node.skipsOfAll (nodes : List Node) : List Position :=
  match nodes with
  | [] => []
  | node :: rest => node.skipsWithin false ++ Node.skipsOfAll rest
termination_by structural nodes

def Node.skipsOfBranches (branches : List (Branch Node)) : List Position :=
  match branches with
  | [] => []
  | ⟨_, children, _⟩ :: rest =>
      Node.skipsOfAll children ++ Node.skipsOfBranches rest
termination_by structural branches

end

/-- Bytes in which no delimiter starts, for a whole template. -/
def Node.skipRanges (top : Node) : List Position := top.skipsWithin true

mutual

/-- Mark every node by the byte it starts at. -/
def Node.mark (map : List Bool) (node : Node) : Node :=
  match node with
  | .root site children => .root (site.marked map) (Node.markAll map children)
  | .raw site text => .raw (site.marked map) text
  | .inject site mode expression => .inject (site.marked map) mode expression
  | .define site bindings => .define (site.marked map) bindings
  | .cond site branches =>
      .cond (site.marked map) (Node.markBranches map branches)
  | .foreach site iterators children =>
      .foreach (site.marked map) iterators (Node.markAll map children)
  | .comment site text => .comment (site.marked map) text
  | .escape site value => .escape (site.marked map) value
  | .named site name params children =>
      .named (site.marked map) name params (Node.markAll map children)
termination_by structural node

def Node.markAll (map : List Bool) (nodes : List Node) : List Node :=
  match nodes with
  | [] => []
  | node :: rest => node.mark map :: Node.markAll map rest
termination_by structural nodes

def Node.markBranches (map : List Bool) (branches : List (Branch Node)) :
    List (Branch Node) :=
  match branches with
  | [] => []
  | ⟨condition, children, position⟩ :: rest =>
      ⟨condition, Node.markAll map children, position⟩ ::
        Node.markBranches map rest
termination_by structural branches

end

/-- Tell every node of a template whether it is inside a formula. -/
def Node.annotate (top : Node) (source : String) (environments : List String) :
    Node :=
  top.mark (MathMode.scan source top.skipRanges environments)

end SceneQuiz
