import SceneQuiz.Expr.Basic
import SceneQuiz.Token.Lexer
/-!
The state of reading tokens, and expressions together with the spans of their
nodes.
-/

namespace SceneQuiz

/-- The spans of an expression and of its parts, in the order of
`Expr.children`. -/
inductive SpanTree where
  | node (span : Span) (parts : List SpanTree)
deriving Repr, Inhabited

def SpanTree.span : SpanTree → Span
  | .node span _ => span

def SpanTree.parts : SpanTree → List SpanTree
  | .node _ parts => parts

/-- An expression that was read from text, with its spans. -/
structure Marked where
  expr : Expr
  marks : SpanTree
deriving Repr, Inhabited

namespace Marked

def span (marked : Marked) : Span := marked.marks.span

/-- A node without parts. -/
def leaf (expr : Expr) (span : Span) : Marked := ⟨expr, .node span []⟩

/-- A node over parts. -/
def node (expr : Expr) (span : Span) (parts : List Marked) : Marked :=
  ⟨expr, .node span (parts.map Marked.marks)⟩

/-- An operator between two operands. -/
def binary (op : BinOp) (left right : Marked) : Marked :=
  node (.binary op left.expr right.expr) (left.span.merge right.span)
    [left, right]

end Marked

/-- Where reading stands. -/
structure Cursor where
  /-- The tokens ahead; the last one is the end of input. -/
  rest : List Token
  /-- The span of the token read last. -/
  last : Span
  issues : List CodeIssue
deriving Repr

namespace Cursor

/-- The next token; after the last one it stays the end of input. -/
def next (cursor : Cursor) : Token :=
  match cursor.rest with
  | token :: _ => token
  | [] => ⟨.endOfInput, cursor.last⟩

/-- The cursor after the next token. -/
def step (cursor : Cursor) : Cursor :=
  match cursor.rest with
  | token :: rest => { cursor with rest := rest, last := token.span }
  | [] => cursor

/-- Report a fault at a span. -/
def report (cursor : Cursor) (fault : CodeFault) (span : Span) : Cursor :=
  { cursor with issues := cursor.issues ++ [⟨fault, span⟩] }

end Cursor

/-- Reading moves the cursor and may fail; a failure keeps the cursor where it
is, so that reading can go on after it. -/
abbrev Parse (α : Type) := OptionT (StateM Cursor) α

namespace Parse

/-- The next token. -/
def peek : Parse Token := do
  return (← get).next

/-- The next lexeme. -/
def peekLexeme : Parse Lexeme := do
  return (← peek).lexeme

/-- The lexeme after the next one. -/
def peekSecond : Parse Lexeme := do
  match (← get).rest with
  | _ :: token :: _ => pure token.lexeme
  | _ => pure .endOfInput

/-- Step over the next token and return its span. -/
def advance : Parse Span := do
  let span := (← get).next.span
  modify Cursor.step
  return span

/-- The span of the token read last. -/
def lastSpan : Parse Span := do
  return (← get).last

def check (lexeme : Lexeme) : Parse Bool := do
  return (← peekLexeme) == lexeme

/-- Step over a token if it is next. -/
def eat (lexeme : Lexeme) : Parse Bool := do
  if ← check lexeme then
    let _ ← advance
    return true
  else return false

/-- Report a fault at a span. -/
def report (fault : CodeFault) (span : Span) : Parse Unit :=
  modify fun cursor => cursor.report fault span

/-- Report a fault at a span and fail. -/
def failAt {α : Type} (fault : CodeFault) (span : Span) : Parse α := do
  report fault span
  failure

/-- Report a fault at the next token and fail. -/
def failHere {α : Type} (fault : CodeFault) : Parse α := do
  failAt fault (← peek).span

/-- Step over a token that has to be next. -/
def expect (wanted : Lexeme) : Parse Span := do
  let found ← peekLexeme
  if found = wanted then advance else failHere (.expected wanted found)

/-- Read a name. -/
def expectName : Parse String := do
  match ← peekLexeme with
  | .ident name =>
      let _ ← advance
      return name
  | found => failHere (.expectedName found)

/-- Step over a line break before a word that continues a construct. -/
def skipContinuation : Parse Unit := do
  if (← check .newline) && (← peekSecond).continuesStatement then
    let _ ← advance
    return ()
  else return ()

end Parse

end SceneQuiz
