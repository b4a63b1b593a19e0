import SceneQuiz.Text.Basic
/-!
Places in a source text.  Lines and columns are counted from one, columns in
characters; byte offsets address templates, whose blocks are cut by byte.
-/

namespace SceneQuiz

/-- A stretch of a source text, first and last character included. -/
structure Span where
  line : Nat
  column : Nat
  endLine : Nat
  endColumn : Nat
deriving DecidableEq, Repr, Inhabited

namespace Span

/-- The span of a single place. -/
def point (line column : Nat) : Span := ⟨line, column, line, column⟩

/-- The smallest span that covers two spans. -/
def merge (a b : Span) : Span where
  line := min a.line b.line
  column :=
    if a.line < b.line then a.column
    else if b.line < a.line then b.column
    else min a.column b.column
  endLine := max a.endLine b.endLine
  endColumn :=
    if b.endLine < a.endLine then a.endColumn
    else if a.endLine < b.endLine then b.endColumn
    else max a.endColumn b.endColumn

/-- Where the span starts, as shown to people. -/
def text (span : Span) : String :=
  toString span.line ++ ":" ++ toString span.column

end Span

/-- A byte range, its end excluded. -/
structure Position where
  start : Nat
  stop : Nat
deriving DecidableEq, Repr, Inhabited

namespace Position

def length (position : Position) : Nat := position.stop - position.start

def isEmpty (position : Position) : Bool := position.stop ≤ position.start

/-- The range holds the byte at an offset. -/
def covers (position : Position) (offset : Nat) : Bool :=
  position.start ≤ offset && offset < position.stop

end Position

namespace Source

/-- The lines of a text, without their line breaks. -/
def lines (source : String) : List (List Char) :=
  Text.splitChars '\n' source.toList

def lineCount (source : String) : Nat := (lines source).length

/-- Drop carriage returns at the end of a line. -/
def dropReturns (line : List Char) : List Char :=
  (line.reverse.dropWhile (· == '\r')).reverse

/-- The text of a line, counted from one, without trailing carriage returns. -/
def line? (source : String) (number : Nat) : Option String :=
  if number = 0 then none
  else (lines source)[number - 1]?.map fun line =>
    String.ofList (dropReturns line)

/-- Walk `offset` bytes into the text.  `column` counts the characters of the
current line and `width` its bytes; an offset inside a character is counted in
bytes. -/
def locate (line column width : Nat) : List Char → Nat → Nat × Nat
  | [], _ => (line, column)
  | c :: rest, offset =>
      if offset = 0 then (line, column)
      else if offset < c.utf8Size then (line, width + offset)
      else if c = '\n' then locate (line + 1) 1 1 rest (offset - c.utf8Size)
      else locate line (column + 1) (width + c.utf8Size) rest
        (offset - c.utf8Size)

/-- Line and column of a byte offset; offsets past the end mean the end. -/
def location (source : String) (offset : Nat) : Nat × Nat :=
  locate 1 1 1 source.toList offset

/-- The span of a byte range, from its first to its last byte.  An empty range
stands for the byte it starts at.  Offsets in machine words overflow after the
greatest one, and lines and columns of 32 bits past `2 ^ 32 - 1`; here none does. -/
def spanOf (source : String) (position : Position) : Span :=
  let first := location source position.start
  let last := location source (max position.stop (position.start + 1) - 1)
  ⟨first.1, first.2, last.1, last.2⟩

end Source

end SceneQuiz
