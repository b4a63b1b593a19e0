import SceneQuiz.Parse.Expression
/-!
Reading whole texts: statement lists, where reading goes on after a fault at
the next statement, and single expressions, where nothing else may follow.
-/

namespace SceneQuiz

/-- A statement with the spans of its parts. -/
structure MarkedStatement where
  statement : Statement
  span : Span
  marks : SpanTree
  /-- The spans of the flags. -/
  flagSpans : List Span
deriving Repr

namespace Parse

/-- Fuel enough to read everything ahead. -/
def fuelAhead : Parse Nat := do
  return 16 * ((← get).rest.length + 2)

/-- `name` or `name=value`, where the value is a sum. -/
def parseFlag : Parse (Flag × Span) := do
  let start := (← peek).span
  let name ← expectName
  let value ← if ← eat .equal then
      some <$> parseAt (← fuelAhead) 0 .sum
    else pure none
  return (⟨name, value.map Marked.expr⟩, start.merge (← lastSpan))

/-- Flags after commas; `fuel` bounds their number. -/
def parseFlags : (fuel : Nat) → Parse (List (Flag × Span))
  | 0 => pure []
  | fuel + 1 => do
      if ← eat .comma then
        let flag ← parseFlag
        let flags ← parseFlags fuel
        return flag :: flags
      else return []

/-- An expression and its flags. -/
def parseStatement : Parse MarkedStatement := do
  let expr ← parseAt (← fuelAhead) 0 .expression
  let flags ← parseFlags (← get).rest.length
  return {
    statement := ⟨expr.expr, flags.map Prod.fst⟩
    span := flags.foldl (fun span flag => span.merge flag.2) expr.span
    marks := expr.marks
    flagSpans := flags.map Prod.snd }

/-- Drop tokens up to and including the next one that ends a statement. -/
def dropStatement : List Token → Span → List Token × Span
  | [], last => ([], last)
  | token :: rest, last =>
      match token.lexeme with
      | .endOfInput => (token :: rest, last)
      | .semicolon | .dollar | .newline => (rest, token.span)
      | _ => dropStatement rest token.span

/-- Drop the terminators at the front. -/
def dropTerminators : List Token → Span → List Token × Span
  | [], last => ([], last)
  | token :: rest, last =>
      match token.lexeme with
      | .semicolon | .dollar | .newline => dropTerminators rest token.span
      | _ => (token :: rest, last)

/-- Go on after the next end of a statement. -/
def synchronize (cursor : Cursor) : Cursor :=
  let ahead := dropStatement cursor.rest cursor.last
  { cursor with rest := ahead.1, last := ahead.2 }

/-- Go on after terminators. -/
def skipTerminators (cursor : Cursor) : Cursor :=
  let ahead := dropTerminators cursor.rest cursor.last
  { cursor with rest := ahead.1, last := ahead.2 }

/-- Read statements to the end of input.  Each round takes up a token, so
`fuel` need not exceed their number. -/
def parseStatements : (fuel : Nat) → Cursor → List MarkedStatement × Cursor
  | 0, cursor => ([], cursor)
  | fuel + 1, cursor =>
      let cursor := skipTerminators cursor
      if cursor.next.lexeme = .endOfInput ∨
          Log.errorLimit ≤ cursor.issues.length then ([], cursor)
      else
        match parseStatement.run.run cursor with
        | (none, cursor) => parseStatements fuel (synchronize cursor)
        | (some statement, cursor) =>
            if cursor.next.lexeme.isTerminator then
              let tail := parseStatements fuel cursor
              (statement :: tail.1, tail.2)
            else
              parseStatements fuel (synchronize (cursor.report
                (.expectedEndOfStatement cursor.next.lexeme) cursor.next.span))

/-- Step over line breaks. -/
def skipNewlines : Parse Unit := do
  modify fun cursor =>
    let rest := cursor.rest.dropWhile fun token => token.lexeme == .newline
    let passed := cursor.rest.takeWhile fun token => token.lexeme == .newline
    { cursor with rest := rest, last := (passed.getLast?.map Token.span).getD cursor.last }

/-- Exactly one expression.  An empty text is only reported when nothing else
was. -/
def parseSingle : Parse Marked := do
  skipNewlines
  if ← check .endOfInput then
    if (← get).issues.isEmpty then failHere .expectedExpression else failure
  else
    let expr ← parseAt (← fuelAhead) 0 .expression
    skipNewlines
    match ← peekLexeme with
    | .endOfInput => return expr
    | .comma => failHere .misplacedFlag
    | found => failHere (.expectedEndOfExpression found)

/-- The cursor at the start of a text. -/
def start (source : String) : Cursor :=
  let lexed := lex source
  ⟨lexed.tokens, Span.point 1 1, lexed.issues⟩

end Parse

/-- What reading one expression gave.  A value can come with issues, when only
tokens were at fault. -/
structure ExpressionReading where
  value : Option Marked
  issues : List CodeIssue
deriving Repr

/-- What reading statements gave: those that could be read, and the issues. -/
structure FragmentReading where
  statements : List MarkedStatement
  issues : List CodeIssue
deriving Repr

/-- Read a text as one expression. -/
def readExpression (source : String) : ExpressionReading :=
  let result := Parse.parseSingle.run.run (Parse.start source)
  ⟨result.1, result.2.issues⟩

/-- Read a text as statements. -/
def readFragment (source : String) : FragmentReading :=
  let cursor := Parse.start source
  let result := Parse.parseStatements cursor.rest.length cursor
  ⟨result.1, result.2.issues⟩

/-- The statements that were read. -/
def FragmentReading.fragment (reading : FragmentReading) : Fragment :=
  reading.statements.map MarkedStatement.statement

/-- The expression a text holds, or the issues that keep it from being one. -/
def Expr.parse (source : String) : Except (List CodeIssue) Expr :=
  let reading := readExpression source
  match reading.value with
  | some marked =>
      if reading.issues.isEmpty then .ok marked.expr else .error reading.issues
  | none => .error reading.issues

/-- The statements a text holds, or the issues that keep it from being read. -/
def Fragment.parse (source : String) : Except (List CodeIssue) Fragment :=
  let reading := readFragment source
  if reading.issues.isEmpty then .ok reading.fragment else .error reading.issues

end SceneQuiz
