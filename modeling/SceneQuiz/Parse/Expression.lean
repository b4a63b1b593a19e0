import SceneQuiz.Parse.Cursor
/-!
Expressions from tokens.

From loosest to tightest: assignment and definition (to the right), `or`,
`and`, `not`, comparison (which does not chain), sums, products, signs, powers
(to the right), quotes, then calls, indexing and factorials.  Conditionals and
loops are operands whose bodies reach as far to the right as possible.
-/

namespace SceneQuiz

namespace Parse

/-- The levels of the grammar, from the loosest to the tightest. -/
inductive Level where
  /-- A whole expression, which counts towards the nesting limit. -/
  | expression
  | assignment
  | disjunction
  | conjunction
  | negation
  | comparison
  | sum
  | product
  | sign
  | power
  | quotation
  | suffix
  | operand
deriving DecidableEq, Repr

/-- The level of the operands of a left-associative level. -/
def Level.tighter : Level → Level
  | .disjunction => .conjunction
  | .conjunction => .negation
  | .sum => .product
  | _ => .sign

/-- The operator a lexeme stands for at a left-associative level. -/
def Level.operator? : Level → Lexeme → Option BinOp
  | .disjunction, .word .orWord => some .or
  | .conjunction, .word .andWord => some .and
  | .sum, .plus => some .add
  | .sum, .minus => some .sub
  | .product, .star => some .mul
  | .product, .slash => some .div
  | .product, .dot => some .dot
  | _, _ => none

/-- The assignment a lexeme stands for. -/
def assignment? : Lexeme → Option BinOp
  | .colon => some .assign
  | .colonEqual => some .define
  | _ => none

/-- The comparison a lexeme stands for. -/
def comparison? : Lexeme → Option BinOp
  | .equal => some .eq
  | .hash => some .notEq
  | .less => some .less
  | .greater => some .greater
  | .lessEqual => some .lessEq
  | .greaterEqual => some .greaterEq
  | _ => none

/-- Expressions out of marked ones. -/
def exprsOf (items : List Marked) : List Expr := items.map Marked.expr

/-- A node that opens at `start` and closes with the token read last. -/
def closeNode (expr : Expr) (start : Span) (parts : List Marked) :
    Parse Marked := do
  return Marked.node expr (start.merge (← lastSpan)) parts

/-- A single token as an expression. -/
def literal (expr : Expr) : Parse Marked := do
  return Marked.leaf expr (← advance)

mutual

/-- Read an expression of a level, inside `nesting` others.  Between two tokens
there are fewer than sixteen calls, which bounds the fuel. -/
def parseAt (fuel nesting : Nat) (level : Level) : Parse Marked :=
  match fuel with
  | 0 => failure
  | fuel + 1 =>
      match level with
      | .expression => do
          if nestingLimit ≤ nesting then failHere .nestedTooDeep
          else parseAt fuel (nesting + 1) .assignment
      | .assignment => do
          let left ← parseAt fuel nesting .disjunction
          match assignment? (← peekLexeme) with
          | none => return left
          | some op =>
              let _ ← advance
              let right ← parseAt fuel nesting .assignment
              return Marked.binary op left right
      | .negation => do
          if ← check (.word .notWord) then
            let start ← advance
            let operand ← parseAt fuel nesting .negation
            return Marked.node (.not operand.expr) (start.merge operand.span)
              [operand]
          else parseAt fuel nesting .comparison
      | .comparison => do
          let left ← parseAt fuel nesting .sum
          match comparison? (← peekLexeme) with
          | none => return left
          | some op =>
              let _ ← advance
              let right ← parseAt fuel nesting .sum
              if (comparison? (← peekLexeme)).isSome then
                failHere .chainedComparison
              else return Marked.binary op left right
      | .sign => do
          match ← peekLexeme with
          | .minus =>
              let start ← advance
              let operand ← parseAt fuel nesting .sign
              return Marked.node (.neg operand.expr) (start.merge operand.span)
                [operand]
          | .plus =>
              let _ ← advance
              parseAt fuel nesting .sign
          | _ => parseAt fuel nesting .power
      | .power => do
          let base ← parseAt fuel nesting .quotation
          if ← eat .caret then
            let exponent ← parseAt fuel nesting .sign
            return Marked.binary .pow base exponent
          else return base
      | .quotation => do
          if ← check .quote then
            let start ← advance
            let operand ← parseAt fuel nesting .quotation
            return Marked.node (.quote operand.expr) (start.merge operand.span)
              [operand]
          else parseAt fuel nesting .suffix
      | .suffix => do
          let operand ← parseAt fuel nesting .operand
          parseSuffix fuel nesting operand
      | .operand => parseOperand fuel nesting
      | level => do
          let left ← parseAt fuel nesting level.tighter
          parseTail fuel nesting level left
termination_by structural fuel

/-- Read the operators of a left-associative level after `left`. -/
def parseTail (fuel nesting : Nat) (level : Level) (left : Marked) :
    Parse Marked :=
  match fuel with
  | 0 => failure
  | fuel + 1 => do
      match level.operator? (← peekLexeme) with
      | none => return left
      | some op =>
          let _ ← advance
          let right ← parseAt fuel nesting level.tighter
          parseTail fuel nesting level (Marked.binary op left right)
termination_by structural fuel

/-- Read calls, indices and factorials after `target`.  Only a name can be
called. -/
def parseSuffix (fuel nesting : Nat) (target : Marked) : Parse Marked :=
  match fuel with
  | 0 => failure
  | fuel + 1 => do
      match ← peekLexeme with
      | .leftParen =>
          match target.expr with
          | .ident name =>
              let _ ← advance
              let args ← parseItems fuel nesting .rightParen
              let called ← closeNode (.call name (exprsOf args)) target.span args
              parseSuffix fuel nesting called
          | _ => return target
      | .leftBracket =>
          let _ ← advance
          let indices ← parseItems fuel nesting .rightBracket
          if indices.isEmpty then failAt .emptyIndex (← lastSpan)
          else
            let indexed ← closeNode (.index target.expr (exprsOf indices))
              target.span (target :: indices)
            parseSuffix fuel nesting indexed
      | .bang =>
          let stop ← advance
          parseSuffix fuel nesting
            (Marked.node (.factorial target.expr) (target.span.merge stop)
              [target])
      | _ => return target
termination_by structural fuel

/-- Read a literal, a name, a bracketed list, a conditional or a loop. -/
def parseOperand (fuel nesting : Nat) : Parse Marked :=
  match fuel with
  | 0 => failure
  | fuel + 1 => do
      match ← peekLexeme with
      | .number text => literal (.number text)
      | .str text => literal (.str text)
      | .word .trueWord => literal (.bool true)
      | .word .falseWord => literal (.bool false)
      | .ident name => literal (.ident name)
      | .leftParen =>
          let start ← advance
          let items ← parseItems fuel nesting .rightParen
          match items with
          | [] => failAt .emptyParentheses (start.merge (← lastSpan))
          | [item] => return item
          | items => closeNode (.group (exprsOf items)) start items
      | .leftBracket =>
          let start ← advance
          let items ← parseItems fuel nesting .rightBracket
          closeNode (.list (exprsOf items)) start items
      | .leftBrace =>
          let start ← advance
          let items ← parseItems fuel nesting .rightBrace
          closeNode (.set (exprsOf items)) start items
      | .word .ifWord =>
          let start ← advance
          let arms ← parseArms fuel nesting
          let branches := arms.map fun arm => (arm.1.expr, arm.2.expr)
          let parts := arms.flatMap fun arm => [arm.1, arm.2]
          if ← eat (.word .elseWord) then
            let otherwise ← parseAt fuel nesting .expression
            closeNode (.cond branches (some otherwise.expr)) start
              (parts ++ [otherwise])
          else closeNode (.cond branches none) start parts
      | .word .forWord =>
          let start ← advance
          let var ← expectName
          if ← eat (.word .inWord) then
            let source ← parseAt fuel nesting .disjunction
            let body ← parseBody fuel nesting
            closeNode (.forIn var source.expr body.expr) start [source, body]
          else
            let _ ← expect .colon
            let first ← parseAt fuel nesting .disjunction
            skipContinuation
            let step ← if ← eat (.word .stepWord) then
                some <$> parseAt fuel nesting .disjunction
              else pure none
            skipContinuation
            let _ ← expect (.word .thruWord)
            let last ← parseAt fuel nesting .disjunction
            let body ← parseBody fuel nesting
            closeNode
              (.forRange var first.expr (step.map Marked.expr) last.expr
                body.expr)
              start (first :: step.toList ++ [last, body])
      | .endOfInput | .newline | .semicolon | .dollar =>
          failHere .expectedExpression
      | found => failHere (.expectedOperand found)
termination_by structural fuel

/-- Read `do` and the body of a loop. -/
def parseBody (fuel nesting : Nat) : Parse Marked :=
  match fuel with
  | 0 => failure
  | fuel + 1 => do
      skipContinuation
      let _ ← expect (.word .doWord)
      parseAt fuel nesting .expression
termination_by structural fuel

/-- Read the items of a bracket that is already open, up to and including its
closing token. -/
def parseItems (fuel nesting : Nat) (close : Lexeme) : Parse (List Marked) :=
  match fuel with
  | 0 => failure
  | fuel + 1 => do
      if ← eat close then return []
      else parseMore fuel nesting close
termination_by structural fuel

/-- Read at least one item, up to and including the closing token. -/
def parseMore (fuel nesting : Nat) (close : Lexeme) : Parse (List Marked) :=
  match fuel with
  | 0 => failure
  | fuel + 1 => do
      let item ← parseAt fuel nesting .expression
      if ← eat .comma then
        let items ← parseMore fuel nesting close
        return item :: items
      else if ← eat close then return [item]
      else
        match ← peekLexeme with
        | .endOfInput => failHere (.unclosed close)
        | found => failHere (.expectedSeparator close found)
termination_by structural fuel

/-- Read the tested branches of a conditional, after `if` or `elseif`. -/
def parseArms (fuel nesting : Nat) : Parse (List (Marked × Marked)) :=
  match fuel with
  | 0 => failure
  | fuel + 1 => do
      let test ← parseAt fuel nesting .expression
      skipContinuation
      let _ ← expect (.word .thenWord)
      let body ← parseAt fuel nesting .expression
      skipContinuation
      if ← eat (.word .elseifWord) then
        let arms ← parseArms fuel nesting
        return (test, body) :: arms
      else return [(test, body)]
termination_by structural fuel

end

end Parse

end SceneQuiz
