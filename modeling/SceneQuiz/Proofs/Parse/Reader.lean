import SceneQuiz.Parse.Fragment
/-!
Reading without spans.  The reader takes lexemes to an expression and the
lexemes left over, and fails where the parser reports a fault.
-/

namespace SceneQuiz.Parse

/-- The lexeme ahead; past the last one it stays the end of input. -/
def ahead (ls : List Lexeme) : Lexeme := ls.headD .endOfInput

@[simp]
theorem ahead_cons (l : Lexeme) (ls : List Lexeme) : ahead (l :: ls) = l := rfl

/-- What is left after a line break before a word that continues a
construct. -/
def passContinuation (ls : List Lexeme) : List Lexeme :=
  if ahead ls = .newline ∧ (ahead ls.tail).continuesStatement then ls.tail
  else ls

/-- What is left after a lexeme that has to be ahead. -/
def pass? (wanted : Lexeme) (ls : List Lexeme) : Option (List Lexeme) :=
  if ahead ls = wanted then some ls.tail else none

/-- A name that has to be ahead, and what is left after it. -/
def passName? (ls : List Lexeme) : Option (String × List Lexeme) :=
  match ahead ls with
  | .ident name => some (name, ls.tail)
  | _ => none

/-- What parentheses around items stand for. -/
def regroup : List Expr → Expr
  | [item] => item
  | items => .group items

mutual

/-- An expression of a level at the front. -/
def readAt (fuel nesting : Nat) (level : Level) (ls : List Lexeme) :
    Option (Expr × List Lexeme) :=
  match fuel with
  | 0 => none
  | fuel + 1 =>
      match level with
      | .expression =>
          if nestingLimit ≤ nesting then none
          else readAt fuel (nesting + 1) .assignment ls
      | .assignment => do
          let left ← readAt fuel nesting .disjunction ls
          match assignment? (ahead left.2) with
          | none => some left
          | some op =>
              let right ← readAt fuel nesting .assignment left.2.tail
              some (.binary op left.1 right.1, right.2)
      | .negation =>
          if ahead ls = .word .notWord then do
            let operand ← readAt fuel nesting .negation ls.tail
            some (.not operand.1, operand.2)
          else readAt fuel nesting .comparison ls
      | .comparison => do
          let left ← readAt fuel nesting .sum ls
          match comparison? (ahead left.2) with
          | none => some left
          | some op =>
              let right ← readAt fuel nesting .sum left.2.tail
              if (comparison? (ahead right.2)).isSome then none
              else some (.binary op left.1 right.1, right.2)
      | .sign =>
          match ahead ls with
          | .minus => do
              let operand ← readAt fuel nesting .sign ls.tail
              some (.neg operand.1, operand.2)
          | .plus => readAt fuel nesting .sign ls.tail
          | _ => readAt fuel nesting .power ls
      | .power => do
          let base ← readAt fuel nesting .quotation ls
          if ahead base.2 = .caret then
            let exponent ← readAt fuel nesting .sign base.2.tail
            some (.binary .pow base.1 exponent.1, exponent.2)
          else some base
      | .quotation =>
          if ahead ls = .quote then do
            let operand ← readAt fuel nesting .quotation ls.tail
            some (.quote operand.1, operand.2)
          else readAt fuel nesting .suffix ls
      | .suffix => do
          let target ← readAt fuel nesting .operand ls
          readSuffix fuel nesting target.1 target.2
      | .operand => readOperand fuel nesting ls
      | level => do
          let left ← readAt fuel nesting level.tighter ls
          readTail fuel nesting level left.1 left.2
termination_by structural fuel

/-- The operators of a left-associative level after `left`. -/
def readTail (fuel nesting : Nat) (level : Level) (left : Expr)
    (ls : List Lexeme) : Option (Expr × List Lexeme) :=
  match fuel with
  | 0 => none
  | fuel + 1 =>
      match level.operator? (ahead ls) with
      | none => some (left, ls)
      | some op => do
          let right ← readAt fuel nesting level.tighter ls.tail
          readTail fuel nesting level (.binary op left right.1) right.2
termination_by structural fuel

/-- Calls, indices and factorials after `target`. -/
def readSuffix (fuel nesting : Nat) (target : Expr) (ls : List Lexeme) :
    Option (Expr × List Lexeme) :=
  match fuel with
  | 0 => none
  | fuel + 1 =>
      match ahead ls with
      | .leftParen =>
          match target with
          | .ident name => do
              let args ← readItems fuel nesting .rightParen ls.tail
              readSuffix fuel nesting (.call name args.1) args.2
          | _ => some (target, ls)
      | .leftBracket => do
          let indices ← readItems fuel nesting .rightBracket ls.tail
          if indices.1.isEmpty then none
          else readSuffix fuel nesting (.index target indices.1) indices.2
      | .bang => readSuffix fuel nesting (.factorial target) ls.tail
      | _ => some (target, ls)
termination_by structural fuel

/-- A literal, a name, a bracketed list, a conditional or a loop. -/
def readOperand (fuel nesting : Nat) (ls : List Lexeme) :
    Option (Expr × List Lexeme) :=
  match fuel with
  | 0 => none
  | fuel + 1 =>
      match ahead ls with
      | .number text => some (.number text, ls.tail)
      | .str text => some (.str text, ls.tail)
      | .word .trueWord => some (.bool true, ls.tail)
      | .word .falseWord => some (.bool false, ls.tail)
      | .ident name => some (.ident name, ls.tail)
      | .leftParen => do
          let items ← readItems fuel nesting .rightParen ls.tail
          if items.1.isEmpty then none else some (regroup items.1, items.2)
      | .leftBracket => do
          let items ← readItems fuel nesting .rightBracket ls.tail
          some (.list items.1, items.2)
      | .leftBrace => do
          let items ← readItems fuel nesting .rightBrace ls.tail
          some (.set items.1, items.2)
      | .word .ifWord => do
          let arms ← readArms fuel nesting ls.tail
          if ahead arms.2 = .word .elseWord then
            let otherwise ← readAt fuel nesting .expression arms.2.tail
            some (.cond arms.1 (some otherwise.1), otherwise.2)
          else some (.cond arms.1 none, arms.2)
      | .word .forWord => do
          let var ← passName? ls.tail
          if ahead var.2 = .word .inWord then
            let source ← readAt fuel nesting .disjunction var.2.tail
            let body ← readBody fuel nesting source.2
            some (.forIn var.1 source.1 body.1, body.2)
          else
            let colon ← pass? .colon var.2
            let first ← readAt fuel nesting .disjunction colon
            let step ←
              if ahead (passContinuation first.2) = .word .stepWord then
                (readAt fuel nesting .disjunction
                  (passContinuation first.2).tail).map
                    fun step => (some step.1, step.2)
              else some (none, passContinuation first.2)
            let thru ← pass? (.word .thruWord) (passContinuation step.2)
            let last ← readAt fuel nesting .disjunction thru
            let body ← readBody fuel nesting last.2
            some (.forRange var.1 first.1 step.1 last.1 body.1, body.2)
      | _ => none
termination_by structural fuel

/-- `do` and the body of a loop. -/
def readBody (fuel nesting : Nat) (ls : List Lexeme) :
    Option (Expr × List Lexeme) :=
  match fuel with
  | 0 => none
  | fuel + 1 => do
      let body ← pass? (.word .doWord) (passContinuation ls)
      readAt fuel nesting .expression body
termination_by structural fuel

/-- The items of an open bracket, up to and including its closing lexeme. -/
def readItems (fuel nesting : Nat) (close : Lexeme) (ls : List Lexeme) :
    Option (List Expr × List Lexeme) :=
  match fuel with
  | 0 => none
  | fuel + 1 =>
      if ahead ls = close then some ([], ls.tail)
      else readMore fuel nesting close ls
termination_by structural fuel

/-- At least one item, up to and including the closing lexeme. -/
def readMore (fuel nesting : Nat) (close : Lexeme) (ls : List Lexeme) :
    Option (List Expr × List Lexeme) :=
  match fuel with
  | 0 => none
  | fuel + 1 => do
      let item ← readAt fuel nesting .expression ls
      if ahead item.2 = .comma then
        let items ← readMore fuel nesting close item.2.tail
        some (item.1 :: items.1, items.2)
      else
        let rest ← pass? close item.2
        some ([item.1], rest)
termination_by structural fuel

/-- The tested branches of a conditional, after `if` or `elseif`. -/
def readArms (fuel nesting : Nat) (ls : List Lexeme) :
    Option (List (Expr × Expr) × List Lexeme) :=
  match fuel with
  | 0 => none
  | fuel + 1 => do
      let test ← readAt fuel nesting .expression ls
      let after ← pass? (.word .thenWord) (passContinuation test.2)
      let body ← readAt fuel nesting .expression after
      let rest := passContinuation body.2
      if ahead rest = .word .elseifWord then
        let arms ← readArms fuel nesting rest.tail
        some ((test.1, body.1) :: arms.1, arms.2)
      else some ([(test.1, body.1)], rest)
termination_by structural fuel

end

/-- The levels whose operators group to the left. -/
def Level.isLeft : Level → Bool
  | .disjunction | .conjunction | .sum | .product => true
  | _ => false

theorem readAt_left {level : Level} (hlevel : level.isLeft = true)
    (fuel nesting : Nat) (ls : List Lexeme) :
    readAt (fuel + 1) nesting level ls = (do
      let left ← readAt fuel nesting level.tighter ls
      readTail fuel nesting level left.1 left.2) := by
  cases level with
  | disjunction | conjunction | sum | product => rfl
  | _ => exact absurd hlevel (by decide)

/-- What is left after the line breaks at the front. -/
def passNewlines (ls : List Lexeme) : List Lexeme :=
  ls.dropWhile fun l => l == .newline

/-- The expression that a whole text holds; only the end of input is left. -/
def readWhole (ls : List Lexeme) : Option (Expr × List Lexeme) :=
  if ahead (passNewlines ls) = .endOfInput then none
  else do
    let found ← readAt (16 * ((passNewlines ls).length + 2)) 0 .expression
      (passNewlines ls)
    if ahead (passNewlines found.2) = .endOfInput then
      some (found.1, passNewlines found.2)
    else none

/-- A flag at the front. -/
def readFlag (ls : List Lexeme) : Option (Flag × List Lexeme) := do
  let name ← passName? ls
  if ahead name.2 = .equal then
    let value ← readAt (16 * (name.2.tail.length + 2)) 0 .sum name.2.tail
    some (⟨name.1, some value.1⟩, value.2)
  else some (⟨name.1, none⟩, name.2)

/-- The flags at the front, each after a comma. -/
def readFlags (fuel : Nat) (ls : List Lexeme) :
    Option (List Flag × List Lexeme) :=
  match fuel with
  | 0 => some ([], ls)
  | fuel + 1 =>
      if ahead ls = .comma then do
        let flag ← readFlag ls.tail
        let flags ← readFlags fuel flag.2
        some (flag.1 :: flags.1, flags.2)
      else some ([], ls)

/-- A statement at the front, with its flags. -/
def readStatement (ls : List Lexeme) : Option (Statement × List Lexeme) := do
  let expr ← readAt (16 * (ls.length + 2)) 0 .expression ls
  let flags ← readFlags expr.2.length expr.2
  some (⟨expr.1, flags.1⟩, flags.2)

end SceneQuiz.Parse
