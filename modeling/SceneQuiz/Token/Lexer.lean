import SceneQuiz.Token.Fault
/-!
From text to tokens.

Blanks and comments are skipped.  A line break counts only outside brackets
and after a token that can end an operand, so an expression may go on after an
operator or inside brackets.  Faults are collected; after twenty the rest of
the text is given up.
-/

namespace SceneQuiz

/-- A place in a text, by line and column. -/
structure Place where
  line : Nat
  column : Nat
deriving DecidableEq, Repr

namespace Place

/-- The place after one character. -/
def next (place : Place) (c : Char) : Place :=
  if c = '\n' then ⟨place.line + 1, 1⟩ else ⟨place.line, place.column + 1⟩

/-- The place after several characters. -/
def after (place : Place) (cs : List Char) : Place := cs.foldl next place

/-- The span from here to the character before `stop`. -/
def spanTo (place stop : Place) : Span :=
  ⟨place.line, place.column, stop.line, max (stop.column - 1) 1⟩

def point (place : Place) : Span := Span.point place.line place.column

end Place

namespace Lexer

/-- A blank inside a line. -/
def isBlank (c : Char) : Bool := c == ' ' || c == '\t' || c == '\r'

/-- Digits at the front, and what follows them. -/
def spanDigits (cs : List Char) : List Char × List Char :=
  (cs.takeWhile Char.isDigit, cs.dropWhile Char.isDigit)

/-- A fraction at the front, if a digit follows the point. -/
def spanFraction : List Char → List Char × List Char
  | '.' :: c :: rest =>
      if c.isDigit then
        let digits := spanDigits (c :: rest)
        ('.' :: digits.1, digits.2)
      else ([], '.' :: c :: rest)
  | cs => ([], cs)

/-- Digits of an exponent after its mark and sign, if there are any. -/
def spanPower (lead : List Char) : List Char → List Char × List Char
  | c :: rest =>
      if c.isDigit then
        let digits := spanDigits (c :: rest)
        (lead ++ digits.1, digits.2)
      else ([], lead ++ c :: rest)
  | [] => ([], lead)

/-- An exponent at the front, if a digit follows its mark and sign. -/
def spanExponent : List Char → List Char × List Char
  | mark :: rest =>
      if mark = 'e' ∨ mark = 'E' then
        match rest with
        | '+' :: digits => spanPower [mark, '+'] digits
        | '-' :: digits => spanPower [mark, '-'] digits
        | digits => spanPower [mark] digits
      else ([], mark :: rest)
  | [] => ([], [])

/-- A number at the front: digits, an optional fraction, an optional exponent.
A number that starts with its point has no second one. -/
def spanNumber (first : Char) (rest : List Char) : List Char × List Char :=
  let whole := spanDigits rest
  let fraction := if first = '.' then ([], whole.2) else spanFraction whole.2
  let exponent := spanExponent fraction.2
  (first :: whole.1 ++ fraction.1 ++ exponent.1, exponent.2)

/-- A name at the front. -/
def spanName (cs : List Char) : List Char × List Char :=
  (cs.takeWhile continuesName, cs.dropWhile continuesName)

/-- The body of a string literal: its value, the characters it takes up with
its closing quote, and what follows.  The value comes with `false` if the quote
never comes.  Only the quote and the backslash are escaped; any other backslash
stands for itself. -/
def spanString : List Char → (List Char × Bool) × List Char × List Char
  | [] => (([], false), [], [])
  | '"' :: rest => (([], true), ['"'], rest)
  | '\\' :: '"' :: rest =>
      let tail := spanString rest
      (('"' :: tail.1.1, tail.1.2), '\\' :: '"' :: tail.2.1, tail.2.2)
  | '\\' :: '\\' :: rest =>
      let tail := spanString rest
      (('\\' :: tail.1.1, tail.1.2), '\\' :: '\\' :: tail.2.1, tail.2.2)
  | c :: rest =>
      let tail := spanString rest
      ((c :: tail.1.1, tail.1.2), c :: tail.2.1, tail.2.2)

/-- The body of a comment up to its end mark: whether the mark comes, the
characters passed, and what follows. -/
def spanComment : List Char → Bool × List Char × List Char
  | [] => (false, [], [])
  | '*' :: '/' :: rest => (true, ['*', '/'], rest)
  | c :: rest =>
      let tail := spanComment rest
      (tail.1, c :: tail.2.1, tail.2.2)

/-- The lexeme of a single character, apart from brackets. -/
def single? (c : Char) : Option Lexeme :=
  if c = '+' then some .plus
  else if c = '-' then some .minus
  else if c = '*' then some .star
  else if c = '/' then some .slash
  else if c = '^' then some .caret
  else if c = '.' then some .dot
  else if c = '=' then some .equal
  else if c = '#' then some .hash
  else if c = '<' then some .less
  else if c = '>' then some .greater
  else if c = ':' then some .colon
  else if c = '!' then some .bang
  else if c = Char.ofNat 39 then some .quote
  else if c = ',' then some .comma
  else if c = ';' then some .semicolon
  else if c = '$' then some .dollar
  else none

/-- The lexeme of two characters. -/
def double? (c d : Char) : Option Lexeme :=
  if c = '*' ∧ d = '*' then some .caret
  else if c = '<' ∧ d = '=' then some .lessEqual
  else if c = '>' ∧ d = '=' then some .greaterEqual
  else if c = ':' ∧ d = '=' then some .colonEqual
  else none

def opening? (c : Char) : Option Lexeme :=
  if c = '(' then some .leftParen
  else if c = '[' then some .leftBracket
  else if c = Char.ofNat 0x7b then some .leftBrace
  else none

def closing? (c : Char) : Option Lexeme :=
  if c = ')' then some .rightParen
  else if c = ']' then some .rightBracket
  else if c = Char.ofNat 0x7d then some .rightBrace
  else none

/-- One step of the scan: what it yields, the characters it takes up, the
characters left, and the bracket depth after it. -/
structure Step where
  lexeme : Option Lexeme
  fault : Option CodeFault
  taken : List Char
  rest : List Char
  depth : Nat
deriving Repr

/-- A step that yields a lexeme. -/
def Step.ok (lexeme : Lexeme) (taken rest : List Char) (depth : Nat) : Step :=
  ⟨some lexeme, none, taken, rest, depth⟩

/-- A step that skips what it takes up. -/
def Step.skip (taken rest : List Char) (depth : Nat) : Step :=
  ⟨none, none, taken, rest, depth⟩

/-- What a single character decides. -/
def scanSingle (depth : Nat) (c : Char) (rest : List Char) : Step :=
  match single? c, opening? c, closing? c with
  | some lexeme, _, _ => .ok lexeme [c] rest depth
  | none, some lexeme, _ => .ok lexeme [c] rest (depth + 1)
  | none, none, some lexeme => .ok lexeme [c] rest (depth - 1)
  | none, none, none => ⟨none, some (.invalidCharacter c), [c], rest, depth⟩

/-- Operators and brackets, the longer ones first. -/
def scanSymbol (depth : Nat) (c : Char) (rest : List Char) : Step :=
  match rest with
  | d :: tail =>
      match double? c d with
      | some lexeme => .ok lexeme [c, d] tail depth
      | none => scanSingle depth c rest
  | [] => scanSingle depth c rest

/-- Scan from a character that is no blank. -/
def scan (depth : Nat) (c : Char) (rest : List Char) : Step :=
  if c = '\n' then
    if 0 < depth then .skip [c] rest depth else .ok .newline [c] rest depth
  else if c = '"' then
    let body := spanString rest
    { lexeme := some (.str (String.ofList body.1.1))
      fault := if body.1.2 then none else some .unterminatedString
      taken := c :: body.2.1
      rest := body.2.2
      depth := depth }
  else if c.isDigit || (c == '.' && (rest.head?.map Char.isDigit).getD false) then
    let number := spanNumber c rest
    .ok (.number (String.ofList number.1)) number.1 number.2 depth
  else if startsName c then
    let name := spanName rest
    let text := String.ofList (c :: name.1)
    let lexeme := match Word.ofText? text with
      | some word => Lexeme.word word
      | none => Lexeme.ident text
    .ok lexeme (c :: name.1) name.2 depth
  else
    match c, rest with
    | '/', '*' :: tail =>
        let body := spanComment tail
        { lexeme := none
          fault := if body.1 then none else some .unterminatedComment
          taken := '/' :: '*' :: body.2.1
          rest := body.2.2
          depth := depth }
    | _, _ => scanSymbol depth c rest

/-- Tokens and issues of a text. -/
structure Result where
  /-- Always ends with the end of input. -/
  tokens : List Token
  issues : List CodeIssue
deriving Repr

def Result.addToken (result : Result) (token : Token) : Result :=
  { result with tokens := token :: result.tokens }

def Result.addIssue (result : Result) (issue : CodeIssue) : Result :=
  { result with issues := issue :: result.issues }

/-- Nothing but the end of input. -/
def Result.finish (place : Place) : Result :=
  ⟨[⟨.endOfInput, place.point⟩], []⟩

/-- Scan on.  `operand` says whether the last token can end an operand and
`budget` how many more faults are collected.  Every step takes up a character,
so `fuel` need not exceed the length of the text. -/
def run : (fuel : Nat) → (budget depth : Nat) → (operand : Bool) → Place →
    List Char → Result
  | 0, _, _, _, place, _ => .finish place
  | _ + 1, 0, _, _, place, _ => .finish place
  | _ + 1, _ + 1, _, _, place, [] => .finish place
  | fuel + 1, budget + 1, depth, operand, place, c :: cs =>
      if isBlank c then run fuel (budget + 1) depth operand (place.next c) cs
      else
        let step := scan depth c cs
        let stop := place.after step.taken
        let span := place.spanTo stop
        let budget := match step.fault with
          | some _ => budget
          | none => budget + 1
        let kept := match step.lexeme with
          | some .newline => if operand then some Lexeme.newline else none
          | lexeme => lexeme
        let operand := match kept with
          | some lexeme => lexeme.endsOperand
          | none => operand
        let result := run fuel budget step.depth operand stop step.rest
        let result := match kept with
          | some lexeme => result.addToken ⟨lexeme, span⟩
          | none => result
        match step.fault with
        | some fault => result.addIssue ⟨fault, span⟩
        | none => result

end Lexer

/-- The tokens of a text and the issues found in it. -/
def lex (source : String) : Lexer.Result :=
  let cs := source.toList
  Lexer.run (cs.length + 1) Log.errorLimit 0 false ⟨1, 1⟩ cs

end SceneQuiz
