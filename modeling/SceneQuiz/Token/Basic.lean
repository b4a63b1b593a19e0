import SceneQuiz.Source
/-!
Tokens of the algebra language.
-/

namespace SceneQuiz

/-- Reserved words. -/
inductive Word where
  | ifWord
  | thenWord
  | elseifWord
  | elseWord
  | forWord
  | inWord
  | doWord
  | thruWord
  | stepWord
  | andWord
  | orWord
  | notWord
  | trueWord
  | falseWord
deriving DecidableEq, Repr

namespace Word

/-- Every reserved word. -/
def all : List Word :=
  [.ifWord, .thenWord, .elseifWord, .elseWord, .forWord, .inWord, .doWord,
    .thruWord, .stepWord, .andWord, .orWord, .notWord, .trueWord, .falseWord]

def text : Word → String
  | .ifWord => "if"
  | .thenWord => "then"
  | .elseifWord => "elseif"
  | .elseWord => "else"
  | .forWord => "for"
  | .inWord => "in"
  | .doWord => "do"
  | .thruWord => "thru"
  | .stepWord => "step"
  | .andWord => "and"
  | .orWord => "or"
  | .notWord => "not"
  | .trueWord => "true"
  | .falseWord => "false"

/-- The reserved word with a given spelling. -/
def ofText? (text : String) : Option Word :=
  all.find? fun word => word.text == text

/-- Words that continue a construct begun on an earlier line. -/
def continues : Word → Bool
  | .thenWord | .elseifWord | .elseWord | .doWord | .inWord | .thruWord
  | .stepWord => true
  | _ => false

end Word

/-- What a token stands for. -/
inductive Lexeme where
  /-- A numeric literal, as written. -/
  | number (text : String)
  /-- A string literal, escapes resolved. -/
  | str (text : String)
  | ident (name : String)
  | word (w : Word)
  | plus
  | minus
  | star
  | slash
  | caret
  | dot
  | equal
  | hash
  | less
  | greater
  | lessEqual
  | greaterEqual
  | colon
  | colonEqual
  | bang
  | quote
  | leftParen
  | rightParen
  | leftBracket
  | rightBracket
  | leftBrace
  | rightBrace
  | comma
  | semicolon
  | dollar
  /-- A line break outside brackets, after a complete operand. -/
  | newline
  | endOfInput
deriving DecidableEq, Repr, Inhabited

namespace Lexeme

def isKeyword : Lexeme → Bool
  | .word _ => true
  | _ => false

/-- The token can end an operand, so that a line break after it ends the
statement. -/
def endsOperand : Lexeme → Bool
  | .number _ | .str _ | .ident _ | .word .trueWord | .word .falseWord
  | .rightParen | .rightBracket | .rightBrace | .bang => true
  | _ => false

/-- The token continues a construct begun on an earlier line. -/
def continuesStatement : Lexeme → Bool
  | .word w => w.continues
  | _ => false

/-- The token ends a statement. -/
def isTerminator : Lexeme → Bool
  | .semicolon | .dollar | .newline | .endOfInput => true
  | _ => false

/-- How messages show a token. -/
def text : Lexeme → String
  | .number text => text
  | .str text => "\"" ++ text ++ "\""
  | .ident name => name
  | .word w => w.text
  | .plus => "+"
  | .minus => "-"
  | .star => "*"
  | .slash => "/"
  | .caret => "^"
  | .dot => "."
  | .equal => "="
  | .hash => "#"
  | .less => "<"
  | .greater => ">"
  | .lessEqual => "<="
  | .greaterEqual => ">="
  | .colon => ":"
  | .colonEqual => ":="
  | .bang => "!"
  | .quote => "'"
  | .leftParen => "("
  | .rightParen => ")"
  | .leftBracket => "["
  | .rightBracket => "]"
  | .leftBrace => "\x7b"
  | .rightBrace => "\x7d"
  | .comma => ","
  | .semicolon => ";"
  | .dollar => "$"
  | .newline => "newline"
  | .endOfInput => "end of input"

end Lexeme

/-- A lexeme and where it stands. -/
structure Token where
  lexeme : Lexeme
  span : Span
deriving DecidableEq, Repr, Inhabited

/-- Letters, the underscore and the percent sign start a name. -/
def startsName (c : Char) : Bool := c.isAlpha || c == '_' || c == '%'

/-- Names go on with digits as well. -/
def continuesName (c : Char) : Bool := startsName c || c.isDigit

/-- A name of the algebra language: not empty, of the right characters, and no
reserved word. -/
def isName (name : String) : Bool :=
  match name.toList with
  | [] => false
  | first :: rest =>
      startsName first && rest.all continuesName && (Word.ofText? name).isNone

end SceneQuiz
