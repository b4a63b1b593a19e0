import SceneQuiz.Decimal.Digits
import SceneQuiz.Json.Basic
/-!
Reading JSON text.  The grammar is the strict one: no leading zeros, no
control characters inside strings, and nothing after the value but blanks.  A
numeric escape may be half of a surrogate pair; the string it stands in is then
well formed and spells no text.
-/

namespace SceneQuiz

namespace Json

def isBlank (c : Char) : Bool :=
  c == ' ' || c == '\n' || c == '\t' || c == '\r'

def skipBlanks (cs : List Char) : List Char := cs.dropWhile isBlank

/-- The value of a hexadecimal digit. -/
def hexValue? (c : Char) : Option Nat :=
  if c.isDigit then some (c.toNat - '0'.toNat)
  else if 'a' ≤ c ∧ c ≤ 'f' then some (c.toNat - 'a'.toNat + 10)
  else if 'A' ≤ c ∧ c ≤ 'F' then some (c.toNat - 'A'.toNat + 10)
  else none

/-- The value of four hexadecimal digits. -/
def hexFour? (a b c d : Char) : Option Nat := do
  let a ← hexValue? a
  let b ← hexValue? b
  let c ← hexValue? c
  let d ← hexValue? d
  return a * 4096 + b * 256 + c * 16 + d

/-- The character of an escape with one letter. -/
def simpleEscape? (c : Char) : Option Char :=
  if c = '"' ∨ c = '\\' ∨ c = '/' then some c
  else if c = 'b' then some (Char.ofNat 8)
  else if c = 'f' then some (Char.ofNat 12)
  else if c = 'n' then some '\n'
  else if c = 'r' then some '\r'
  else if c = 't' then some '\t'
  else none

/-- A character, if there is one, and what follows it. -/
abbrev Piece := Option Char × List Char

/-- The low surrogate of an escape at the front, and what follows it. -/
def readLow? : List Char → Option (Nat × List Char)
  | '\\' :: 'u' :: a :: b :: c :: d :: rest => do
      let unit ← hexFour? a b c d
      if 0xdc00 ≤ unit ∧ unit ≤ 0xdfff then return (unit, rest) else none
  | _ => none

/-- The character of a numeric escape.  A high surrogate makes one with the low
one right after it; any other surrogate is no character. -/
def readUnicode? : List Char → Option Piece
  | a :: b :: c :: d :: rest => do
      let unit ← hexFour? a b c d
      if unit < 0xd800 ∨ 0xdfff < unit then return (some (Char.ofNat unit), rest)
      else if 0xdc00 ≤ unit then return (none, rest)
      else
        match readLow? rest with
        | some (low, rest) =>
            let code := 0x10000 + (unit - 0xd800) * 1024 + (low - 0xdc00)
            return (some (Char.ofNat code), rest)
        | none => return (none, rest)
  | _ => none

/-- One character of a string, resolved. -/
def readPiece? : List Char → Option Piece
  | '\\' :: 'u' :: rest => readUnicode? rest
  | '\\' :: c :: rest => (simpleEscape? c).map fun c => (some c, rest)
  | c :: rest => if c = '\\' ∨ c.toNat < 0x20 then none else some (some c, rest)
  | [] => none

/-- The text of a string after its opening quote, if it spells one, and what
follows its closing quote. -/
def readString : (fuel : Nat) → List Char → Option (Option (List Char) × List Char)
  | 0, _ => none
  | fuel + 1, cs =>
      match cs with
      | '"' :: rest => some (some [], rest)
      | cs => do
          let piece ← readPiece? cs
          let tail ← readString fuel piece.2
          return (do return (← piece.1) :: (← tail.1), tail.2)

/-- The value of a string. -/
def ofSpelled : Option (List Char) → Json
  | some text => .str (String.ofList text)
  | none => .garbled

/-- The value of an object whose member names all spell a text. -/
def ofMembers : Option (List (String × Json)) → Json
  | some members => .obj members
  | none => .garbled

/-- Digits at the front, at least one. -/
def readDigitRun? (cs : List Char) : Option (List Char × List Char) :=
  let digits := cs.takeWhile Char.isDigit
  if digits.isEmpty then none else some (digits, cs.dropWhile Char.isDigit)

/-- The whole part of a number: no zero before other digits. -/
def readWhole? (cs : List Char) : Option (List Char × List Char) := do
  let digits ← readDigitRun? cs
  if digits.1.head? = some '0' ∧ 1 < digits.1.length then none else return digits

/-- An optional fraction. -/
def readFraction? : List Char → Option (List Char × List Char)
  | '.' :: rest => (readDigitRun? rest).map fun digits =>
      ('.' :: digits.1, digits.2)
  | cs => some ([], cs)

/-- An optional exponent. -/
def readPower? : List Char → Option (List Char × List Char)
  | c :: rest =>
      if c = 'e' ∨ c = 'E' then
        match rest with
        | '+' :: rest => (readDigitRun? rest).map fun digits =>
            (c :: '+' :: digits.1, digits.2)
        | '-' :: rest => (readDigitRun? rest).map fun digits =>
            (c :: '-' :: digits.1, digits.2)
        | rest => (readDigitRun? rest).map fun digits =>
            (c :: digits.1, digits.2)
      else some ([], c :: rest)
  | [] => some ([], [])

/-- A number without its sign. -/
def readMagnitude? (cs : List Char) : Option (List Char × List Char) := do
  let whole ← readWhole? cs
  let fraction ← readFraction? whole.2
  let power ← readPower? fraction.2
  return (whole.1 ++ fraction.1 ++ power.1, power.2)

/-- A number. -/
def readNumber? : List Char → Option (List Char × List Char)
  | '-' :: rest => (readMagnitude? rest).map fun number =>
      ('-' :: number.1, number.2)
  | cs => readMagnitude? cs

/-- What follows a given word at the front. -/
def readWord? : (word : List Char) → List Char → Option (List Char)
  | [], cs => some cs
  | _ :: _, [] => none
  | w :: word, c :: cs => if w = c then readWord? word cs else none

mutual

/-- A value at the front, blanks before it allowed. -/
def readValue (fuel : Nat) (cs : List Char) : Option (Json × List Char) :=
  match fuel with
  | 0 => none
  | fuel + 1 =>
      match skipBlanks cs with
      | [] => none
      | c :: rest =>
          if c = '"' then
            (readString (rest.length + 1) rest).map fun text =>
              (ofSpelled text.1, text.2)
          else if c = '[' then
            match skipBlanks rest with
            | ']' :: rest => some (.arr [], rest)
            | rest => (readItems fuel rest).map fun items =>
                (.arr items.1, items.2)
          else if c = Char.ofNat 0x7b then
            match skipBlanks rest with
            | [] => none
            | d :: rest =>
                if d = Char.ofNat 0x7d then some (.obj [], rest)
                else (readMembers fuel (d :: rest)).map fun members =>
                  (ofMembers members.1, members.2)
          else if c = 'n' then
            (readWord? "ull".toList rest).map fun rest => (.null, rest)
          else if c = 't' then
            (readWord? "rue".toList rest).map fun rest => (.bool true, rest)
          else if c = 'f' then
            (readWord? "alse".toList rest).map fun rest => (.bool false, rest)
          else (readNumber? (c :: rest)).map fun number =>
            (.number (String.ofList number.1), number.2)
termination_by structural fuel

/-- The items of an array, at least one, with its closing bracket. -/
def readItems (fuel : Nat) (cs : List Char) :
    Option (List Json × List Char) :=
  match fuel with
  | 0 => none
  | fuel + 1 =>
      match readValue fuel cs with
      | none => none
      | some (item, rest) =>
          match skipBlanks rest with
          | ',' :: rest => (readItems fuel rest).map fun items =>
              (item :: items.1, items.2)
          | ']' :: rest => some ([item], rest)
          | _ => none
termination_by structural fuel

/-- The members of an object, at least one, with its closing brace, if their
names all spell a text. -/
def readMembers (fuel : Nat) (cs : List Char) :
    Option (Option (List (String × Json)) × List Char) :=
  match fuel with
  | 0 => none
  | fuel + 1 =>
      match skipBlanks cs with
      | '"' :: rest =>
          match readString (rest.length + 1) rest with
          | none => none
          | some (name, rest) =>
              match skipBlanks rest with
              | ':' :: rest =>
                  match readValue fuel rest with
                  | none => none
                  | some (value, rest) =>
                      let entry := name.map fun name => (String.ofList name, value)
                      match skipBlanks rest with
                      | ',' :: rest => (readMembers fuel rest).map fun members =>
                          (do return (← entry) :: (← members.1), members.2)
                      | c :: rest =>
                          if c = Char.ofNat 0x7d then
                            some (entry.map fun entry => [entry], rest)
                          else none
                      | [] => none
              | _ => none
      | _ => none
termination_by structural fuel

end

/-- Read a text that is one JSON value. -/
def read? (text : String) : Option Json :=
  let cs := text.toList
  match readValue (cs.length + 1) cs with
  | some (value, rest) => if (skipBlanks rest).isEmpty then some value else none
  | none => none

end Json

end SceneQuiz
