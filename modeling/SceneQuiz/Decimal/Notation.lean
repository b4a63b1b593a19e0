import SceneQuiz.Decimal.Digits
import SceneQuiz.Decimal.Double
import SceneQuiz.Decimal.Shortest
/-!
Doubles as text.  Positional text never uses an exponent and writes no
fraction for whole numbers; scientific text is used where a document stores a
weight.  Reading accepts digits with an optional point and exponent, and the
words for infinity and for no number.
-/

namespace SceneQuiz.Decimal

/-- A run of zeros. -/
def zeros (count : Nat) : String := String.ofList (List.replicate count '0')

/-- Digits with the point at its place and no exponent. -/
def Digits.positional (d : Digits) : String :=
  let text := Nat.toDigits 10 d.digits
  if 0 ≤ d.exponent then String.ofList text ++ zeros d.exponent.toNat
  else
    let places := (-d.exponent).toNat
    if places < text.length then
      String.ofList (text.take (text.length - places)) ++ "." ++
        String.ofList (text.drop (text.length - places))
    else "0." ++ zeros (places - text.length) ++ String.ofList text

/-- Digits with a point when the number is neither large nor small, and an
exponent with its sign otherwise. -/
def Digits.scientific (d : Digits) : String :=
  let text := Nat.toDigits 10 d.digits
  let point : Int := text.length + d.exponent
  if 0 ≤ d.exponent ∧ point ≤ 16 then
    String.ofList text ++ zeros d.exponent.toNat ++ ".0"
  else if 0 < point ∧ point ≤ 16 then d.positional
  else if -5 < point ∧ point ≤ 0 then d.positional
  else
    let sign := if 0 < point then "+" else ""
    let power := "e" ++ sign ++ toString (point - 1)
    match text with
    | [] => power
    | [digit] => String.ofList [digit] ++ power
    | digit :: rest => String.ofList [digit] ++ "." ++ String.ofList rest ++ power

/-- A sign before a text. -/
def signed (negative : Bool) (text : String) : String :=
  if negative then "-" ++ text else text

/-- The shortest text of a double that reads back, without an exponent. -/
def positionalText (x : Float) : String :=
  match partsOf x with
  | .nan => "NaN"
  | .infinite negative => signed negative "inf"
  | .finite negative 0 _ => signed negative "0"
  | .finite negative significand exponent =>
      signed negative (shortest .up significand exponent).positional

/-- The text of a double in a stored document, with an exponent where the
number is large or small. -/
def storedText (x : Float) : String :=
  match partsOf x with
  | .nan => "null"
  | .infinite _ => "null"
  | .finite negative 0 _ => signed negative "0.0"
  | .finite negative significand exponent =>
      signed negative (shortest .even significand exponent).scientific

/-- The double nearest to `digits * 10 ^ exponent`. -/
def ofDecimal (negative : Bool) (digits : Nat) (exponent : Int) : Float :=
  let size : Int := digitCount digits + exponent
  if digits = 0 then ofFraction negative 0 1
  else if 310 < size then
    Float.ofBits (0x7ff * twoPow 52 + if negative then twoPow 63 else 0 : Nat).toUInt64
  else if size < -330 then ofFraction negative 0 1
  else if 0 ≤ exponent then ofFraction negative (digits * tenPow exponent.toNat) 1
  else ofFraction negative digits (tenPow (-exponent).toNat)

/-- An optional exponent at the end of a number; nothing else may follow. -/
def readExponent? : List Char → Option Int
  | [] => some 0
  | c :: rest =>
      if c = 'e' ∨ c = 'E' then readInt? (String.ofList rest) else none

/-- Digits with an optional point and exponent. -/
def readUnsignedDouble? (negative : Bool) (cs : List Char) : Option Float :=
  let whole := cs.takeWhile Char.isDigit
  let afterWhole := cs.dropWhile Char.isDigit
  let fraction := match afterWhole with
    | '.' :: rest => rest.takeWhile Char.isDigit
    | _ => []
  let afterFraction := match afterWhole with
    | '.' :: rest => rest.dropWhile Char.isDigit
    | rest => rest
  match readDigits? (whole ++ fraction), readExponent? afterFraction with
  | some digits, some exponent =>
      some (ofDecimal negative digits (exponent - fraction.length))
  | _, _ => none

/-- Reads a double after its sign. -/
def readMagnitude? (negative : Bool) (cs : List Char) : Option Float :=
  let word := String.ofList (cs.map Char.toLower)
  if word = "inf" ∨ word = "infinity" then
    some (if negative then -1.0 / 0.0 else 1.0 / 0.0)
  else if word = "nan" then some (0.0 / 0.0)
  else readUnsignedDouble? negative cs

/-- Reads a double. -/
def readDouble? (text : String) : Option Float :=
  match text.toList with
  | '-' :: rest => readMagnitude? true rest
  | '+' :: rest => readMagnitude? false rest
  | rest => readMagnitude? false rest

/-- A number as a literal of the expression language: zero has no sign. -/
def literalText (x : Float) : String :=
  if x == 0.0 then "0" else positionalText x

end SceneQuiz.Decimal
