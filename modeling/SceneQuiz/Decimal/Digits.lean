/-!
Whole numbers in decimal digits, and the range of signed 64-bit integers.
-/

namespace SceneQuiz.Decimal

/-- The power of two with the given exponent. -/
def twoPow (exponent : Nat) : Nat := Nat.pow 2 exponent

/-- The power of ten with the given exponent. -/
def tenPow (exponent : Nat) : Nat := Nat.pow 10 exponent

/-- The value of a digit list in base ten, or nothing if a character is not a
digit. -/
def digitsValue? (digits : List Char) : Option Nat :=
  digits.foldl (fun value c =>
    value.bind fun n =>
      if c.isDigit then some (n * 10 + (c.toNat - '0'.toNat)) else none)
    (some 0)

/-- Digits, at least one. -/
def readDigits? (digits : List Char) : Option Nat :=
  if digits.isEmpty then none else digitsValue? digits

/-- Digits after an optional plus sign. -/
def readNat? (text : String) : Option Nat :=
  match text.toList with
  | '+' :: digits => readDigits? digits
  | digits => readDigits? digits

/-- Digits after an optional sign. -/
def readInt? (text : String) : Option Int :=
  match text.toList with
  | '-' :: digits => (readDigits? digits).map fun n => -(n : Int)
  | '+' :: digits => (readDigits? digits).map fun n => (n : Int)
  | digits => (readDigits? digits).map fun n => (n : Int)

/-- The number of decimal digits of a number; zero has one. -/
def digitCount (n : Nat) : Nat := (Nat.toDigits 10 n).length

/-- A value a signed 64-bit integer can hold. -/
def fitsWord (n : Int) : Bool :=
  -0x8000000000000000 ≤ n && n < 0x8000000000000000

/-- The number itself if a signed 64-bit integer can hold it. -/
def asWord? (n : Int) : Option Int := if fitsWord n then some n else none

/-- Reads a signed 64-bit integer. -/
def readWord? (text : String) : Option Int := (readInt? text).bind asWord?

/-- Reads an unsigned 64-bit integer. -/
def readUnsigned? (text : String) : Option Nat :=
  (readNat? text).filter (· < twoPow 64)

theorem fitsWord_iff {n : Int} :
    fitsWord n = true ↔ -0x8000000000000000 ≤ n ∧ n < 0x8000000000000000 := by
  simp [fitsWord]

end SceneQuiz.Decimal
