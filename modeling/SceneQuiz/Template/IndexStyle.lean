/-!
Numbering styles: how the counter of an `indexing` block is written.
-/

namespace SceneQuiz

/-- How an index is labelled. -/
inductive IndexStyle where
  | plain
  /-- Zeros in front up to a width. -/
  | padded (width : Nat)
  | dotted
  | romanUpper
  | romanLower
  /-- No visible label. -/
  | blank
  /-- A question mark for every index. -/
  | unknown
deriving DecidableEq, Repr

namespace IndexStyle

/-- The style a pattern shows by its label of one. -/
def ofPattern? (pattern : String) : Option IndexStyle :=
  if pattern = "1" then some .plain
  else if pattern = "1." then some .dotted
  else if pattern = "I" then some .romanUpper
  else if pattern = "i" then some .romanLower
  else if pattern = "" then some .blank
  else if pattern = "?" then some .unknown
  else
    let zeros := pattern.toList.takeWhile (· == '0')
    if pattern.toList = zeros ++ ['1'] then some (.padded pattern.length)
    else none

/-- The pattern of a style. -/
def pattern : IndexStyle → String
  | .plain => "1"
  | .padded width => String.ofList (List.replicate (width - 1) '0' ++ ['1'])
  | .dotted => "1."
  | .romanUpper => "I"
  | .romanLower => "i"
  | .blank => ""
  | .unknown => "?"

/-- Values with a Roman numeral of their own, the largest first. -/
def romanValues : List (Nat × String) :=
  [(1000, "M"), (900, "CM"), (500, "D"), (400, "CD"), (100, "C"), (90, "XC"),
    (50, "L"), (40, "XL"), (10, "X"), (9, "IX"), (5, "V"), (4, "IV"), (1, "I")]

/-- A number in Roman numerals, taking the largest values first. -/
def romanDigits (n : Nat) : List (Nat × String) → String
  | [] => ""
  | (value, symbol) :: rest =>
      String.join (List.replicate (n / value) symbol) ++
        romanDigits (n % value) rest

/-- A Roman numeral; outside 1 to 3999 there is none, and digits are used. -/
def roman (n : Int) : String :=
  if 1 ≤ n ∧ n ≤ 3999 then romanDigits n.toNat romanValues else toString n

/-- Digits with zeros in front up to a width. -/
def padTo (width n : Nat) : String :=
  let digits := Nat.toDigits 10 n
  String.ofList (List.replicate (width - digits.length) '0' ++ digits)

/-- The label of an index. -/
def label (style : IndexStyle) (n : Int) : String :=
  match style with
  | .plain => toString n
  | .padded width =>
      if n < 0 then "-" ++ padTo (width - 1) n.natAbs else padTo width n.toNat
  | .dotted => toString n ++ "."
  | .romanUpper => roman n
  | .romanLower => (roman n).toLower
  | .blank => ""
  | .unknown => "?"

end IndexStyle

end SceneQuiz
