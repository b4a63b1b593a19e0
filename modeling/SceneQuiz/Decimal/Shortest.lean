import SceneQuiz.Decimal.Digits
/-!
The fewest decimal digits that read back to a given double.

A positive double stands for every real that rounds to it, an interval whose
ends belong to it when its significand is even.  For one digit, two digits and
so on, the value's two neighbours on that decimal grid are tried; the first
grid with a neighbour inside the interval wins, and of two such neighbours the
nearer one.
-/

namespace SceneQuiz.Decimal

/-- Which neighbour an exact tie goes to. -/
inductive Tie where
  | up
  | even
deriving DecidableEq, Repr

/-- A number `digits * 10 ^ exponent`. -/
structure Digits where
  digits : Nat
  exponent : Int
deriving DecidableEq, Repr

/-- A value and the interval that rounds to it, over a common denominator. -/
structure Interval where
  low : Nat
  value : Nat
  high : Nat
  den : Nat
  closed : Bool
deriving DecidableEq, Repr

/-- The interval of `significand * 2 ^ exponent`.  Below a power of two the
doubles lie twice as close. -/
def Interval.ofBinary (significand : Nat) (exponent : Int) : Interval :=
  let gap := if significand = twoPow 52 ∧ -1074 < exponent then 1 else 2
  let scale := twoPow (exponent - 2).toNat
  { low := (4 * significand - gap) * scale
    value := 4 * significand * scale
    high := (4 * significand + 2) * scale
    den := twoPow (2 - exponent).toNat
    closed := significand % 2 = 0 }

/-- The place of the first digit: the largest `e` with `10 ^ e` at most the
value. -/
def Interval.magnitude (interval : Interval) : Int :=
  if interval.den ≤ interval.value then
    (digitCount (interval.value / interval.den) : Int) - 1
  else -(digitCount ((interval.den - 1) / interval.value) : Int)

/-- The neighbour on the grid of multiples of `10 ^ place`, if one is inside. -/
def Interval.onGrid? (interval : Interval) (tie : Tie) (place : Int) :
    Option Digits :=
  let up := tenPow (-place).toNat
  let step := interval.den * tenPow place.toNat
  let value := interval.value * up
  let below := value / step
  let above := below + 1
  let inside := fun candidate : Nat =>
    if interval.closed then
      interval.low * up ≤ candidate * step ∧ candidate * step ≤ interval.high * up
    else interval.low * up < candidate * step ∧ candidate * step < interval.high * up
  let toBelow := value - below * step
  let toAbove := above * step - value
  if inside below ∧ inside above then
    if toBelow < toAbove then some ⟨below, place⟩
    else if toAbove < toBelow then some ⟨above, place⟩
    else match tie with
      | .up => some ⟨above, place⟩
      | .even => some ⟨if below % 2 = 0 then below else above, place⟩
  else if inside below then some ⟨below, place⟩
  else if inside above then some ⟨above, place⟩
  else none

/-- Try `count` grids, from the given place down. -/
def Interval.search (interval : Interval) (tie : Tie) :
    Nat → Int → Option Digits
  | 0, _ => none
  | count + 1, place =>
      match interval.onGrid? tie place with
      | some found => some found
      | none => interval.search tie count (place - 1)

/-- Drop trailing zeros; `count` bounds how many. -/
def Digits.strip : Nat → Digits → Digits
  | 0, d => d
  | count + 1, d =>
      if d.digits ≠ 0 ∧ d.digits % 10 = 0 then
        strip count ⟨d.digits / 10, d.exponent + 1⟩
      else d

/-- The fewest digits that read back to the positive double
`significand * 2 ^ exponent`; seventeen always do. -/
def shortest (tie : Tie) (significand : Nat) (exponent : Int) : Digits :=
  let interval := Interval.ofBinary significand exponent
  match interval.search tie 17 interval.magnitude with
  | some found => found.strip 18
  | none => ⟨0, 0⟩

end SceneQuiz.Decimal
