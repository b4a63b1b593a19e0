import SceneQuiz.Decimal.Digits
/-!
Binary doubles taken apart and put together in exact arithmetic: the nearest
double of a fraction, with a half going to the even neighbour, and the
significand and exponent of a finite double.
-/

namespace SceneQuiz.Decimal

/-- A quotient rounded to the nearest whole number, a half to the even one. -/
def roundHalfEven (num den : Nat) : Nat :=
  let quotient := num / den
  let rest := num % den
  if 2 * rest < den then quotient
  else if den < 2 * rest then quotient + 1
  else if quotient % 2 = 0 then quotient
  else quotient + 1

/-- The bits of the double `significand * 2 ^ exponent`, for a significand
below `2 ^ 53` and an exponent of at least -1074. -/
def packBits (significand : Nat) (exponent : Int) : Nat :=
  if significand < twoPow 52 then significand
  else if 971 < exponent then 0x7ff * twoPow 52
  else (exponent + 1075).toNat * twoPow 52 + (significand - twoPow 52)

/-- The bits of the double nearest to `num / den`, both positive. -/
def nearestBits (num den : Nat) : Nat :=
  let guess : Int := (num.log2 : Int) - den.log2
  let reached :=
    if 0 ≤ guess then den * twoPow guess.toNat ≤ num
    else den ≤ num * twoPow (-guess).toNat
  let magnitude := if reached then guess else guess - 1
  let exponent := max (magnitude - 52) (-1074)
  let significand :=
    if 0 ≤ exponent then roundHalfEven num (den * twoPow exponent.toNat)
    else roundHalfEven (num * twoPow (-exponent).toNat) den
  if significand = twoPow 53 then packBits (twoPow 52) (exponent + 1)
  else packBits significand exponent

/-- The double nearest to a fraction with the given sign. -/
def ofFraction (negative : Bool) (num den : Nat) : Float :=
  let magnitude := if num = 0 then 0 else nearestBits num den
  Float.ofBits (magnitude + if negative then twoPow 63 else 0).toUInt64

/-- The double nearest to an integer. -/
def ofInt (n : Int) : Float := ofFraction (n < 0) n.natAbs 1

/-- The value of the double nearest to a natural number. -/
def nearestNat (n : Nat) : Nat :=
  if n < twoPow 53 then n
  else
    let unit := twoPow (n.log2 - 52)
    roundHalfEven n unit * unit

/-- The value of the double nearest to an integer.  Integers compare with each
other through it, because arithmetic compares numbers as doubles. -/
def nearestInt (n : Int) : Int :=
  if n < 0 then -(nearestNat n.natAbs : Int) else nearestNat n.natAbs

theorem nearestInt_of_small {n : Int} (h : n.natAbs < twoPow 53) :
    nearestInt n = n := by
  unfold nearestInt nearestNat
  rw [if_pos h]
  split <;> omega

/-- A double by its parts. -/
inductive Parts where
  | nan
  | infinite (negative : Bool)
  /-- The value `significand * 2 ^ exponent`. -/
  | finite (negative : Bool) (significand : Nat) (exponent : Int)
deriving DecidableEq, Repr

/-- Takes a double apart. -/
def partsOf (x : Float) : Parts :=
  let bits := x.toBits.toNat
  let negative := twoPow 63 ≤ bits
  let exponent : Nat := bits / twoPow 52 % twoPow 11
  let fraction := bits % twoPow 52
  if exponent = 0x7ff then
    if fraction = 0 then .infinite negative else .nan
  else if exponent = 0 then .finite negative fraction (-1074)
  else .finite negative (fraction + twoPow 52) ((exponent : Int) - 1075)

end SceneQuiz.Decimal
