import SceneQuiz.Decimal.Double
import SceneQuiz.Json.Reader
/-!
Taking documents apart.  A known member must not be repeated and must have the
right type; a missing one may have a default; unknown members are ignored.

An object that names its own kind is taken in as a whole before its kind is
known, so all of it has to be readable, also what the kind does not use.  What
stands inside it has lost its written form and may be given a little more
freely: a kind by its place, and a case with an empty object as its content.
-/

namespace SceneQuiz

mutual

/-- How deep a value nests. -/
def Json.height (value : Json) : Nat :=
  match value with
  | .arr items => Json.heightOfItems items + 1
  | .obj members => Json.heightOfMembers members + 1
  | _ => 1
termination_by structural value

/-- How deep the deepest item nests. -/
def Json.heightOfItems (items : List Json) : Nat :=
  match items with
  | [] => 0
  | item :: rest => max item.height (Json.heightOfItems rest)
termination_by structural items

/-- How deep the deepest member nests. -/
def Json.heightOfMembers (members : List (String × Json)) : Nat :=
  match members with
  | [] => 0
  | (_, value) :: rest => max value.height (Json.heightOfMembers rest)
termination_by structural members

end

namespace Json

def asText? : Json → Option String
  | .str text => some text
  | _ => none

def asBool? : Json → Option Bool
  | .bool value => some value
  | _ => none

def asItems? : Json → Option (List Json)
  | .arr items => some items
  | _ => none

def asMembers? : Json → Option (List (String × Json))
  | .obj members => some members
  | _ => none

/-- A whole number below a bound, written without fraction or exponent. -/
def asNatBelow? (bound : Nat) : Json → Option Nat
  | .number text => (Decimal.readDigits? text.toList).filter (· < bound)
  | _ => none

/-- A number of bytes or of things in memory. -/
def asCount? (value : Json) : Option Nat := value.asNatBelow? (Decimal.twoPow 64)

/-- An array whose items all decode. -/
def asList? {α : Type} (decode : Json → Option α) (value : Json) :
    Option (List α) := do
  (← value.asItems?).mapM decode

/-- The name of a case: a text, or an object whose only member is the name
with no content. -/
def asCase? : Json → Option String
  | .str name => some name
  | .obj [(name, .null)] => some name
  | _ => none

/-- The name of a case inside an object that names its own kind: an empty object
is no content either. -/
def asInnerCase? : Json → Option String
  | .obj [(name, .obj [])] => some name
  | value => value.asCase?

/-- The name of a kind: a text or, inside another object that names its kind,
its place among the kinds. -/
def asKind? (kinds : List String) (inner : Bool) (value : Json) : Option String :=
  match value with
  | .str name => some name
  | .number _ => if inner then do kinds[← value.asCount?]? else none
  | _ => none

/-- The values given for a member. -/
def occurrences (members : List (String × Json)) (name : String) : List Json :=
  members.filterMap fun entry => if entry.1 = name then some entry.2 else none

/-- A member that has to be there. -/
def required {α : Type} (members : List (String × Json)) (name : String)
    (decode : Json → Option α) : Option α :=
  match occurrences members name with
  | [value] => decode value
  | _ => none

/-- A member with a default. -/
def defaulted {α : Type} (members : List (String × Json)) (name : String)
    (default : α) (decode : Json → Option α) : Option α :=
  match occurrences members name with
  | [] => some default
  | [value] => decode value
  | _ => none

/-- A member that may be missing or null. -/
def nullable {α : Type} (members : List (String × Json)) (name : String)
    (decode : Json → Option α) : Option (Option α) :=
  match occurrences members name with
  | [] => some none
  | [.null] => some none
  | [value] => (decode value).map some
  | _ => none

/-- The digits of a decimal that fit 64 bits, and the power of ten that belongs
to them. -/
structure Significand where
  value : Nat
  exponent : Int

/-- Append whole digits; once 64 bits are full, further ones only raise the
exponent. -/
def Significand.addWhole (s : Significand) (full : Bool) :
    List Char → Significand
  | [] => s
  | c :: rest =>
      let next := s.value * 10 + (c.toNat - '0'.toNat)
      if full || Decimal.twoPow 64 ≤ next then
        Significand.addWhole ⟨s.value, s.exponent + 1⟩ true rest
      else Significand.addWhole ⟨next, s.exponent⟩ false rest

/-- Append digits of a fraction; once 64 bits are full, the rest is dropped. -/
def Significand.addFraction (s : Significand) : List Char → Significand
  | [] => s
  | c :: rest =>
      let next := s.value * 10 + (c.toNat - '0'.toNat)
      if Decimal.twoPow 64 ≤ next then s
      else Significand.addFraction ⟨next, s.exponent - 1⟩ rest

/-- Scale by a power of ten in double arithmetic, in steps of at most 308; a
result that is too large is no number. -/
def scaleBy (x : Float) : (steps : Nat) → Int → Option Float
  | 0, _ => some x
  | steps + 1, exponent =>
      if exponent.natAbs ≤ 308 then
        let power := Decimal.ofInt (Decimal.tenPow exponent.natAbs)
        if 0 ≤ exponent then
          let scaled := x * power
          if scaled.isInf then none else some scaled
        else some (x / power)
      else if x == 0.0 then some x
      else if 0 ≤ exponent then none
      else scaleBy (x / Decimal.ofInt (Decimal.tenPow 308)) steps (exponent + 308)

/-- The exponent part of a number, with its sign. -/
def exponentOf (cs : List Char) : Int :=
  match cs with
  | [] => 0
  | _ :: rest => (Decimal.readInt? (String.ofList rest)).getD 0

/-- The magnitude of a written number as a double. -/
def magnitude? (cs : List Char) : Option Float :=
  let whole := cs.takeWhile Char.isDigit
  let afterWhole := cs.dropWhile Char.isDigit
  let fraction := match afterWhole with
    | '.' :: rest => rest.takeWhile Char.isDigit
    | _ => []
  let power := match afterWhole with
    | '.' :: rest => rest.dropWhile Char.isDigit
    | rest => rest
  let digits := ((⟨0, 0⟩ : Significand).addWhole false whole).addFraction fraction
  let exponent := digits.exponent + exponentOf power
  let start := Decimal.ofInt digits.value
  if digits.value = 0 then some start
  else if exponent < -10000 then some 0.0
  else scaleBy start 40 exponent

/-- A number as a double. -/
def asDouble? : Json → Option Float
  | .number text =>
      match text.toList with
      | '-' :: rest => (magnitude? rest).map fun x => -x
      | cs => magnitude? cs
  | _ => none

end Json

mutual

/-- All of the value can be read: its strings spell texts, and its numbers fit
doubles. -/
def Json.isReadable (value : Json) : Bool :=
  match value with
  | .number text => (Json.number text).asDouble?.isSome
  | .arr items => Json.areReadable items
  | .obj members => Json.membersReadable members
  | .garbled => false
  | _ => true
termination_by structural value

/-- All items can be read. -/
def Json.areReadable (items : List Json) : Bool :=
  match items with
  | [] => true
  | item :: rest => item.isReadable && Json.areReadable rest
termination_by structural items

/-- The values of all members can be read. -/
def Json.membersReadable (members : List (String × Json)) : Bool :=
  match members with
  | [] => true
  | (_, value) :: rest => value.isReadable && Json.membersReadable rest
termination_by structural members

end

/-- The members of an object that names its own kind. -/
def Json.asSelfNamed? (value : Json) : Option (List (String × Json)) :=
  if value.isReadable then value.asMembers? else none

end SceneQuiz
