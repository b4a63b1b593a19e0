import SceneQuiz.Machine.Fault
/-!
Operators on values.  Integer arithmetic is exact or reports an overflow of 64
bits; an integer and a double meet as doubles.  Numbers compare as doubles,
integers among themselves included.
-/

namespace SceneQuiz.Value

/-- An exact result, if 64 bits hold it. -/
def ofExact (n : Int) : Except EvalError Value :=
  if Decimal.fitsWord n then .ok (.int n) else .error .overflow

/-- Does a comparison hold of two integers, seen as doubles? -/
def compareInts (op : BinOp) (a b : Int) : Bool :=
  let a := Decimal.nearestInt a
  let b := Decimal.nearestInt b
  match op with
  | .less => a < b
  | .greater => a > b
  | .lessEq => a ≤ b
  | _ => a ≥ b

/-- Does a comparison hold of two doubles? -/
def compareDoubles (op : BinOp) (x y : Float) : Bool :=
  match op with
  | .less => x < y
  | .greater => x > y
  | .lessEq => x ≤ y
  | _ => x ≥ y

/-- Does a comparison hold of two numbers? -/
def compare? (op : BinOp) (left right : Value) : Option Bool :=
  match left, right with
  | .int a, .int b => some (compareInts op a b)
  | _, _ => do return compareDoubles op (← left.asDouble?) (← right.asDouble?)

/-- Two operands as doubles. -/
def doubles (op : BinOp) (left right : Value) :
    Except EvalError (Float × Float) :=
  match left.asDouble?, right.asDouble? with
  | some x, some y => .ok (x, y)
  | _, _ => .error (.mismatch (.operands op left.kind right.kind))

/-- A sum, difference or product of integers. -/
def exactResult (op : BinOp) (a b : Int) : Int :=
  match op with
  | .add => a + b
  | .sub => a - b
  | _ => a * b

/-- A sum, difference or product of doubles. -/
def doubleResult (op : BinOp) (x y : Float) : Float :=
  match op with
  | .add => x + y
  | .sub => x - y
  | _ => x * y

/-- A sum, difference or product. -/
def combine (op : BinOp) (left right : Value) : Except EvalError Value :=
  match left, right with
  | .int a, .int b => ofExact (exactResult op a b)
  | _, _ => do
      let (x, y) ← doubles op left right
      return .float (doubleResult op x y)

/-- A quotient of integers that is an integer of 64 bits. -/
def exactQuotient? (a b : Int) : Option Int :=
  if b ∣ a ∧ Decimal.fitsWord (a / b) then some (a / b) else none

/-- A quotient; it stays an integer where it is one. -/
def divide (left right : Value) : Except EvalError Value := do
  let (x, y) ← doubles .div left right
  match left, right with
  | .int a, .int b =>
      if b = 0 then .error .divisionByZero
      else match exactQuotient? a b with
        | some quotient => .ok (.int quotient)
        | none => .ok (.float (x / y))
  | _, _ => if y == 0.0 then .error .divisionByZero else .ok (.float (x / y))

/-- A power of integers with an exponent that is not negative.  Beyond the
63rd power only 0, 1 and -1 stay in range, and exponents have 32 bits. -/
def exactPower (base : Int) (exponent : Nat) : Except EvalError Value :=
  if Decimal.twoPow 32 ≤ exponent then .error .overflow
  else if base.natAbs ≤ 1 then
    .ok (.int (if exponent = 0 then 1 else if exponent % 2 = 0 then base * base else base))
  else if 63 < exponent then .error .overflow
  else ofExact (Int.pow base exponent)

def power (left right : Value) : Except EvalError Value :=
  let inDoubles : Except EvalError Value := do
    let (x, y) ← doubles .pow left right
    return .float (x.pow y)
  match left, right with
  | .int base, .int exponent =>
      if 0 ≤ exponent then exactPower base exponent.toNat else inDoubles
  | _, _ => inDoubles

/-- The value of an operator on evaluated operands. -/
def applyOperator (op : BinOp) (left right : Value) : Except EvalError Value :=
  match op with
  | .eq => .ok (.bool (left.looselyEquals right))
  | .notEq => .ok (.bool (!left.looselyEquals right))
  | .less | .greater | .lessEq | .greaterEq =>
      match compare? op left right with
      | some holds => .ok (.bool holds)
      | none => .error (.mismatch (.operands op left.kind right.kind))
  | .add | .sub | .mul => combine op left right
  | .div => divide left right
  | .pow => power left right
  | .dot | .assign | .define | .and | .or => .error (.unsupported (.operator op))

def negate : Value → Except EvalError Value
  | .int n => ofExact (-n)
  | .float x => .ok (.float (-x))
  | other => .error (.mismatch (.negation other.kind))

/-- The product of the numbers from 1 to `n`. -/
def factorialOf : Nat → Nat
  | 0 => 1
  | n + 1 => (n + 1) * factorialOf n

/-- A factorial; beyond that of 20 it leaves 64 bits. -/
def factorial : Value → Except EvalError Value
  | .int n =>
      if n < 0 then .error (.mismatch (.factorial .integer))
      else if 20 < n then .error .overflow
      else .ok (.int (factorialOf n.toNat))
  | other => .error (.mismatch (.factorial other.kind))

/-- The item of a list at an index that counts from 1. -/
def item (target index : Value) : Except EvalError Value :=
  match target, index with
  | .list items, .int i =>
      if 1 ≤ i then
        match items[(i - 1).toNat]? with
        | some found => .ok found
        | none => .error (.indexOutOfRange i items.length)
      else .error (.indexOutOfRange i items.length)
  | _, _ => .error (.mismatch (.indexing target.kind index.kind))

/-- The integers from `first` to `last` in steps of `step`, which is not 0.  A loop
that counts in 64 bits overflows if the step after the last of them leaves their
range; here no step does. -/
def progression (first step last : Int) : List Int :=
  let count := (Int.fdiv (last - first) step + 1).toNat
  (List.range count).map fun k : Nat => first + (k : Int) * step

/-- What a counting loop runs over. -/
def range (first step last : Value) : Except EvalError (List Value) :=
  match first, step, last with
  | .int first, .int step, .int last =>
      if step = 0 then
        .error (.unsupported (.loopRange .integer .integer .integer))
      else .ok ((progression first step last).map Value.int)
  | _, _, _ =>
      .error (.unsupported (.loopRange first.kind step.kind last.kind))

end SceneQuiz.Value
