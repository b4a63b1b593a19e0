import SceneQuiz.Machine.Step
/-!
Computations on values end in a value or in an error that can be taken in:
operators, indexing, ranges and builtins report errors of their own.  They never
end in a `return`, and never because the step budget is used up.
-/

namespace SceneQuiz

/-- An outcome that is no `return`. -/
def Unreturned {α : Type} : Except EvalError α → Prop
  | .error (.returned _) => False
  | _ => True

/-- An outcome that is a value or an error that can be taken in. -/
def Trappable {α : Type} : Except EvalError α → Prop
  | .error error => error.isCatchable
  | .ok _ => True

namespace Trappable

variable {α β : Type} {outcome : Except EvalError α}

theorem bind {next : α → Except EvalError β} (h : Trappable outcome)
    (hnext : ∀ value, Trappable (next value)) : Trappable (outcome >>= next) := by
  cases outcome with
  | ok value => exact hnext value
  | error error => exact h

theorem unreturned (h : Trappable outcome) : Unreturned outcome := by
  cases outcome with
  | ok value => trivial
  | error error =>
      cases error with
      | returned => exact absurd h nofun
      | _ => trivial

theorem ne_gasExhausted (h : Trappable outcome) : outcome ≠ .error .gasExhausted := by
  rintro rfl
  exact absurd h nofun

end Trappable

namespace Value

theorem trappable_ofExact (n : Int) : Trappable (ofExact n) := by
  unfold ofExact
  split <;> trivial

theorem trappable_doubles (op : BinOp) (left right : Value) :
    Trappable (doubles op left right) := by
  unfold doubles
  split <;> trivial

theorem trappable_combine (op : BinOp) (left right : Value) :
    Trappable (combine op left right) := by
  unfold combine
  split
  · exact trappable_ofExact _
  · exact (trappable_doubles op left right).bind fun _ => trivial

theorem trappable_divide (left right : Value) : Trappable (divide left right) := by
  apply (trappable_doubles .div left right).bind
  rintro ⟨x, y⟩
  dsimp only
  split
  · split
    · trivial
    · split <;> trivial
  · split <;> trivial

theorem trappable_exactPower (base : Int) (exponent : Nat) :
    Trappable (exactPower base exponent) := by
  unfold exactPower
  split
  · trivial
  · split
    · trivial
    · split
      · trivial
      · exact trappable_ofExact _

theorem trappable_power (left right : Value) : Trappable (power left right) := by
  unfold power
  dsimp only
  split
  · split
    · exact trappable_exactPower _ _
    · exact (trappable_doubles .pow _ _).bind fun _ => trivial
  · exact (trappable_doubles .pow left right).bind fun _ => trivial

theorem trappable_applyOperator (op : BinOp) (left right : Value) :
    Trappable (applyOperator op left right) := by
  cases op with
  | add | sub | mul => exact trappable_combine _ left right
  | div => exact trappable_divide left right
  | pow => exact trappable_power left right
  | less | greater | lessEq | greaterEq =>
      dsimp only [applyOperator]
      split <;> trivial
  | _ => trivial

theorem trappable_negate (value : Value) : Trappable value.negate := by
  cases value with
  | int n => exact trappable_ofExact (-n)
  | _ => trivial

theorem trappable_factorial (value : Value) : Trappable value.factorial := by
  cases value with
  | int n =>
      dsimp only [factorial]
      split
      · trivial
      · split <;> trivial
  | _ => trivial

theorem trappable_item (target index : Value) : Trappable (target.item index) := by
  unfold item
  split
  · split
    · split <;> trivial
    · trivial
  · trivial

theorem trappable_range (first step last : Value) : Trappable (range first step last) := by
  unfold range
  split
  · split <;> trivial
  · trivial

end Value

namespace Builtin

theorem trappable_single (builtin : Builtin) (args : List Value) :
    Trappable (builtin.single args) := by
  unfold single
  split <;> trivial

theorem trappable_singleList (builtin : Builtin) (args : List Value) :
    Trappable (builtin.singleList args) := by
  apply (builtin.trappable_single args).bind
  intro value
  cases value <;> trivial

theorem trappable_double (builtin : Builtin) (value : Value) :
    Trappable (builtin.double value) := by
  unfold double
  split <;> trivial

theorem trappable_present (item : Option Value) : Trappable (present item) := by
  cases item <;> trivial

theorem trappable_extreme (builtin : Builtin) (op : BinOp) (best : Value)
    (values : List Value) : Trappable (builtin.extreme op best values) := by
  induction values generalizing best with
  | nil => trivial
  | cons value others ih =>
      unfold extreme
      split
      · exact ih value
      · exact ih best
      · trivial

theorem trappable_extremeOf (builtin : Builtin) (op : BinOp) (values : List Value) :
    Trappable (builtin.extremeOf op values) := by
  unfold extremeOf
  split
  · trivial
  · split
    · exact builtin.trappable_extreme op _ _
    · trivial

theorem trappable_apply (builtin : Builtin) (args : List Value) :
    Trappable (builtin.apply args) := by
  have hsingle := builtin.trappable_single args
  have hlist := builtin.trappable_singleList args
  cases builtin with
  | sconcat | error => trivial
  | string | is | setp | listp | stringp => exact hsingle.bind fun _ => trivial
  | rest | emptyp => exact hlist.bind fun _ => trivial
  | first | last => exact hlist.bind fun _ => trappable_present _
  | min | max => exact trappable_extremeOf _ _ args
  | float => exact hsingle.bind fun _ => (trappable_double _ _).bind fun _ => trivial
  | round =>
      apply hsingle.bind
      intro value
      cases value with
      | int => trivial
      | _ => exact (trappable_double _ _).bind fun _ => trivial
  | length | listify =>
      apply hsingle.bind
      intro value
      cases value <;> trivial
  | append =>
      dsimp only [apply, appended]
      split <;> trivial
  | simplode | display | cons | endcons | member =>
      dsimp only [apply]
      split <;> trivial

end Builtin

theorem Eval.trappable_paramNames (params : List Expr) :
    Trappable (Eval.paramNames params) := by
  induction params with
  | nil => trivial
  | cons e rest ih =>
      unfold Eval.paramNames
      split
      · cases hrest : Eval.paramNames rest with
        | ok names => trivial
        | error error =>
            rw [hrest] at ih
            exact ih
      · trivial

end SceneQuiz
