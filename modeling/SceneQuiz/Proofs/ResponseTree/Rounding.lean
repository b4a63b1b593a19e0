import SceneQuiz.Proofs.Decimal.WholeNumber
import SceneQuiz.Proofs.ResponseTree.NodeRun
/-!
Scores at the end of the function: kept between 0 and 1, scaled, rounded and
scaled back.  Every number has a rounded value, and a whole number becomes 0
or 1.
-/

namespace SceneQuiz

namespace Value

/-- An integer or a double. -/
def IsNumeric (value : Value) : Prop := value.asDouble?.isSome = true

/-- A score kept between 0 and 1. -/
def clamped (score : Value) : Except EvalError Value := do
  let below ← Builtin.min.apply [.int 1, score]
  Builtin.max.apply [.int 0, below]

/-- A score rounded to a part of a scale. -/
def roundedTo (scale : Nat) (score : Value) : Except EvalError Value := do
  let scaled ← applyOperator .mul score (.int scale)
  let whole ← Builtin.round.apply [scaled]
  applyOperator .div whole (.int scale)

/-- What the function makes of a score at its end. -/
def rounded (scale : Nat) (score : Value) : Except EvalError Value := do
  let within ← score.clamped
  within.roundedTo scale

theorem exists_of_bind {work : Except EvalError Value}
    {next : Value → Except EvalError Value} {value : Value}
    (h : work >>= next = .ok value) :
    ∃ middle, work = .ok middle ∧ next middle = .ok value := by
  cases work with
  | error error => cases h
  | ok middle => exact ⟨middle, rfl, h⟩

/-- A whole score counts fully or not at all. -/
def ofWhole (n : Int) : Value := .int (if 1 ≤ n then 1 else 0)

theorem clamped_int (n : Int) : (Value.int n).clamped = .ok (ofWhole n) := by
  have hzero : Decimal.nearestInt 0 = 0 := rfl
  have hone : Decimal.nearestInt 1 = 1 := rfl
  have hsign : 0 < Decimal.nearestInt n ↔ 0 < n := Decimal.nearestInt_pos_iff
  have hmin : Builtin.min.apply [.int 1, .int n] =
      .ok (.int (if 1 ≤ n then 1 else n)) := by
    have hless : compareInts .less n 1 = decide (n < 1) := by
      simp only [compareInts, hone]
      exact decide_eq_decide.mpr (by omega)
    simp only [Builtin.apply, Builtin.extremeOf, asDouble?, Builtin.extreme,
      compare?, hless]
    by_cases hn : 1 ≤ n
    · simp [hn, show ¬ n < 1 by omega]
    · simp [hn, show n < 1 by omega]
  have hmax : ∀ m : Int, Builtin.max.apply [.int 0, .int m] =
      .ok (.int (if 0 < m then m else 0)) := by
    intro m
    have hgreater : compareInts .greater m 0 = decide (0 < m) := by
      simp only [compareInts, hzero]
      exact decide_eq_decide.mpr Decimal.nearestInt_pos_iff
    simp only [Builtin.apply, Builtin.extremeOf, asDouble?, Builtin.extreme,
      compare?, hgreater]
    by_cases hm : 0 < m <;> simp [hm]
  simp only [clamped, hmin, bind, Except.bind, hmax, ofWhole]
  by_cases hn : 1 ≤ n
  · simp [hn]
  · simp [hn, show ¬ 0 < n by omega]

/-- A double is kept, or replaced by a bound. -/
theorem clamped_float (x : Float) :
    ∃ value, (Value.float x).clamped = .ok value ∧
      (value = .float x ∨ ∃ n, value = ofWhole n) := by
  have hmin : ∃ value, Builtin.min.apply [.int 1, .float x] = .ok value ∧
      (value = .float x ∨ value = .int 1) := by
    simp only [Builtin.apply, Builtin.extremeOf, asDouble?, Builtin.extreme,
      compare?, bind, Option.bind, pure]
    cases compareDoubles .less x (Decimal.ofInt 1) <;> simp
  have hmax : ∀ value, value = .float x ∨ value = .int 1 →
      ∃ kept, Builtin.max.apply [.int 0, value] = .ok kept ∧
        (kept = .float x ∨ ∃ n, kept = ofWhole n) := by
    rintro value (rfl | rfl)
    · simp only [Builtin.apply, Builtin.extremeOf, asDouble?, Builtin.extreme,
        compare?, bind, Option.bind, pure]
      cases compareDoubles .greater x (Decimal.ofInt 0) with
      | true => exact ⟨_, rfl, Or.inl rfl⟩
      | false => exact ⟨_, rfl, Or.inr ⟨0, rfl⟩⟩
    · exact ⟨_, rfl, Or.inr ⟨1, rfl⟩⟩
  obtain ⟨below, hbelow, hkind⟩ := hmin
  obtain ⟨kept, hkept, hkinds⟩ := hmax below hkind
  exact ⟨kept, by simp only [clamped, hbelow, bind, Except.bind, hkept], hkinds⟩

/-- Both bounds are parts of any scale. -/
theorem roundedTo_ofWhole {scale : Nat} (hpos : 0 < scale)
    (hbound : scale < 0x8000000000000000) (n : Int) :
    (ofWhole n).roundedTo scale = .ok (ofWhole n) := by
  have hfits : Decimal.fitsWord (scale : Int) = true :=
    Decimal.fitsWord_of_lt hbound
  have hnonzero : (scale : Int) ≠ 0 := by omega
  have hbit : ∀ bit : Int, bit = 0 ∨ bit = 1 →
      (Value.int bit).roundedTo scale = .ok (.int bit) := by
    intro bit hcases
    have hproduct : applyOperator .mul (.int bit) (.int scale) =
        .ok (.int (bit * scale)) := by
      change ofExact (bit * (scale : Int)) = _
      rw [ofExact, if_pos]
      rcases hcases with rfl | rfl
      · simp [Decimal.fitsWord_iff]
      · simpa using hfits
    have hexact : exactQuotient? (bit * scale) scale = some bit := by
      have hdiv : bit * (scale : Int) / scale = bit :=
        Int.mul_ediv_cancel bit hnonzero
      rw [exactQuotient?, hdiv, if_pos]
      refine ⟨Int.dvd_mul_left _ _, ?_⟩
      rcases hcases with rfl | rfl <;> decide
    have hquotient : applyOperator .div (.int (bit * scale)) (.int scale) =
        .ok (.int bit) := by
      change divide (.int (bit * scale)) (.int scale) = _
      simp only [divide, doubles, asDouble?, bind, Except.bind, hnonzero,
        if_false, hexact]
    simp only [roundedTo, hproduct, bind, Except.bind]
    exact hquotient
  unfold ofWhole
  exact hbit _ (by split <;> simp)

theorem exists_roundedTo_float {scale : Nat} (hpos : 0 < scale) (x : Float) :
    ∃ value, (Value.float x).roundedTo scale = .ok value := by
  have hnonzero : (scale : Int) ≠ 0 := by omega
  have hquotient : ∀ n : Int, ∃ value,
      applyOperator .div (.int n) (.int scale) = .ok value := by
    intro n
    change ∃ value, divide (.int n) (.int scale) = .ok value
    simp only [divide, doubles, asDouble?, bind, Except.bind, hnonzero, if_false]
    cases exactQuotient? n scale <;> exact ⟨_, rfl⟩
  exact hquotient _

variable {scale : Nat}

/-- A whole score is rounded to 0 or 1. -/
theorem rounded_int (hpos : 0 < scale) (hbound : scale < 0x8000000000000000)
    (n : Int) : (Value.int n).rounded scale = .ok (ofWhole n) := by
  simp only [rounded, clamped_int, bind, Except.bind]
  exact roundedTo_ofWhole hpos hbound n

/-- Every number has a rounded value. -/
theorem exists_rounded {score : Value} (hpos : 0 < scale)
    (hbound : scale < 0x8000000000000000) (h : score.IsNumeric) :
    ∃ value, score.rounded scale = .ok value := by
  cases score with
  | int n => exact ⟨_, rounded_int hpos hbound n⟩
  | float x =>
      obtain ⟨kept, hkept, hkind⟩ := clamped_float x
      simp only [rounded, hkept, bind, Except.bind]
      rcases hkind with rfl | ⟨n, rfl⟩
      · exact exists_roundedTo_float hpos x
      · exact ⟨_, roundedTo_ofWhole hpos hbound n⟩
  | str _ | bool _ | list _ | set _ | symbol _ => simp [IsNumeric, asDouble?] at h

end Value

namespace ResponseTree

open SceneQuiz.Expr (Evaluates)

variable {machine : Machine} {outer : Environment}

theorem scoreScale_bounds (options : Options) :
    0 < options.scoreScale ∧ options.scoreScale < 0x8000000000000000 := by
  have hall : ∀ places, places ≤ 9 →
      0 < Decimal.tenPow places ∧ Decimal.tenPow places < 0x8000000000000000 := by
    decide
  exact hall _ (Nat.min_le_right _ _)

/-- The code that rounds a score gives it its rounded value. -/
theorem evaluates_rounded {frame : Frame} (slot : Slot) {scale : Nat}
    {value : Value} (hplain : machine.HasBuiltins)
    (hbound : scale < 0x8000000000000000)
    (hvalue : (frame.get slot).rounded scale = .ok value) :
    (Emit.rounded slot.name scale).Evaluates machine (outer.under frame.scope)
      (.ok value) (outer.under (frame.set slot value).scope) := by
  obtain ⟨within, hclamped, hvalue⟩ := Value.exists_of_bind hvalue
  obtain ⟨below, hbelow, hwithin⟩ := Value.exists_of_bind hclamped
  obtain ⟨scaled, hscaled, hvalue⟩ := Value.exists_of_bind hvalue
  obtain ⟨whole, hwhole, hvalue⟩ := Value.exists_of_bind hvalue
  have hscale : (Expr.int scale).Evaluates machine (outer.under frame.scope)
      (.ok (.int scale)) (outer.under frame.scope) := Expr.evaluates_nat hbound
  have hkept : (Expr.call "max" [.int 0, .call "min" [.int 1,
      .ident slot.name]]).Evaluates machine (outer.under frame.scope)
        (.ok within) (outer.under frame.scope) :=
    Expr.evaluates_builtin .max hplain
      (.cons (Expr.evaluates_nat (by decide)) (.cons
        (Expr.evaluates_builtin .min hplain
          (.cons (Expr.evaluates_nat (by decide))
            (.cons (evaluates_slot frame slot) .nil)) hbelow)
        .nil)) hwithin
  exact evaluates_set slot (Expr.evaluates_operator rfl
    (Expr.evaluates_builtin .round hplain
      (.cons (Expr.evaluates_operator rfl hkept hscale hscaled) .nil) hwhole)
    hscale hvalue)

end ResponseTree

end SceneQuiz
