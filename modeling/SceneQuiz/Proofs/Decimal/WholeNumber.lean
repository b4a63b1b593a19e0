import SceneQuiz.Decimal.Digits
import SceneQuiz.Decimal.Double
/-!
Whole numbers as texts and as doubles: the decimal text of a number is read as that
number, and rounding to a double may move a large integer, but never across zero.
-/

namespace SceneQuiz.Decimal

theorem foldl_digits {digits : List Char} (h : ∀ c ∈ digits, c.isDigit = true)
    (start : Nat) :
    digits.foldl (fun value c =>
      value.bind fun n =>
        if c.isDigit then some (n * 10 + (c.toNat - '0'.toNat)) else none)
      (some start) = some (Nat.ofDigitChars 10 digits start) := by
  induction digits generalizing start with
  | nil => simp
  | cons c rest ih =>
      have hc := h c List.mem_cons_self
      simp only [List.foldl_cons, Option.bind_some, hc, if_true,
        Nat.ofDigitChars_cons]
      rw [ih fun d hd => h d (List.mem_cons_of_mem c hd), Nat.mul_comm start 10]

/-- The digits of a number are read as the number. -/
theorem readDigits?_toDigits (n : Nat) :
    readDigits? (Nat.toDigits 10 n) = some n := by
  have hne : (Nat.toDigits 10 n).isEmpty = false := by
    simp [Nat.toDigits_ne_nil]
  have hdigits : ∀ c ∈ Nat.toDigits 10 n, c.isDigit = true := fun c hc =>
    Nat.isDigit_of_mem_toDigits (by omega) (by omega) hc
  simp only [readDigits?, hne, digitsValue?]
  rw [foldl_digits hdigits, Nat.ofDigitChars_ten_toDigits]
  rfl

/-- No sign stands before the digits of a number. -/
theorem toDigits_ne_cons {c : Char} (hc : c.isDigit = false) (n : Nat) (rest : List Char) :
    Nat.toDigits 10 n ≠ c :: rest := by
  intro heq
  have hmem : c ∈ Nat.toDigits 10 n := heq ▸ List.mem_cons_self
  have hdigit := Nat.isDigit_of_mem_toDigits (by omega) (by omega) hmem
  simp [hc] at hdigit

theorem readInt?_toString (n : Nat) : readInt? (toString n) = some (n : Int) := by
  have htext : (toString n).toList = Nat.toDigits 10 n := Nat.toList_repr
  have hread := readDigits?_toDigits n
  unfold readInt?
  rw [htext]
  split
  · next digits heq => exact absurd heq (toDigits_ne_cons (by decide) n digits)
  · next digits heq => exact absurd heq (toDigits_ne_cons (by decide) n digits)
  · simp [hread]

theorem readUnsigned?_toString {n : Nat} (h : n < twoPow 64) :
    readUnsigned? (toString n) = some n := by
  have htext : (toString n).toList = Nat.toDigits 10 n := Nat.toList_repr
  have hread : readNat? (toString n) = some n := by
    rw [readNat?, htext]
    split
    · next digits heq => exact absurd heq (toDigits_ne_cons (by decide) n digits)
    · exact readDigits?_toDigits n
  rw [readUnsigned?, hread]
  simp [h]

/-- The text of an integer: its digits, behind a sign if it is negative. -/
theorem toList_toString (n : Int) :
    (toString n).toList =
      if n < 0 then '-' :: Nat.toDigits 10 n.natAbs else Nat.toDigits 10 n.natAbs := by
  rw [Int.toString_eq_repr, Int.repr_eq_if]
  by_cases hn : n < 0
  · have habs : (-n).toNat = n.natAbs := by omega
    simp [hn, habs, show ¬ 0 ≤ n by omega]
  · have habs : n.toNat = n.natAbs := by omega
    simp [hn, habs, show 0 ≤ n by omega]

theorem toString_of_neg {n : Int} (h : n < 0) : toString n = "-" ++ toString n.natAbs := by
  rw [← String.toList_inj, toList_toString, if_pos h]
  simp

theorem toString_of_nonneg {n : Int} (h : ¬ n < 0) : toString n = toString n.natAbs := by
  rw [← String.toList_inj, toList_toString, if_neg h]
  simp

theorem readInt?_toString_int (n : Int) : readInt? (toString n) = some n := by
  by_cases hn : n < 0
  · rw [readInt?, toList_toString, if_pos hn]
    have hread := readDigits?_toDigits n.natAbs
    simp only [hread, Option.bind_eq_bind, Option.bind_some, Option.pure_def, Option.map_some]
    exact congrArg some (by omega)
  · rw [toString_of_nonneg hn, readInt?_toString]
    exact congrArg some (by omega)

theorem isDigit_or_sign_of_mem {n : Int} {c : Char} (h : c ∈ (toString n).toList) :
    c.isDigit = true ∨ c = '-' := by
  rw [toList_toString] at h
  have hdigit : ∀ c ∈ Nat.toDigits 10 n.natAbs, c.isDigit = true := fun c hc =>
    Nat.isDigit_of_mem_toDigits (by decide) (by decide) hc
  split at h
  · exact (List.mem_cons.mp h).symm.imp_left (hdigit c)
  · exact .inl (hdigit c h)

theorem toDigits_injective {b m n : Nat} (hone : 1 < b) (hb : b ≤ 16)
    (h : Nat.toDigits b m = Nat.toDigits b n) : m = n := by
  have hdigit : ∀ m < 16, ∀ n < 16, Nat.digitChar m = Nat.digitChar n → m = n := by decide
  induction m using Nat.strongRecOn generalizing n with
  | ind m ih =>
      have hmod := fun n => Nat.lt_of_lt_of_le (Nat.mod_lt n (Nat.zero_lt_of_lt hone)) hb
      rcases Nat.lt_or_ge m b with hm | hm <;> rcases Nat.lt_or_ge n b with hn | hn
      · rw [Nat.toDigits_of_lt_base hm, Nat.toDigits_of_lt_base hn] at h
        exact hdigit m (by omega) n (by omega) (List.cons.inj h).1
      · rw [Nat.toDigits_of_lt_base hm, Nat.toDigits_of_base_le hone hn] at h
        have hlength := congrArg List.length h
        simp at hlength
      · rw [Nat.toDigits_of_base_le hone hm, Nat.toDigits_of_lt_base hn] at h
        have hlength := congrArg List.length h
        simp at hlength
      · rw [Nat.toDigits_of_base_le hone hm, Nat.toDigits_of_base_le hone hn] at h
        obtain ⟨hmore, hlast⟩ := List.append_inj' h rfl
        have hquotient := ih (m / b) (Nat.div_lt_self (by omega) hone) hmore
        have hremainder := hdigit _ (hmod m) _ (hmod n) (List.cons.inj hlast).1
        rw [← Nat.div_add_mod m b, ← Nat.div_add_mod n b, hquotient, hremainder]

theorem toString_int_injective {m n : Int} (h : toString m = toString n) : m = n := by
  have hlist := congrArg String.toList h
  have hsign : ∀ n : Int, '-' ∉ Nat.toDigits 10 n.natAbs := fun n hmem =>
    absurd (Nat.isDigit_of_mem_toDigits (by decide) (by decide) hmem) (by decide)
  have hdigits : ∀ {m n : Nat}, Nat.toDigits 10 m = Nat.toDigits 10 n → m = n :=
    toDigits_injective (by decide) (by decide)
  rw [toList_toString, toList_toString] at hlist
  split at hlist <;> split at hlist
  · have habs := hdigits (List.cons.inj hlist).2
    omega
  · exact absurd (hlist ▸ List.mem_cons_self) (hsign n)
  · exact absurd (hlist ▸ List.mem_cons_self) (hsign m)
  · have habs := hdigits hlist
    omega

theorem fitsWord_of_lt {n : Nat} (h : n < 0x8000000000000000) :
    fitsWord n = true := by
  rw [fitsWord_iff]
  omega

/-- The text of a number of less than 64 bits is read as a word. -/
theorem readWord?_toString {n : Nat} (h : n < 0x8000000000000000) :
    readWord? (toString n) = some (n : Int) := by
  have hword : asWord? n = some (n : Int) := if_pos (fitsWord_of_lt h)
  unfold readWord?
  rw [readInt?_toString, Option.bind_some, hword]

/-- The text of a word is read as the word. -/
theorem readWord?_toString_int {n : Int} (h : fitsWord n = true) :
    readWord? (toString n) = some n := by
  have hword : asWord? n = some n := if_pos h
  unfold readWord?
  rw [readInt?_toString_int, Option.bind_some, hword]

theorem le_roundHalfEven (num den : Nat) : num / den ≤ roundHalfEven num den := by
  unfold roundHalfEven
  dsimp only
  split <;> try omega
  split <;> try omega
  split <;> omega

theorem nearestNat_pos {n : Nat} (h : 0 < n) : 0 < nearestNat n := by
  unfold nearestNat
  split
  · exact h
  · have hunit : 0 < twoPow (n.log2 - 52) := Nat.pow_pos (by decide)
    have hbelow : twoPow (n.log2 - 52) ≤ n :=
      Nat.le_trans (Nat.pow_le_pow_right (by decide) (Nat.sub_le _ _))
        (Nat.log2_self_le (by omega))
    have hquotient : 0 < n / twoPow (n.log2 - 52) :=
      Nat.div_pos hbelow hunit
    exact Nat.mul_pos (Nat.lt_of_lt_of_le hquotient (le_roundHalfEven _ _)) hunit

/-- An integer is positive exactly if its double is. -/
theorem nearestInt_pos_iff {n : Int} : 0 < nearestInt n ↔ 0 < n := by
  unfold nearestInt
  split
  · have hpos : 0 < nearestNat n.natAbs := nearestNat_pos (by omega)
    omega
  · rcases Nat.eq_zero_or_pos n.natAbs with hzero | hpos
    · rw [hzero]
      have hnearest : nearestNat 0 = 0 := rfl
      omega
    · have hnearest := nearestNat_pos hpos
      omega

/-- A large number stays large. -/
theorem le_nearestNat {n : Nat} (h : twoPow 53 ≤ n) : twoPow 53 ≤ nearestNat n := by
  have hpos : n ≠ 0 := Nat.ne_of_gt (Nat.lt_of_lt_of_le (Nat.pow_pos (by decide)) h)
  have hlog : 53 ≤ n.log2 := (Nat.le_log2 hpos).mpr h
  have hunit : twoPow 1 ≤ twoPow (n.log2 - 52) := Nat.pow_le_pow_right (by decide) (by omega)
  have hquotient : twoPow 52 ≤ n / twoPow (n.log2 - 52) := by
    apply (Nat.le_div_iff_mul_le (Nat.lt_of_lt_of_le (by decide) hunit)).mpr
    calc twoPow 52 * twoPow (n.log2 - 52) = 2 ^ (52 + (n.log2 - 52)) := (Nat.pow_add 2 52 _).symm
      _ = 2 ^ n.log2 := by rw [Nat.add_sub_cancel' (by omega)]
      _ ≤ n := Nat.log2_self_le hpos
  rw [nearestNat, if_neg (Nat.not_lt.mpr h)]
  exact Nat.mul_le_mul (Nat.le_trans hquotient (le_roundHalfEven _ _)) hunit

/-- Where one of two numbers is small, they compare as their doubles do. -/
theorem nearestInt_lt_iff {a b : Nat} (h : a < twoPow 53 ∨ b < twoPow 53) :
    nearestInt a < nearestInt b ↔ a < b := by
  have hnearest : ∀ n : Nat, nearestInt n = nearestNat n := by
    intro n
    rw [nearestInt, if_neg (by omega), Int.natAbs_natCast]
  have hsmall : ∀ n : Nat, n < twoPow 53 → nearestNat n = n := fun n hn => if_pos hn
  rw [hnearest, hnearest, Int.ofNat_lt]
  by_cases ha : a < twoPow 53
  · by_cases hb : b < twoPow 53
    · rw [hsmall a ha, hsmall b hb]
    · have hlarge := le_nearestNat (Nat.le_of_not_lt hb)
      rw [hsmall a ha]
      omega
  · have hlarge := le_nearestNat (Nat.le_of_not_lt ha)
    have hb := h.resolve_left ha
    rw [hsmall b hb]
    omega

end SceneQuiz.Decimal
