import SceneQuiz.Proofs.Token.Numeral
/-!
The parts of a text that a step takes up as a name, a number, a string or a comment.
A part that ends before the end of a text is the same part whatever comes after the
text.
-/

namespace SceneQuiz

namespace Lexer

variable {cs more : List Char}

/-- What takes up nothing of a text leaves all of it. -/
theorem eq_nil_of_split {one two : List Char} (hsplit : one ++ two = more)
    (hrest : more.length ≤ two.length) : one = [] ∧ two = more := by
  have hnil : one = [] := by
    have hlength := congrArg List.length hsplit
    rw [List.length_append] at hlength
    exact List.eq_nil_of_length_eq_zero (by omega)
  rw [hnil] at hsplit
  exact ⟨hnil, hsplit⟩

/-- What takes up a character before a text, and no character of it, leaves the
text. -/
theorem not_cons_split {one two : List Char} {c : Char} (hsplit : c :: one ++ two = more)
    (hrest : more.length ≤ two.length) : False :=
  absurd (eq_nil_of_split hsplit hrest).1 (List.cons_ne_nil c one)

/-- What stops before a text takes up the same of what comes before it. -/
theorem within_of_split {one two : List Char} (hsplit : one ++ two = cs ++ more)
    (hrest : more.length ≤ two.length) : ∃ left, cs = one ++ left ∧ two = left ++ more := by
  obtain ⟨left, hcs, htwo⟩ | ⟨beyond, hone, hmore⟩ := List.append_eq_append_iff.mp hsplit
  · exact ⟨left, hcs, htwo⟩
  · obtain ⟨rfl, rfl⟩ := eq_nil_of_split hmore.symm hrest
    exact ⟨[], by rw [hone, List.append_nil, List.append_nil], rfl⟩

/-- What does not take up a character stops before it. -/
theorem length_le_of_split {one two : List Char} {b : Char} (hsplit : one ++ two = cs ++ b :: more)
    (hb : b ∉ one) : (b :: more).length ≤ two.length := by
  obtain ⟨left, -, rfl⟩ | ⟨beyond, rfl, hmore⟩ := List.append_eq_append_iff.mp hsplit
  · rw [List.length_append]
    exact Nat.le_add_left _ _
  · cases beyond with
    | nil => exact Nat.le_of_eq (congrArg List.length hmore)
    | cons d beyond =>
        rw [(List.cons.inj hmore).1] at hb
        exact absurd (List.mem_append_right cs List.mem_cons_self) hb

theorem span_within {p : Char → Bool} (h : more.length ≤ ((cs ++ more).dropWhile p).length) :
    ((cs ++ more).takeWhile p, (cs ++ more).dropWhile p) =
      (cs.takeWhile p, cs.dropWhile p ++ more) := by
  induction cs with
  | nil =>
      obtain ⟨htaken, hleft⟩ := eq_nil_of_split
        (List.takeWhile_append_dropWhile (p := p) (l := more)) h
      exact Prod.ext htaken hleft
  | cons c cs ih =>
      rw [List.cons_append, List.dropWhile_cons] at h
      simp only [List.cons_append, List.takeWhile_cons, List.dropWhile_cons]
      by_cases hc : p c = true
      · rw [if_pos hc] at h
        obtain ⟨htaken, hleft⟩ := Prod.mk.inj (ih h)
        simp only [if_pos hc, htaken, hleft]
      · simp only [if_neg hc, List.cons_append]

theorem spanDigits_within (h : more.length ≤ (spanDigits (cs ++ more)).2.length) :
    spanDigits (cs ++ more) = ((spanDigits cs).1, (spanDigits cs).2 ++ more) :=
  span_within h

theorem spanName_within (h : more.length ≤ (spanName (cs ++ more)).2.length) :
    spanName (cs ++ more) = ((spanName cs).1, (spanName cs).2 ++ more) :=
  span_within h

theorem spanFraction_length_le (cs : List Char) : (spanFraction cs).2.length ≤ cs.length := by
  rw [← congrArg List.length (spanFraction_spec cs).2, List.length_append]
  exact Nat.le_add_left _ _

theorem spanExponent_length_le (cs : List Char) : (spanExponent cs).2.length ≤ cs.length := by
  rw [← congrArg List.length (spanExponent_spec cs).2, List.length_append]
  exact Nat.le_add_left _ _

/-- A fraction starts with its point. -/
theorem spanFraction_of_ne {c : Char} (hc : c ≠ '.') (cs : List Char) :
    spanFraction (c :: cs) = ([], c :: cs) := by
  rw [spanFraction]
  intro d tail hcons
  exact absurd (List.cons.inj hcons).1 hc

theorem spanFraction_within (h : more.length ≤ (spanFraction (cs ++ more)).2.length) :
    spanFraction (cs ++ more) = ((spanFraction cs).1, (spanFraction cs).2 ++ more) := by
  cases cs with
  | nil =>
      obtain ⟨htaken, hleft⟩ := eq_nil_of_split (spanFraction_spec more).2 h
      exact Prod.ext htaken hleft
  | cons c cs =>
      by_cases hc : c = '.'
      · subst hc
        cases cs with
        | nil =>
            obtain ⟨hfraction, hsplit⟩ := spanFraction_spec ('.' :: more)
            rcases hfraction with hnone | ⟨d, ds, hsome, -⟩
            · rw [hnone] at hsplit
              exact Prod.ext hnone hsplit
            · rw [hsome] at hsplit
              exact (not_cons_split (List.cons.inj hsplit).2 h).elim
        | cons d cs =>
            by_cases hd : d.isDigit = true
            · rw [List.cons_append, List.cons_append, spanFraction, if_pos hd] at h
              have hdigits := @spanDigits_within (d :: cs) more h
              rw [List.cons_append] at hdigits
              rw [List.cons_append, List.cons_append, spanFraction, if_pos hd, spanFraction,
                if_pos hd, hdigits]
            · rw [List.cons_append, List.cons_append, spanFraction, if_neg hd, spanFraction,
                if_neg hd]
              rfl
      · rw [List.cons_append, spanFraction_of_ne hc, spanFraction_of_ne hc]
        rfl

theorem spanPower_within (lead : List Char)
    (h : more.length ≤ (spanPower lead (cs ++ more)).2.length) :
    spanPower lead (cs ++ more) = ((spanPower lead cs).1, (spanPower lead cs).2 ++ more) := by
  cases cs with
  | nil =>
      rcases spanPower_spec lead more with ⟨htaken, hleft⟩ | ⟨d, ds, -, -, hsplit⟩
      · exact Prod.ext htaken hleft
      · exact (not_cons_split hsplit h).elim
  | cons c cs =>
      rw [List.cons_append, spanPower] at h
      rw [List.cons_append, spanPower, spanPower]
      by_cases hc : c.isDigit = true
      · rw [if_pos hc] at h
        have hdigits := @spanDigits_within (c :: cs) more h
        rw [List.cons_append] at hdigits
        rw [if_pos hc, if_pos hc, hdigits]
      · rw [if_neg hc, if_neg hc, ← List.cons_append, List.append_assoc]

/-- The sign of an exponent is looked for before its digits. -/
theorem spanExponent_cons {mark : Char} (hmark : mark = 'e' ∨ mark = 'E') (d : Char)
    (cs : List Char) :
    spanExponent (mark :: d :: cs) =
      if d = '+' then spanPower [mark, '+'] cs
      else if d = '-' then spanPower [mark, '-'] cs
      else spanPower [mark] (d :: cs) := by
  rw [spanExponent.eq_def]
  dsimp only
  rw [if_pos hmark]
  by_cases hplus : d = '+'
  · subst hplus
    rw [if_pos rfl]
    rfl
  · by_cases hminus : d = '-'
    · subst hminus
      rw [if_neg (by decide), if_pos rfl]
      rfl
    · rw [if_neg hplus, if_neg hminus]
      split
      · next hcons => exact absurd (List.cons.inj hcons).1 hplus
      · next hcons => exact absurd (List.cons.inj hcons).1 hminus
      · rfl

theorem spanExponent_within (h : more.length ≤ (spanExponent (cs ++ more)).2.length) :
    spanExponent (cs ++ more) = ((spanExponent cs).1, (spanExponent cs).2 ++ more) := by
  cases cs with
  | nil =>
      obtain ⟨htaken, hleft⟩ := eq_nil_of_split (spanExponent_spec more).2 h
      exact Prod.ext htaken hleft
  | cons mark cs =>
      by_cases hmark : mark = 'e' ∨ mark = 'E'
      · cases cs with
        | nil =>
            have halone : spanExponent [mark] = ([], [mark]) := by
              rw [spanExponent.eq_def]
              exact if_pos hmark
            obtain ⟨hexponent, hsplit⟩ := spanExponent_spec (mark :: more)
            rcases hexponent with hnone | ⟨_, sign, d, ds, hsome, -⟩
            · rw [hnone] at hsplit
              rw [halone]
              exact Prod.ext hnone hsplit
            · rw [hsome] at hsplit
              have hrest := (List.cons.inj hsplit).2
              obtain ⟨hnil, -⟩ := eq_nil_of_split hrest h
              exact absurd hnil (by simp)
        | cons d cs =>
            rw [List.cons_append, List.cons_append, spanExponent_cons hmark] at h
            rw [List.cons_append, List.cons_append, spanExponent_cons hmark,
              spanExponent_cons hmark]
            split
            · next hplus =>
                rw [if_pos hplus] at h
                exact spanPower_within _ h
            · next hplus =>
                rw [if_neg hplus] at h
                split
                · next hminus =>
                    rw [if_pos hminus] at h
                    exact spanPower_within _ h
                · next hminus =>
                    rw [if_neg hminus] at h
                    exact @spanPower_within (d :: cs) more _ h
      · have hnone : ∀ rest, spanExponent (mark :: rest) = ([], mark :: rest) := by
          intro rest
          rw [spanExponent.eq_def]
          exact if_neg hmark
        rw [List.cons_append, hnone, hnone]
        rfl

theorem spanNumber_within (first : Char)
    (h : more.length ≤ (spanNumber first (cs ++ more)).2.length) :
    spanNumber first (cs ++ more) = ((spanNumber first cs).1, (spanNumber first cs).2 ++ more) := by
  unfold spanNumber at h ⊢
  by_cases hpoint : first = '.'
  · simp only [if_pos hpoint] at h ⊢
    have hdigits := spanDigits_within (Nat.le_trans h (spanExponent_length_le _))
    rw [hdigits] at h ⊢
    rw [spanExponent_within h]
  · simp only [if_neg hpoint] at h ⊢
    have hleft := Nat.le_trans h (spanExponent_length_le _)
    have hdigits := spanDigits_within (Nat.le_trans hleft (spanFraction_length_le _))
    rw [hdigits] at h hleft ⊢
    rw [spanFraction_within hleft] at h ⊢
    rw [spanExponent_within h]

theorem spanString_split (cs : List Char) : (spanString cs).2.1 ++ (spanString cs).2.2 = cs := by
  fun_induction spanString cs with
  | case1 => rfl
  | case2 => rfl
  | case3 rest _ ih | case4 rest _ ih =>
      exact congrArg (fun tail => '\\' :: _ :: tail) ih
  | case5 c rest _ _ _ _ ih => exact congrArg (c :: ·) ih

theorem spanComment_split (cs : List Char) :
    (spanComment cs).2.1 ++ (spanComment cs).2.2 = cs := by
  fun_induction spanComment cs with
  | case1 => rfl
  | case2 => rfl
  | case3 c rest _ _ ih => exact congrArg (c :: ·) ih

/-- A string that is closed ends where it ends. -/
theorem spanString_append (h : (spanString cs).1.2 = true) :
    spanString (cs ++ more) = ((spanString cs).1, (spanString cs).2.1,
      (spanString cs).2.2 ++ more) := by
  fun_induction spanString cs with
  | case1 => cases h
  | case2 => rfl
  | case3 rest _ ih =>
      rw [List.cons_append, List.cons_append, spanString, ih h]
  | case4 rest _ ih =>
      rw [List.cons_append, List.cons_append, spanString, ih h]
  | case5 c rest hquote hescaped hslash _ ih =>
      cases rest with
      | nil => cases h
      | cons d rest =>
          rw [List.cons_append, spanString.eq_5 _ _ hquote, ih h]
          · rintro _ hc hcons
            exact hescaped rest hc (congrArg (· :: rest) (List.cons.inj hcons).1)
          · rintro _ hc hcons
            exact hslash rest hc (congrArg (· :: rest) (List.cons.inj hcons).1)

theorem spanComment_append (h : (spanComment cs).1 = true) :
    spanComment (cs ++ more) = (true, (spanComment cs).2.1, (spanComment cs).2.2 ++ more) := by
  fun_induction spanComment cs with
  | case1 => cases h
  | case2 => rfl
  | case3 c rest hmark _ ih =>
      cases rest with
      | nil => cases h
      | cons d rest =>
          rw [List.cons_append, spanComment.eq_3, ih h]
          rintro _ hc hcons
          exact hmark rest hc (congrArg (· :: rest) (List.cons.inj hcons).1)

/-- What a closed string takes up is a closed string. -/
theorem spanString_taken (h : (spanString cs).1.2 = true) :
    (spanString (spanString cs).2.1).1.2 = true := by
  fun_induction spanString cs with
  | case1 => cases h
  | case2 => rfl
  | case3 rest tail ih | case4 rest tail ih =>
      rw [spanString]
      exact ih h
  | case5 c rest hquote hescaped hslash tail ih =>
      have hrest : tail.2.1 ++ tail.2.2 = rest := spanString_split rest
      rw [spanString.eq_5 _ _ hquote]
      · exact ih h
      · intro body hc hbody
        rw [hbody, List.cons_append] at hrest
        exact hescaped _ hc hrest.symm
      · intro body hc hbody
        rw [hbody, List.cons_append] at hrest
        exact hslash _ hc hrest.symm

theorem spanComment_taken (h : (spanComment cs).1 = true) :
    (spanComment (spanComment cs).2.1).1 = true := by
  fun_induction spanComment cs with
  | case1 => cases h
  | case2 => rfl
  | case3 c rest hmark tail ih =>
      have hrest : tail.2.1 ++ tail.2.2 = rest := spanComment_split rest
      rw [spanComment.eq_3]
      · exact ih h
      · intro body hc hbody
        rw [hbody, List.cons_append] at hrest
        exact hmark _ hc hrest.symm

/-- A string that is closed before the end of a text is closed without what comes
after. -/
theorem spanString_within (h : (spanString (cs ++ more)).1.2 = true)
    (hrest : more.length ≤ (spanString (cs ++ more)).2.2.length) :
    (spanString cs).1.2 = true := by
  have htaken := spanString_taken h
  obtain ⟨left, hcs, -⟩ := within_of_split (spanString_split (cs ++ more)) hrest
  have happend := @spanString_append _ left htaken
  rw [← hcs] at happend
  rw [happend]
  exact htaken

theorem spanComment_within (h : (spanComment (cs ++ more)).1 = true)
    (hrest : more.length ≤ (spanComment (cs ++ more)).2.2.length) :
    (spanComment cs).1 = true := by
  have htaken := spanComment_taken h
  obtain ⟨left, hcs, -⟩ := within_of_split (spanComment_split (cs ++ more)) hrest
  have happend := @spanComment_append _ left htaken
  rw [← hcs] at happend
  rw [happend]

/-- A character that no name and no number goes on with, and no longer operator
ends with. -/
def separates (b : Char) : Bool :=
  b == ';' || b == '\n'

theorem separates_cases {b : Char} (hb : separates b = true) : b = ';' ∨ b = '\n' := by
  simpa [separates] using hb

theorem spanName_before {b : Char} (hb : separates b = true) (cs tail : List Char) :
    spanName (cs ++ b :: tail) = ((spanName cs).1, (spanName cs).2 ++ b :: tail) := by
  refine spanName_within (length_le_of_split List.takeWhile_append_dropWhile fun hmem => ?_)
  have hname : continuesName b = true := List.mem_takeWhile_imp hmem
  rcases separates_cases hb with rfl | rfl <;> exact absurd hname (by decide)

/-- The characters of a number after its first one. -/
theorem NumberParts.mem {first : Char} {whole fraction exponent : List Char}
    (h : NumberParts first whole fraction exponent) {c : Char}
    (hc : c ∈ whole ++ fraction ++ exponent) :
    c.isDigit = true ∨ c ∈ ['.', 'e', 'E', '+', '-'] := by
  rw [List.mem_append, List.mem_append] at hc
  rcases hc with (hc | hc) | hc
  · exact .inl (h.isDigits c hc)
  · rcases h.isFraction with rfl | ⟨d, ds, rfl, hdigits⟩
    · cases hc
    · rcases List.mem_cons.mp hc with rfl | hc
      · exact .inr (by decide)
      · exact .inl (hdigits c hc)
  · rcases h.isExponent with rfl | ⟨mark, sign, d, ds, rfl, hmark, hsign, hdigits⟩
    · cases hc
    · rw [List.mem_cons, List.mem_append] at hc
      rcases hc with rfl | hc | hc
      · exact .inr (by rcases hmark with rfl | rfl <;> decide)
      · exact .inr (by
          rcases hsign with rfl | rfl | rfl
          · cases hc
          · rw [List.mem_singleton.mp hc]
            decide
          · rw [List.mem_singleton.mp hc]
            decide)
      · exact .inl (hdigits c hc)

theorem spanNumber_before {b : Char} (hb : separates b = true) (first : Char)
    (cs tail : List Char) :
    spanNumber first (cs ++ b :: tail) =
      ((spanNumber first cs).1, (spanNumber first cs).2 ++ b :: tail) := by
  obtain ⟨fraction, exponent, hparts, -, hsplit⟩ := spanNumber_parts first (cs ++ b :: tail)
  refine spanNumber_within first (length_le_of_split hsplit fun hmem => ?_)
  have hnumber := hparts.mem hmem
  rcases separates_cases hb with rfl | rfl <;> exact absurd hnumber (by decide)

theorem startsNumber_before {b : Char} (hb : separates b = true) (c : Char)
    (cs tail : List Char) : startsNumber c (cs ++ b :: tail) = startsNumber c cs := by
  rcases separates_cases hb with rfl | rfl <;> cases cs <;> simp [startsNumber]

/-- A number starts with what it takes up. -/
theorem startsNumber_within {c : Char} (hstart : startsNumber c (cs ++ more) = true)
    (hrest : more.length ≤ (spanNumber c (cs ++ more)).2.length) : startsNumber c cs = true := by
  cases cs with
  | cons d cs => exact hstart
  | nil =>
      by_cases hc : c.isDigit = true
      · rw [startsNumber, hc]
        rfl
      · cases more with
        | nil => exact hstart
        | cons d more =>
            have hd : d.isDigit = true := by
              simp only [startsNumber, Bool.or_eq_true, Bool.and_eq_true] at hstart
              exact (hstart.resolve_left hc).2
            obtain ⟨fraction, exponent, -, -, hsplit⟩ := spanNumber_parts c (d :: more)
            obtain ⟨digits, hdigits⟩ := spanDigits_cons hd more
            rw [hdigits] at hsplit
            exact (not_cons_split hsplit hrest).elim

end Lexer

end SceneQuiz
