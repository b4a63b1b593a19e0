import Mathlib.Data.List.TakeWhile
import SceneQuiz.Token.Lexer
/-!
Numbers as the lexer takes them up.  A text is a numeral if the lexer takes all
of it up as one number; it then does so before any character that could not
continue a number, and whatever it takes up as a number is a numeral.
-/

namespace SceneQuiz

namespace Lexer

/-- A number starts here. -/
def startsNumber (c : Char) (rest : List Char) : Bool :=
  c.isDigit || (c == '.' && (rest.head?.map Char.isDigit).getD false)

end Lexer

/-- The lexer takes up the whole text as one number. -/
def isNumeral (text : String) : Bool :=
  match text.toList with
  | [] => false
  | first :: rest =>
      Lexer.startsNumber first rest &&
        Lexer.spanNumber first rest == (first :: rest, [])

namespace Lexer

/-- No number goes on with `rest`. -/
def EndsNumber (rest : List Char) : Prop :=
  ∀ c ∈ rest.head?, c.isDigit = false ∧ c ≠ '.' ∧ c ≠ 'e' ∧ c ≠ 'E'

/-- A point and the digits after it, or nothing. -/
def IsFraction (cs : List Char) : Prop :=
  cs = [] ∨ ∃ d ds, cs = '.' :: d :: ds ∧ ∀ c ∈ d :: ds, c.isDigit = true

/-- The mark of an exponent, its sign and its digits, or nothing. -/
def IsExponent (cs : List Char) : Prop :=
  cs = [] ∨ ∃ mark sign d ds, cs = mark :: (sign ++ d :: ds) ∧
    (mark = 'e' ∨ mark = 'E') ∧ (sign = [] ∨ sign = ['+'] ∨ sign = ['-']) ∧
    ∀ c ∈ d :: ds, c.isDigit = true

theorem endsNumber_nil : EndsNumber [] := by
  simp [EndsNumber]

/-- Characters of one kind before one that is not of it. -/
theorem span_append {p : Char → Bool} {text rest : List Char}
    (htext : ∀ c ∈ text, p c = true) (hrest : ∀ c ∈ rest.head?, p c = false) :
    ((text ++ rest).takeWhile p, (text ++ rest).dropWhile p) = (text, rest) := by
  rw [List.takeWhile_append_of_pos htext, List.dropWhile_append_of_pos htext]
  rcases rest with _ | ⟨c, rest⟩
  · simp
  · simp [hrest c rfl]

theorem spanDigits_append {digits rest : List Char}
    (hdigits : ∀ c ∈ digits, c.isDigit = true)
    (hrest : ∀ c ∈ rest.head?, c.isDigit = false) :
    spanDigits (digits ++ rest) = (digits, rest) :=
  span_append hdigits hrest

theorem spanDigits_all (cs : List Char) :
    ∀ c ∈ (spanDigits cs).1, c.isDigit = true :=
  fun _ hc => List.mem_takeWhile_imp hc

theorem spanDigits_split (cs : List Char) :
    (spanDigits cs).1 ++ (spanDigits cs).2 = cs :=
  List.takeWhile_append_dropWhile

/-- Digits at the front start with the first of them. -/
theorem spanDigits_cons {c : Char} (hc : c.isDigit = true) (cs : List Char) :
    ∃ digits, (spanDigits (c :: cs)).1 = c :: digits := by
  refine ⟨cs.takeWhile Char.isDigit, ?_⟩
  simp [spanDigits, hc]

theorem spanFraction_spec (cs : List Char) :
    IsFraction (spanFraction cs).1 ∧
      (spanFraction cs).1 ++ (spanFraction cs).2 = cs := by
  unfold spanFraction
  split
  · rename_i c rest
    split
    · rename_i hc
      obtain ⟨digits, hdigits⟩ := spanDigits_cons hc rest
      have hall := spanDigits_all (c :: rest)
      have hsplit := spanDigits_split (c :: rest)
      refine ⟨.inr ⟨c, digits, congrArg ('.' :: ·) hdigits, ?_⟩,
        congrArg ('.' :: ·) hsplit⟩
      rw [← hdigits]
      exact hall
    · exact ⟨.inl rfl, rfl⟩
  · exact ⟨.inl rfl, rfl⟩

theorem spanFraction_append {cs rest : List Char} (hcs : IsFraction cs)
    (hrest : ∀ c ∈ rest.head?, c.isDigit = false ∧ c ≠ '.') :
    spanFraction (cs ++ rest) = (cs, rest) := by
  rcases hcs with rfl | ⟨d, ds, rfl, hdigits⟩
  · rcases rest with _ | ⟨c, rest⟩
    · rfl
    · have hc := (hrest c rfl).2
      rw [List.nil_append, spanFraction]
      intro d tail hcons
      exact absurd (List.cons.inj hcons).1 hc
  · have hd := hdigits d List.mem_cons_self
    have hspan := spanDigits_append hdigits fun c hc => (hrest c hc).1
    simp only [List.cons_append] at hspan ⊢
    rw [spanFraction, if_pos hd, hspan]

theorem spanPower_spec (lead cs : List Char) :
    ((spanPower lead cs).1 = [] ∧ (spanPower lead cs).2 = lead ++ cs) ∨
      ∃ d ds, (spanPower lead cs).1 = lead ++ d :: ds ∧
        (∀ c ∈ d :: ds, c.isDigit = true) ∧
        d :: ds ++ (spanPower lead cs).2 = cs := by
  unfold spanPower
  split
  · rename_i c rest
    split
    · rename_i hc
      obtain ⟨digits, hdigits⟩ := spanDigits_cons hc rest
      have hall := spanDigits_all (c :: rest)
      have hsplit := spanDigits_split (c :: rest)
      rw [hdigits] at hall hsplit
      exact .inr ⟨c, digits, congrArg (lead ++ ·) hdigits, hall, hsplit⟩
    · exact .inl ⟨rfl, rfl⟩
  · exact .inl ⟨rfl, by simp⟩

theorem spanExponent_spec (cs : List Char) :
    IsExponent (spanExponent cs).1 ∧
      (spanExponent cs).1 ++ (spanExponent cs).2 = cs := by
  have hpower : ∀ (mark : Char) (sign digits : List Char),
      (mark = 'e' ∨ mark = 'E') → (sign = [] ∨ sign = ['+'] ∨ sign = ['-']) →
      IsExponent (spanPower (mark :: sign) digits).1 ∧
        (spanPower (mark :: sign) digits).1 ++
          (spanPower (mark :: sign) digits).2 = mark :: (sign ++ digits) := by
    intro mark sign digits hmark hsign
    rcases spanPower_spec (mark :: sign) digits with
      ⟨htaken, hleft⟩ | ⟨d, ds, htaken, hdigits, hsplit⟩
    · rw [htaken, hleft]
      exact ⟨.inl rfl, rfl⟩
    · rw [htaken]
      refine ⟨.inr ⟨mark, sign, d, ds, rfl, hmark, hsign, hdigits⟩, ?_⟩
      rw [List.append_assoc, hsplit, List.cons_append]
  unfold spanExponent
  split
  · split
    · rename_i mark rest hmark
      split
      · exact hpower mark ['+'] _ hmark (.inr (.inl rfl))
      · exact hpower mark ['-'] _ hmark (.inr (.inr rfl))
      · exact hpower mark [] rest hmark (.inl rfl)
    · exact ⟨.inl rfl, rfl⟩
  · exact ⟨.inl rfl, rfl⟩

theorem spanExponent_append {cs rest : List Char} (hcs : IsExponent cs)
    (hrest : EndsNumber rest) : spanExponent (cs ++ rest) = (cs, rest) := by
  rcases hcs with rfl | ⟨mark, sign, d, ds, rfl, hmark, hsign, hdigits⟩
  · rcases rest with _ | ⟨c, rest⟩
    · rfl
    · have hc := hrest c rfl
      rw [List.nil_append, spanExponent.eq_def]
      dsimp only
      rw [if_neg]
      rintro (rfl | rfl)
      · exact hc.2.2.1 rfl
      · exact hc.2.2.2 rfl
  · have hd := hdigits d List.mem_cons_self
    have hspan : ∀ lead, spanPower lead (d :: ds ++ rest) =
        (lead ++ d :: ds, rest) := by
      intro lead
      have hdigitsSpan := spanDigits_append hdigits fun c hc => (hrest c hc).1
      simp only [List.cons_append] at hdigitsSpan ⊢
      rw [spanPower, if_pos hd, hdigitsSpan]
    rw [List.cons_append, List.append_assoc, spanExponent.eq_def]
    dsimp only
    rw [if_pos hmark]
    rcases hsign with rfl | rfl | rfl
    · split
      · rename_i tail hcons
        rw [(List.cons.inj hcons).1] at hd
        exact absurd hd (by decide)
      · rename_i tail hcons
        rw [(List.cons.inj hcons).1] at hd
        exact absurd hd (by decide)
      · exact hspan [mark]
    · exact hspan [mark, '+']
    · exact hspan [mark, '-']

/-- The parts of a number: digits, a fraction unless it starts with its point,
and an exponent. -/
structure NumberParts (first : Char) (whole fraction exponent : List Char) :
    Prop where
  isDigits : ∀ c ∈ whole, c.isDigit = true
  isFraction : IsFraction fraction
  once : first = '.' → fraction = []
  isExponent : IsExponent exponent

theorem spanNumber_parts (first : Char) (cs : List Char) :
    ∃ fraction exponent,
      NumberParts first (spanDigits cs).1 fraction exponent ∧
      (spanNumber first cs).1 =
        first :: ((spanDigits cs).1 ++ fraction ++ exponent) ∧
      (spanDigits cs).1 ++ fraction ++ exponent ++ (spanNumber first cs).2 =
        cs := by
  have hwhole := spanDigits_all cs
  have hcs := spanDigits_split cs
  by_cases hfirst : first = '.'
  · obtain ⟨hexponent, hleft⟩ := spanExponent_spec (spanDigits cs).2
    refine ⟨[], (spanExponent (spanDigits cs).2).1,
      ⟨hwhole, .inl rfl, fun _ => rfl, hexponent⟩, ?_, ?_⟩
    · simp [spanNumber, hfirst]
    · simp only [spanNumber, if_pos hfirst, List.append_nil]
      rw [List.append_assoc, hleft, hcs]
  · obtain ⟨hfraction, hmiddle⟩ := spanFraction_spec (spanDigits cs).2
    obtain ⟨hexponent, hleft⟩ :=
      spanExponent_spec (spanFraction (spanDigits cs).2).2
    refine ⟨(spanFraction (spanDigits cs).2).1,
      (spanExponent (spanFraction (spanDigits cs).2).2).1,
      ⟨hwhole, hfraction, fun h => absurd h hfirst, hexponent⟩, ?_, ?_⟩
    · simp [spanNumber, hfirst]
    · simp only [spanNumber, if_neg hfirst]
      rw [List.append_assoc, hleft, List.append_assoc, hmiddle, hcs]

/-- An exponent starts with neither a digit nor a point, and what ends a number
does not either. -/
theorem head_exponent_append {exponent rest : List Char}
    (hexponent : IsExponent exponent) (hrest : EndsNumber rest) :
    ∀ c ∈ (exponent ++ rest).head?, c.isDigit = false ∧ c ≠ '.' := by
  intro c hc
  rcases hexponent with rfl | ⟨mark, sign, d, ds, rfl, hmark, -, -⟩
  · exact ⟨(hrest c hc).1, (hrest c hc).2.1⟩
  · simp only [List.cons_append, List.head?_cons, Option.mem_some_iff] at hc
    subst hc
    rcases hmark with rfl | rfl <;> decide

theorem spanNumber_append {first : Char}
    {whole fraction exponent rest : List Char}
    (h : NumberParts first whole fraction exponent) (hrest : EndsNumber rest) :
    spanNumber first (whole ++ fraction ++ exponent ++ rest) =
      (first :: (whole ++ fraction ++ exponent), rest) := by
  have htail := head_exponent_append h.isExponent hrest
  have hhead : ∀ c ∈ (fraction ++ (exponent ++ rest)).head?,
      c.isDigit = false := by
    intro c hc
    rcases h.isFraction with hfraction | ⟨d, ds, hfraction, -⟩
    · rw [hfraction] at hc
      exact (htail c hc).1
    · rw [hfraction, List.cons_append, List.head?_cons,
        Option.mem_some_iff] at hc
      rw [← hc]
      decide
  have hdigits := spanDigits_append h.isDigits hhead
  have hexponent := spanExponent_append h.isExponent hrest
  have hassoc : whole ++ fraction ++ exponent ++ rest =
      whole ++ (fraction ++ (exponent ++ rest)) := by
    simp only [List.append_assoc]
  rw [hassoc, spanNumber, hdigits]
  by_cases hfirst : first = '.'
  · simp only [if_pos hfirst, h.once hfirst, List.nil_append, hexponent]
    simp
  · simp only [if_neg hfirst, spanFraction_append h.isFraction htail, hexponent]
    simp

end Lexer

/-- The digits of a number are a numeral. -/
theorem isNumeral_natCast (n : Nat) : isNumeral (toString n) = true := by
  have htext : (toString n).toList = Nat.toDigits 10 n := Nat.toList_repr
  have hdigits : ∀ c ∈ Nat.toDigits 10 n, c.isDigit = true := fun c hc =>
    Nat.isDigit_of_mem_toDigits (by decide) (by decide) hc
  rw [isNumeral, htext]
  rcases hlist : Nat.toDigits 10 n with _ | ⟨first, rest⟩
  · exact absurd hlist Nat.toDigits_ne_nil
  · rw [hlist, List.forall_mem_cons] at hdigits
    have hspan : Lexer.spanDigits (rest ++ []) = (rest, []) :=
      Lexer.spanDigits_append hdigits.2 nofun
    rw [List.append_nil] at hspan
    have hpoint : first ≠ '.' := by
      rintro rfl
      exact absurd hdigits.1 (by decide)
    simp [Lexer.startsNumber, hdigits.1, Lexer.spanNumber, hspan, hpoint, Lexer.spanFraction,
      Lexer.spanExponent]

/-- What the lexer takes up as a number is a numeral. -/
theorem isNumeral_of_spanNumber {first : Char} {cs : List Char}
    (hstart : Lexer.startsNumber first cs = true) :
    isNumeral (String.ofList (Lexer.spanNumber first cs).1) = true := by
  obtain ⟨fraction, exponent, hparts, htaken, -⟩ :=
    Lexer.spanNumber_parts first cs
  have hspan := Lexer.spanNumber_append hparts Lexer.endsNumber_nil
  rw [List.append_nil] at hspan
  rw [isNumeral, htaken, String.toList_ofList]
  simp only [hspan, beq_self_eq_true, Bool.and_true]
  unfold Lexer.startsNumber at hstart ⊢
  rcases cs with _ | ⟨c, cs⟩
  · exact Bool.or_eq_true_iff.mpr (.inl (by simpa using hstart))
  · cases hfirst : first.isDigit with
    | true => simp
    | false =>
        simp only [hfirst, Bool.false_or, Bool.and_eq_true, List.head?_cons,
          Option.map_some, Option.getD_some] at hstart
        obtain ⟨digits, hdigits⟩ := Lexer.spanDigits_cons hstart.2 cs
        simp [hdigits, hstart]

/-- A numeral is taken up as one number before anything that ends a number. -/
theorem spanNumber_of_isNumeral {first : Char} {cs rest : List Char}
    (hnumeral : isNumeral (String.ofList (first :: cs)) = true)
    (hrest : Lexer.EndsNumber rest) :
    Lexer.startsNumber first (cs ++ rest) = true ∧
      Lexer.spanNumber first (cs ++ rest) = (first :: cs, rest) := by
  rw [isNumeral, String.toList_ofList] at hnumeral
  simp only [Bool.and_eq_true, beq_iff_eq] at hnumeral
  obtain ⟨hstart, hspan⟩ := hnumeral
  obtain ⟨fraction, exponent, hparts, -, hcs⟩ :=
    Lexer.spanNumber_parts first cs
  rw [hspan, List.append_nil] at hcs
  constructor
  · unfold Lexer.startsNumber at hstart ⊢
    rcases cs with _ | ⟨c, cs⟩
    · simp only [List.head?_nil, Option.map_none, Option.getD_none,
        Bool.and_false, Bool.or_false] at hstart
      simp [hstart]
    · exact hstart
  · have hall := Lexer.spanNumber_append hparts hrest
    rw [hcs] at hall
    exact hall

end SceneQuiz
