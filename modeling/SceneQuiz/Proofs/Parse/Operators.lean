import SceneQuiz.Proofs.Parse.Follow
/-!
Reading operands and operators at their own levels: brackets with their items,
signs, operators between operands that group to the left, to the right or not
at all, and calls, indices and factorials.
-/

namespace SceneQuiz.Parse

variable {nesting : Nat}

/-- At its own level the reader takes the lexemes of `e` and gives its
reading. -/
def Owns (e : Expr) : Prop :=
  ∀ fuel nesting rest, 16 * e.spell.length + 14 ≤ fuel + e.level.rank →
    follow (ahead rest) < e.level.rank →
    (e.isControl = true → follow (ahead rest) = 0) →
    readAt fuel nesting e.level (e.spell ++ rest) =
      (e.reading nesting).map (·, rest)

theorem owns_leaf {e : Expr} {l : Lexeme} (hlevel : e.level = .operand)
    (hspell : e.spell = [l])
    (hread : ∀ fuel nesting rest, readOperand (fuel + 1) nesting (l :: rest) =
      (e.reading nesting).map (·, rest)) : Owns e := by
  intro fuel nesting rest hfuel _ _
  have hrank : Level.operand.rank = 13 := rfl
  rw [hspell, hlevel, hrank] at hfuel
  obtain ⟨fuel, rfl⟩ : ∃ n, fuel = n + 2 :=
    ⟨fuel - 2, by simp only [List.length_singleton] at hfuel; omega⟩
  rw [hlevel, hspell]
  exact hread fuel nesting rest

theorem closing_rightParen : Closing .rightParen := ⟨rfl, rfl, by decide⟩

theorem closing_rightBracket : Closing .rightBracket := ⟨rfl, rfl, by decide⟩

theorem closing_rightBrace : Closing .rightBrace := ⟨rfl, rfl, by decide⟩

/-- A bracket with items, which `finish` makes an operand. -/
theorem owns_bracket {e : Expr} {items : List Expr} {l close : Lexeme}
    (finish : List Expr → Option Expr) (hclose : Closing close)
    (hitems : ∀ item ∈ items, Reads item) (hlevel : e.level = .operand)
    (hspell : e.spell = l :: (Expr.spellItems items ++ [close]))
    (hreading : ∀ nesting, e.reading nesting =
      (Expr.readingItems nesting items).bind finish)
    (hread : ∀ fuel nesting rest, readOperand (fuel + 1) nesting (l :: rest) =
      (readItems fuel nesting close rest).bind fun found =>
        (finish found.1).map (·, found.2)) :
    Owns e := by
  intro fuel nesting rest hfuel _ _
  have hrank : Level.operand.rank = 13 := rfl
  rw [hspell, hlevel, hrank] at hfuel
  simp only [List.length_cons, List.length_append, List.length_nil] at hfuel
  obtain ⟨fuel, rfl⟩ : ∃ n, fuel = n + 2 := ⟨fuel - 2, by omega⟩
  rw [hlevel, hspell, hreading]
  simp only [List.cons_append, List.append_assoc, List.nil_append]
  rw [readAt, hread, readItems_spell hclose hitems fuel nesting rest (by omega)]
  cases Expr.readingItems nesting items <;> rfl

theorem owns_list {items : List Expr} (hitems : ∀ item ∈ items, Reads item) :
    Owns (.list items) :=
  owns_bracket (fun found => some (.list found)) closing_rightBracket hitems rfl
    rfl (fun _ => rfl) fun _ _ _ => rfl

theorem owns_set {items : List Expr} (hitems : ∀ item ∈ items, Reads item) :
    Owns (.set items) :=
  owns_bracket (fun found => some (.set found)) closing_rightBrace hitems rfl
    rfl (fun _ => rfl) fun _ _ _ => rfl

theorem readingItems_length {items found : List Expr}
    (hfound : Expr.readingItems nesting items = some found) :
    found.length = items.length := by
  induction items generalizing found with
  | nil =>
      simp only [Expr.readingItems, Option.some.injEq] at hfound
      rw [← hfound]
  | cons item items ih =>
      simp only [Expr.readingItems, Option.bind_eq_bind,
        Option.bind_eq_some_iff, Option.some.injEq] at hfound
      obtain ⟨first, -, rest, hrest, rfl⟩ := hfound
      rw [List.length_cons, List.length_cons, ih hrest]

theorem owns_group {items : List Expr} (hitems : ∀ item ∈ items, Reads item)
    (hne : items ≠ []) : Owns (.group items) := by
  refine owns_bracket
    (fun found => if found.isEmpty then none else some (regroup found))
    closing_rightParen hitems rfl rfl ?_ ?_
  · intro nesting
    show (Expr.readingItems nesting items).bind (fun found => some (regroup found)) = _
    rcases hread : Expr.readingItems nesting items with _ | found
    · rfl
    · have hlength := readingItems_length hread
      rcases found with _ | ⟨first, found⟩
      · exact absurd (List.length_eq_zero_iff.mp hlength.symm) hne
      · rfl
  · intro fuel nesting rest
    show (readItems fuel nesting .rightParen rest).bind (fun found =>
      if found.1.isEmpty then none else some (regroup found.1, found.2)) = _
    congr 1
    funext found
    cases found.1.isEmpty <;> rfl

/-- An operator before its operand, at a level that reads the operand as
well. -/
theorem owns_unary {e operand : Expr} {l : Lexeme} (build : Expr → Expr)
    (hexpression : e.level ≠ .expression) (hspell : e.spell = l :: operand.spell)
    (hreading : ∀ nesting, e.reading nesting =
      (operand.reading nesting).bind fun found => some (build found))
    (hread : ∀ fuel nesting rest, readAt (fuel + 1) nesting e.level (l :: rest) =
      (readAt fuel nesting e.level rest).bind fun found =>
        some (build found.1, found.2))
    (hoperand : Reads operand) (hfits : operand.FitsAt e.level) : Owns e := by
  intro fuel nesting rest hfuel hfollow _
  have hbound := level_rank_le e.level
  rw [hspell, List.length_cons] at hfuel
  obtain ⟨fuel, rfl⟩ : ∃ n, fuel = n + 1 := ⟨fuel - 1, by omega⟩
  rw [hspell, List.cons_append, hread, hreading,
    hoperand.fitting hfits hexpression fuel nesting rest (by omega) hfollow]
  cases operand.reading nesting <;> rfl

theorem owns_neg {operand : Expr} (hoperand : Reads operand)
    (hfits : operand.FitsAt .sign) : Owns (.neg operand) :=
  owns_unary .neg (by simp [Expr.level]) rfl (fun _ => rfl) (fun _ _ _ => rfl)
    hoperand hfits

theorem owns_not {operand : Expr} (hoperand : Reads operand)
    (hfits : operand.FitsAt .negation) : Owns (.not operand) :=
  owns_unary .not (by simp [Expr.level]) rfl (fun _ => rfl) (fun _ _ _ => rfl)
    hoperand hfits

theorem owns_quote {operand : Expr} (hoperand : Reads operand)
    (hfits : operand.FitsAt .quotation) : Owns (.quote operand) :=
  owns_unary .quote (by simp [Expr.level]) rfl (fun _ => rfl)
    (fun _ _ _ => rfl) hoperand hfits

theorem follow_lexeme (op : BinOp) : follow op.lexeme = op.level.rank := by
  cases op <;> rfl

section Binary

variable {op : BinOp} {left right : Expr}

theorem length_binary (op : BinOp) (left right : Expr) : (Expr.binary op left right).spell.length =
    left.spell.length + right.spell.length + 1 := by
  simp only [Expr.spell, List.length_append, List.length_cons]
  omega

theorem owns_assignment (hop : op.level = .assignment) (hleft : Reads left)
    (hright : Reads right)
    (hfits : left.FitsAt op.operandLevels.1 ∧ right.FitsAt op.operandLevels.2) :
    Owns (.binary op left right) := by
  have hlevels : op.operandLevels = (.disjunction, .assignment) := by
    cases op <;> first | rfl | exact absurd hop (by decide)
  have hlexeme : assignment? op.lexeme = some op := by
    cases op <;> first | rfl | exact absurd hop (by decide)
  intro fuel nesting rest hfuel hfollow _
  rw [hlevels] at hfits
  have hlevel : (Expr.binary op left right).level = .assignment := hop
  have hrank : Level.assignment.rank = 2 := rfl
  rw [hlevel, hrank] at hfollow hfuel
  rw [length_binary] at hfuel
  obtain ⟨fuel, rfl⟩ : ∃ n, fuel = n + 1 := ⟨fuel - 1, by omega⟩
  have hfirst := hleft.fitting hfits.1 (by decide) fuel nesting
    (op.lexeme :: (right.spell ++ rest)) (by simp only [Level.rank]; omega)
    (by rw [ahead_cons, follow_lexeme, hop]; decide)
  have hsecond := hright.fitting hfits.2 (by decide) fuel nesting rest
    (by omega) hfollow
  rw [hlevel, Expr.spell, List.append_assoc, List.cons_append, readAt, hfirst,
    Expr.reading]
  cases left.reading nesting with
  | none => rfl
  | some first =>
      simp only [Option.map_some, Option.bind_eq_bind, Option.bind_some,
        ahead_cons, hlexeme, List.tail_cons, hsecond]
      cases right.reading nesting <;> rfl

theorem owns_comparison (hop : op.level = .comparison) (hleft : Reads left)
    (hright : Reads right)
    (hfits : left.FitsAt op.operandLevels.1 ∧ right.FitsAt op.operandLevels.2) :
    Owns (.binary op left right) := by
  have hlevels : op.operandLevels = (.sum, .sum) := by
    cases op <;> first | rfl | exact absurd hop (by decide)
  have hlexeme : comparison? op.lexeme = some op := by
    cases op <;> first | rfl | exact absurd hop (by decide)
  intro fuel nesting rest hfuel hfollow _
  rw [hlevels] at hfits
  have hlevel : (Expr.binary op left right).level = .comparison := hop
  have hrank : Level.comparison.rank = 6 := rfl
  rw [hlevel] at hfollow hfuel
  rw [hrank, length_binary] at hfuel
  obtain ⟨fuel, rfl⟩ : ∃ n, fuel = n + 1 := ⟨fuel - 1, by omega⟩
  have hfirst := hleft.fitting hfits.1 (by decide) fuel nesting
    (op.lexeme :: (right.spell ++ rest)) (by simp only [Level.rank]; omega)
    (by rw [ahead_cons, follow_lexeme, hop]; decide)
  have hsecond := hright.fitting hfits.2 (by decide) fuel nesting rest
    (by simp only [Level.rank]; omega) (Nat.lt_trans hfollow (by decide))
  rw [hlevel, Expr.spell, List.append_assoc, List.cons_append, readAt, hfirst,
    Expr.reading]
  cases left.reading nesting with
  | none => rfl
  | some first =>
      simp only [Option.map_some, Option.bind_eq_bind, Option.bind_some,
        ahead_cons, hlexeme, List.tail_cons, hsecond]
      cases right.reading nesting with
      | none => rfl
      | some second => simp [comparison?_of_follow hfollow]

/-- No lexeme continues a sign, so what follows a power follows its
exponent. -/
theorem follow_ne_sign (l : Lexeme) : follow l ≠ Level.sign.rank := by
  cases l with
  | word w => cases w <;> decide
  | _ => simp [follow, Level.rank]

theorem owns_power (hleft : Reads left) (hright : Reads right)
    (hfits : left.FitsAt .quotation ∧ right.FitsAt .sign) :
    Owns (.binary .pow left right) := by
  intro fuel nesting rest hfuel hfollow _
  have hlevel : (Expr.binary .pow left right).level = .power := rfl
  have hrank : Level.power.rank = 10 := rfl
  have hsign : Level.sign.rank = 9 := rfl
  have hne := follow_ne_sign (ahead rest)
  rw [hlevel, hrank] at hfollow hfuel
  rw [length_binary] at hfuel
  obtain ⟨fuel, rfl⟩ : ∃ n, fuel = n + 1 := ⟨fuel - 1, by omega⟩
  have hfirst := hleft.fitting hfits.1 (by decide) fuel nesting
    (BinOp.pow.lexeme :: (right.spell ++ rest))
    (by simp only [Level.rank]; omega) (by rw [ahead_cons]; decide)
  have hsecond := hright.fitting hfits.2 (by decide) fuel nesting rest
    (by omega) (by omega)
  rw [hlevel, Expr.spell, List.append_assoc, List.cons_append, readAt, hfirst,
    Expr.reading]
  cases left.reading nesting with
  | none => rfl
  | some first =>
      simp only [Option.map_some, Option.bind_eq_bind, Option.bind_some,
        ahead_cons, List.tail_cons, BinOp.lexeme, if_true, hsecond]
      cases right.reading nesting <;> rfl

/-- An operator that groups to the left leaves the reader after its right
operand, where the next operator of the level goes on. -/
theorem tail_binary (hop : op.level.isLeft = true) (hleft : Reads left)
    (hright : Reads right)
    (hfits : left.FitsAt op.operandLevels.1 ∧ right.FitsAt op.operandLevels.2)
    {fuel : Nat} {rest : List Lexeme}
    (hfuel : 16 * (Expr.binary op left right).spell.length + 14 ≤
      fuel + op.level.rank)
    (hfollow : follow (ahead rest) ≤ op.level.rank) :
    ∃ after, fuel ≤ after + 1 + (Expr.binary op left right).spell.length ∧
      readAt fuel nesting op.level ((Expr.binary op left right).spell ++ rest) =
        ((Expr.binary op left right).reading nesting).bind fun found =>
          readTail after nesting op.level found rest := by
  have hlevels : op.operandLevels = (op.level, op.level.tighter) := by
    cases op <;> first | rfl | exact absurd hop (by decide)
  have hlexeme : op.level.operator? op.lexeme = some op := by
    cases op <;> first | rfl | exact absurd hop (by decide)
  have hexpression : op.level.tighter ≠ .expression := by
    cases op <;> decide
  have htighter : op.level.tighter.rank = op.level.rank + 1 := by
    rw [tighter_eq_next hop]
    exact next_rank (by cases op <;> decide)
  have hbound := level_rank_le op.level
  have hfitsRight : right.FitsAt op.level.tighter := by
    rw [hlevels] at hfits
    exact hfits.2
  rw [hlevels] at hfits
  rw [length_binary] at hfuel ⊢
  obtain ⟨middle, hmiddle, hfirst⟩ := hleft.tail fuel nesting op.level
    (op.lexeme :: (right.spell ++ rest)) hop hfits.1 (by omega)
    (Nat.le_of_eq (by rw [ahead_cons, follow_lexeme]))
  obtain ⟨after, rfl⟩ : ∃ n, middle = n + 1 := ⟨middle - 1, by omega⟩
  refine ⟨after, by omega, ?_⟩
  have hsecond := hright.fitting hfitsRight hexpression after nesting rest
    (by omega) (by omega)
  rw [Expr.spell, List.append_assoc, List.cons_append, hfirst, Expr.reading]
  cases left.reading nesting with
  | none => rfl
  | some first =>
      simp only [Option.bind_eq_bind, Option.bind_some, readTail, ahead_cons,
        hlexeme, List.tail_cons, hsecond]
      cases right.reading nesting <;> rfl

theorem owns_left (hop : op.level.isLeft = true) (hleft : Reads left)
    (hright : Reads right)
    (hfits : left.FitsAt op.operandLevels.1 ∧ right.FitsAt op.operandLevels.2) :
    Owns (.binary op left right) := by
  intro fuel nesting rest hfuel hfollow _
  change 16 * (Expr.binary op left right).spell.length + 14 ≤
    fuel + op.level.rank at hfuel
  change follow (ahead rest) < op.level.rank at hfollow
  obtain ⟨after, hafter, hread⟩ := tail_binary hop hleft hright hfits hfuel
    (Nat.le_of_lt hfollow)
  have hbound := level_rank_le op.level
  have hlength := length_binary op left right
  obtain ⟨after, rfl⟩ : ∃ n, after = n + 1 := ⟨after - 1, by omega⟩
  show readAt fuel nesting op.level _ = _
  rw [hread]
  cases (Expr.binary op left right).reading nesting with
  | none => rfl
  | some found => exact readTail_of_follow hfollow

end Binary

section Suffix

/-- Before suffixes the reader has taken `e` and goes on with them. -/
def Continues (e : Expr) : Prop :=
  ∀ fuel nesting rest, 16 * e.spell.length + 2 ≤ fuel →
    follow (ahead rest) ≤ Level.suffix.rank →
    ∃ after, fuel ≤ after + 1 + e.spell.length ∧
      readAt fuel nesting .suffix (e.spell ++ rest) =
        (e.reading nesting).bind fun found =>
          readSuffix after nesting found rest

theorem owns_of_continues {e : Expr} (hlevel : e.level = .suffix)
    (he : Continues e) : Owns e := by
  intro fuel nesting rest hfuel hfollow _
  have hrank : Level.suffix.rank = 12 := rfl
  rw [hlevel] at hfuel hfollow
  obtain ⟨after, hafter, hread⟩ := he fuel nesting rest (by omega)
    (Nat.le_of_lt hfollow)
  obtain ⟨after, rfl⟩ : ∃ n, after = n + 1 := ⟨after - 1, by omega⟩
  rw [hlevel, hread]
  cases e.reading nesting with
  | none => rfl
  | some found => exact readSuffix_of_follow hfollow

theorem continues_call {name : String} {args : List Expr}
    (hargs : ∀ arg ∈ args, Reads arg) : Continues (.call name args) := by
  intro fuel nesting rest hfuel _
  simp only [Expr.spell, List.length_cons, List.length_append,
    List.length_nil] at hfuel ⊢
  obtain ⟨fuel, rfl⟩ : ∃ n, fuel = n + 4 := ⟨fuel - 4, by omega⟩
  refine ⟨fuel + 2, by omega, ?_⟩
  have hitems := readItems_spell closing_rightParen hargs (fuel + 2) nesting rest
    (by omega)
  show (readItems (fuel + 2) nesting .rightParen
    (Expr.spellItems args ++ [Lexeme.rightParen] ++ rest)).bind _ = _
  rw [List.append_assoc, List.singleton_append, hitems, Expr.reading]
  cases Expr.readingItems nesting args <;> rfl

theorem continues_index {target : Expr} {indices : List Expr}
    (htarget : Reads target) (hfits : target.FitsAt .suffix)
    (hindices : ∀ index ∈ indices, Reads index) (hne : indices ≠ []) :
    Continues (.index target indices) := by
  intro fuel nesting rest hfuel _
  simp only [Expr.spell, List.length_cons, List.length_append,
    List.length_nil] at hfuel ⊢
  obtain ⟨middle, hmiddle, hread⟩ := htarget.suffix fuel nesting
    (.leftBracket :: (Expr.spellItems indices ++ .rightBracket :: rest)) hfits
    (by omega) (Nat.le_refl _)
  obtain ⟨after, rfl⟩ : ∃ n, middle = n + 1 := ⟨middle - 1, by omega⟩
  refine ⟨after, by omega, ?_⟩
  have hitems := readItems_spell closing_rightBracket hindices after nesting rest
    (by omega)
  simp only [List.append_assoc, List.cons_append, List.nil_append]
  rw [hread, Expr.reading]
  cases target.reading nesting with
  | none => rfl
  | some found =>
      simp only [Option.bind_some, Option.bind_eq_bind]
      show (readItems after nesting .rightBracket
        (Expr.spellItems indices ++ .rightBracket :: rest)).bind _ = _
      rw [hitems]
      rcases hfound : Expr.readingItems nesting indices with _ | items
      · rfl
      · have hlength := readingItems_length hfound
        rcases items with _ | ⟨first, items⟩
        · exact absurd (List.length_eq_zero_iff.mp hlength.symm) hne
        · rfl

theorem continues_factorial {operand : Expr} (hoperand : Reads operand)
    (hfits : operand.FitsAt .suffix) : Continues (.factorial operand) := by
  intro fuel nesting rest hfuel _
  simp only [Expr.spell, List.length_append, List.length_singleton] at hfuel ⊢
  obtain ⟨middle, hmiddle, hread⟩ := hoperand.suffix fuel nesting
    (.bang :: rest) hfits (by omega) (Nat.le_refl _)
  obtain ⟨after, rfl⟩ : ∃ n, middle = n + 1 := ⟨middle - 1, by omega⟩
  refine ⟨after, by omega, ?_⟩
  rw [List.append_assoc, List.singleton_append, hread, Expr.reading]
  cases operand.reading nesting <;> rfl

end Suffix

end SceneQuiz.Parse
