import SceneQuiz.Proofs.Parse.Control
/-!
Reading the lexemes of an expression back.  When every operand stands where the
grammar reads its level, the reader takes exactly the lexemes of the expression
and gives its reading, whatever lexeme follows that the level does not claim.
-/

namespace SceneQuiz.Parse

/-- What is read at its own level, and goes on there as its level does, is read
everywhere. -/
theorem reads_of_owns {e : Expr} (he : e.Everywhere Expr.Fits) (hown : Owns e)
    (htail : e.level.isLeft = true → ∀ fuel nesting rest,
      16 * e.spell.length + 14 ≤ fuel + e.level.rank →
      follow (ahead rest) ≤ e.level.rank →
      ∃ after, fuel ≤ after + 1 + e.spell.length ∧
        readAt fuel nesting e.level (e.spell ++ rest) =
          (e.reading nesting).bind fun found =>
            readTail after nesting e.level found rest)
    (hsuffix : e.level = .suffix → Continues e)
    (hheader : ∀ fuel nesting rest found, e.level = .assignment →
      16 * e.spell.length ≤ fuel →
      readAt fuel nesting .disjunction (e.spell ++ rest) = some found →
      (assignment? (ahead found.2)).isSome = true) :
    Reads e := by
  have hclosed : ∀ fuel nesting level rest, level ≠ .expression →
      level.rank ≤ e.level.rank →
      16 * e.spell.length + 14 ≤ fuel + level.rank →
      follow (ahead rest) < level.rank →
      (e.isControl = true → follow (ahead rest) = 0) →
      readAt fuel nesting level (e.spell ++ rest) =
        (e.reading nesting).map (·, rest) := by
    intro fuel nesting level rest hexpression hrank
    exact closed_of_own he hown (e.level.rank - level.rank) fuel nesting level
      rest hexpression (by omega)
  refine ⟨he, hclosed, ?_, ?_, hheader⟩
  · intro fuel nesting level rest hleft hfits hfuel hfollow
    by_cases hlevel : level = e.level
    · subst hlevel
      exact htail hleft fuel nesting rest hfuel hfollow
    · have htighter : level.tighter.rank = level.rank + 1 := by
        rw [tighter_eq_next hleft]
        exact next_rank (by rintro rfl; cases hleft)
      have hne : level.rank ≠ e.level.rank :=
        fun hrank => hlevel (rank_injective hrank)
      have hfits' := hfits.1
      have hbound := level_rank_le e.level
      obtain ⟨fuel, rfl⟩ : ∃ n, fuel = n + 1 := ⟨fuel - 1, by omega⟩
      refine ⟨fuel, by omega, ?_⟩
      rw [readAt_left hleft, hclosed fuel nesting level.tighter rest
        (by cases level <;> decide) (by omega) (by omega) (by omega)
        (fun hcontrol => by simp [hfits.2] at hcontrol)]
      cases e.reading nesting <;> rfl
  · intro fuel nesting rest hfits hfuel hfollow
    by_cases hlevel : e.level = .suffix
    · exact hsuffix hlevel fuel nesting rest hfuel hfollow
    · have htwelve : Level.suffix.rank = 12 := rfl
      have hthirteen : Level.operand.rank = 13 := rfl
      have hne : e.level.rank ≠ 12 := fun hrank => hlevel (rank_injective hrank)
      have hfits' := hfits.1
      obtain ⟨fuel, rfl⟩ : ∃ n, fuel = n + 1 := ⟨fuel - 1, by omega⟩
      refine ⟨fuel, by omega, ?_⟩
      rw [readAt, hclosed fuel nesting .operand rest (by decide) (by omega)
        (by omega) (by omega) (fun hcontrol => by simp [hfits.2] at hcontrol)]
      cases e.reading nesting <;> rfl

/-- What binds its operands at a level of its own neither groups to the left
nor takes suffixes nor assigns. -/
theorem reads_of_owns_apart {e : Expr} (he : e.Everywhere Expr.Fits)
    (hown : Owns e) (hleft : e.level.isLeft = false) (hsuffix : e.level ≠ .suffix)
    (hassignment : e.level ≠ .assignment) : Reads e :=
  reads_of_owns he hown (fun h => absurd h (by simp [hleft]))
    (fun h => absurd h hsuffix) fun _ _ _ _ h => absurd h hassignment

theorem reads_of_continues {e : Expr} (he : e.Everywhere Expr.Fits)
    (hlevel : e.level = .suffix) (hcontinues : Continues e) : Reads e :=
  reads_of_owns he (owns_of_continues hlevel hcontinues)
    (fun h => absurd h (by rw [hlevel]; decide)) (fun _ => hcontinues)
    fun _ _ _ _ h => absurd h (by rw [hlevel]; decide)

theorem reads_binary {op : BinOp} {left right : Expr}
    (he : (Expr.binary op left right).Everywhere Expr.Fits)
    (hleft : Reads left) (hright : Reads right) :
    Reads (.binary op left right) := by
  have hfits : left.FitsAt op.operandLevels.1 ∧
      right.FitsAt op.operandLevels.2 := he.here
  have hlevel : (Expr.binary op left right).level = op.level := rfl
  cases hop : op.level with
  | assignment =>
      refine reads_of_owns he (owns_assignment hop hleft hright hfits)
        (fun h => absurd h (by rw [hlevel, hop]; decide))
        (fun h => absurd h (by rw [hlevel, hop]; decide)) ?_
      intro fuel nesting rest found _ hfuel hfound
      exact header_assignment hop hleft hfits.1 hfuel hfound
  | comparison =>
      exact reads_of_owns_apart he (owns_comparison hop hleft hright hfits)
        (by rw [hlevel, hop]; rfl) (by rw [hlevel, hop]; decide)
        (by rw [hlevel, hop]; decide)
  | power =>
      have hpow : op = .pow := by
        cases op <;> first | rfl | exact absurd hop (by decide)
      subst hpow
      exact reads_of_owns_apart he (owns_power hleft hright hfits) rfl
        (by rw [hlevel]; decide) (by rw [hlevel]; decide)
  | disjunction | conjunction | sum | product =>
      have hgroups : op.level.isLeft = true := by rw [hop]; rfl
      refine reads_of_owns he (owns_left hgroups hleft hright hfits) ?_
        (fun h => absurd h (by rw [hlevel, hop]; decide))
        fun _ _ _ _ h => absurd h (by rw [hlevel, hop]; decide)
      intro _ fuel nesting rest hfuel hfollow
      exact tail_binary hgroups hleft hright hfits hfuel hfollow
  | _ => cases op <;> exact absurd hop (by decide)

/-- Reading gives back what every expression stands for whose parts stand where
the grammar reads them. -/
theorem reads {e : Expr} (he : e.Everywhere Expr.Fits) : Reads e := by
  induction e using Expr.ofParts with
  | hstep e ih =>
      have hnode := he.here
      have hpart : ∀ part ∈ e.children, Reads part :=
        fun part hpart => ih part hpart (he.inside hpart)
      cases e with
      | number text | str text | ident name =>
          exact reads_of_owns_apart he (owns_leaf rfl rfl fun _ _ _ => rfl) rfl
            (by simp [Expr.level]) (by simp [Expr.level])
      | bool value =>
          refine reads_of_owns_apart he ?_ rfl (by simp [Expr.level])
            (by simp [Expr.level])
          cases value
          · exact owns_leaf rfl rfl fun _ _ _ => rfl
          · exact owns_leaf rfl rfl fun _ _ _ => rfl
      | list items =>
          exact reads_of_owns_apart he (owns_list hpart) rfl
            (by simp [Expr.level]) (by simp [Expr.level])
      | set items =>
          exact reads_of_owns_apart he (owns_set hpart) rfl
            (by simp [Expr.level]) (by simp [Expr.level])
      | group items =>
          exact reads_of_owns_apart he (owns_group hpart hnode) rfl
            (by simp [Expr.level]) (by simp [Expr.level])
      | call name args => exact reads_of_continues he rfl (continues_call hpart)
      | index target indices =>
          obtain ⟨htarget, hindices⟩ := Expr.forall_children_index.mp hpart
          exact reads_of_continues he rfl
            (continues_index htarget hnode.1 hindices hnode.2)
      | factorial operand =>
          have hoperand := (Expr.forall_children_one rfl).mp hpart
          exact reads_of_continues he rfl (continues_factorial hoperand hnode)
      | neg operand =>
          have hoperand := (Expr.forall_children_one rfl).mp hpart
          exact reads_of_owns_apart he (owns_neg hoperand hnode) rfl
            (by simp [Expr.level]) (by simp [Expr.level])
      | not operand =>
          have hoperand := (Expr.forall_children_one rfl).mp hpart
          exact reads_of_owns_apart he (owns_not hoperand hnode) rfl
            (by simp [Expr.level]) (by simp [Expr.level])
      | quote operand =>
          have hoperand := (Expr.forall_children_one rfl).mp hpart
          exact reads_of_owns_apart he (owns_quote hoperand hnode) rfl
            (by simp [Expr.level]) (by simp [Expr.level])
      | binary op left right =>
          obtain ⟨hleft, hright⟩ := (Expr.forall_children_two rfl).mp hpart
          exact reads_binary he hleft hright
      | cond branches otherwise =>
          obtain ⟨hbranches, hotherwise⟩ := Expr.forall_children_cond.mp hpart
          refine reads_of_owns_apart he (owns_cond hnode.1 ?_ hotherwise) rfl
            (by simp [Expr.level]) (by simp [Expr.level])
          intro branch hbranch
          exact ⟨(hbranches branch hbranch).1, (hbranches branch hbranch).2,
            (hnode.2 branch hbranch).2.2⟩
      | forIn var source body =>
          obtain ⟨hsource, hbody⟩ := (Expr.forall_children_two rfl).mp hpart
          exact reads_of_owns_apart he (owns_forIn hsource hnode hbody) rfl
            (by simp [Expr.level]) (by simp [Expr.level])
      | forRange var first step last body =>
          obtain ⟨hfirst, hstep, hlast, hbody⟩ :=
            Expr.forall_children_forRange.mp hpart
          exact reads_of_owns_apart he (owns_forRange hfirst hnode.1 hstep
            hnode.2.1 hlast hnode.2.2 hbody) rfl (by simp [Expr.level])
            (by simp [Expr.level])

/-- A text that holds the lexemes of an expression, and nothing else, holds its
reading. -/
theorem readWhole_spell {e : Expr} (he : e.Everywhere Expr.Fits) :
    readWhole (e.spell ++ [Lexeme.endOfInput]) =
      (deeper 0 fun nesting => e.reading nesting).map (·, [.endOfInput]) := by
  have hopening := Expr.opening_pos he [.endOfInput]
  have hnewlines : passNewlines (e.spell ++ [Lexeme.endOfInput]) =
      e.spell ++ [Lexeme.endOfInput] := by
    rcases hls : e.spell ++ [Lexeme.endOfInput] with _ | ⟨l, ls⟩
    · rfl
    · have hne : l ≠ .newline := by
        rintro rfl
        rw [hls, ahead_cons] at hopening
        exact absurd hopening (by decide)
      simp [passNewlines, hne]
  have hend : ahead (e.spell ++ [Lexeme.endOfInput]) ≠ .endOfInput := by
    intro hahead
    rw [hahead] at hopening
    exact absurd hopening (by decide)
  have hread := (reads he).whole
    (16 * ((e.spell ++ [Lexeme.endOfInput]).length + 2)) 0 [.endOfInput]
    (by simp only [List.length_append]; omega) (by decide) (fun _ => rfl)
  rw [readWhole, hnewlines, if_neg hend, hread]
  cases deeper 0 fun nesting => e.reading nesting <;> rfl

end SceneQuiz.Parse
