import SceneQuiz.Proofs.Expr.Spelling
/-!
What a level of the grammar claims: the lexemes that start its expressions and
those that continue them.  A level passes on what the level inside it reads
unless the next lexeme is its own, so an expression that is read at its own
level is read at every level around it.
-/

namespace SceneQuiz

/-- The levels at which the operands of an operator are read. -/
def BinOp.operandLevels (op : BinOp) : Parse.Level × Parse.Level :=
  match op with
  | .assign | .define => (.disjunction, .assignment)
  | .eq | .notEq | .less | .greater | .lessEq | .greaterEq => (.sum, .sum)
  | .pow => (.quotation, .sign)
  | op => (op.level, op.level.tighter)

theorem BinOp.level_le_left (op : BinOp) :
    op.level.rank ≤ op.operandLevels.1.rank := by
  cases op <;> decide

namespace Expr

/-- The expression can stand where a level is read. -/
def FitsAt (level : Parse.Level) (e : Expr) : Prop :=
  level.rank ≤ e.level.rank ∧ e.isControl = false

/-- The parts of a node stand where the grammar reads them. -/
def Fits : Expr → Prop
  | .index target indices => target.FitsAt .suffix ∧ indices ≠ []
  | .factorial operand => operand.FitsAt .suffix
  | .group items => items ≠ []
  | .neg operand => operand.FitsAt .sign
  | .not operand => operand.FitsAt .negation
  | .quote operand => operand.FitsAt .quotation
  | .binary op left right =>
      left.FitsAt op.operandLevels.1 ∧ right.FitsAt op.operandLevels.2
  | .cond branches _ => branches ≠ [] ∧
      ∀ branch ∈ branches, branch.1.FitsAt .assignment ∧
        branch.2.FitsAt .assignment
  | .forIn _ source _ => source.FitsAt .assignment
  | .forRange _ first step last _ => first.FitsAt .assignment ∧
      (∀ step' ∈ step, step'.FitsAt .assignment) ∧ last.FitsAt .assignment
  | _ => True

end Expr

namespace Parse

/-- The tightest level that a lexeme continues; one that no expression may be
followed by has a rank above every level. -/
def follow : Lexeme → Nat
  | .word .elseWord | .word .elseifWord => Level.expression.rank
  | .colon | .colonEqual => Level.assignment.rank
  | .word .orWord => Level.disjunction.rank
  | .word .andWord => Level.conjunction.rank
  | .equal | .hash | .less | .greater | .lessEqual | .greaterEqual =>
      Level.comparison.rank
  | .plus | .minus => Level.sum.rank
  | .star | .slash | .dot => Level.product.rank
  | .caret => Level.power.rank
  | .leftBracket | .bang => Level.suffix.rank
  | .leftParen | .newline => Level.operand.rank + 1
  | _ => 0

/-- The tightest level whose expressions start with a lexeme. -/
def opening : Lexeme → Nat
  | .word .notWord => Level.negation.rank
  | .minus | .plus => Level.sign.rank
  | .quote => Level.quotation.rank
  | .number _ | .str _ | .ident _ | .word .trueWord | .word .falseWord
  | .word .ifWord | .word .forWord | .leftParen | .leftBracket | .leftBrace =>
      Level.operand.rank
  | _ => 0

theorem level_rank_pos (level : Level) : 0 < level.rank := by
  cases level <;> decide

theorem rank_injective {one two : Level} (h : one.rank = two.rank) : one = two := by
  cases one <;> cases two <;> first | rfl | exact absurd h (by decide)

theorem level_rank_le (level : Level) : level.rank ≤ 13 := by
  cases level <;> decide

end Parse

namespace Expr

open Parse

/-- The level of an expression is no tighter than what its first lexeme
opens. -/
theorem level_le_opening {e : Expr} (he : Everywhere Fits e)
    (rest : List Lexeme) : e.level.rank ≤ opening (ahead (e.spell ++ rest)) := by
  induction e using ofParts generalizing rest with
  | hstep e ih =>
      have hnode := he.here
      have hpart : ∀ part ∈ e.children, ∀ rest : List Lexeme,
          part.level.rank ≤ opening (ahead (part.spell ++ rest)) :=
        fun part hpart => ih part hpart (he.inside hpart)
      cases e with
      | bool value => cases value <;> simp [spell, level, opening]
      | index target indices =>
          have htarget := hpart target (by simp [children])
          rw [spell, List.append_assoc]
          exact Nat.le_trans hnode.1.1 (htarget _)
      | factorial operand =>
          have hoperand := hpart operand (by simp [children])
          rw [spell, List.append_assoc]
          exact Nat.le_trans hnode.1 (hoperand _)
      | binary op left right =>
          have hleft := hpart left (by simp [children])
          rw [spell, List.append_assoc]
          exact Nat.le_trans op.level_le_left (Nat.le_trans hnode.1.1 (hleft _))
      | cond branches otherwise =>
          rcases branches with _ | ⟨⟨test, body⟩, branches⟩
          · exact absurd rfl hnode.1
          · cases otherwise <;> simp [spell, spellBranches, level, opening]
      | forRange var first step last body =>
          cases step <;> simp [spell, level, opening]
      | _ => simp [spell, level, opening, Level.rank]

theorem opening_pos {e : Expr} (he : Everywhere Fits e) (rest : List Lexeme) :
    0 < opening (ahead (e.spell ++ rest)) :=
  Nat.lt_of_lt_of_le (level_rank_pos e.level) (level_le_opening he rest)

end Expr

namespace Parse

/-- A lexeme that a level does not claim is no operator of that level. -/
theorem assignment?_of_follow {l : Lexeme} (hl : follow l < Level.assignment.rank) :
    assignment? l = none := by
  cases l <;> first | rfl | simp [follow] at hl

theorem comparison?_of_follow {l : Lexeme} (hl : follow l < Level.comparison.rank) :
    comparison? l = none := by
  cases l <;> first | rfl | simp [follow, Level.rank] at hl

theorem operator?_of_follow {level : Level} {l : Lexeme}
    (hl : follow l < level.rank) : level.operator? l = none := by
  unfold Level.operator?
  split <;> first | rfl | simp [follow, Level.rank] at hl

theorem passContinuation_of_follow {ls : List Lexeme}
    (hls : follow (ahead ls) < Level.operand.rank) : passContinuation ls = ls := by
  unfold passContinuation
  split
  · rename_i hskip
    rw [hskip.1] at hls
    exact absurd hls (by decide)
  · rfl

/-- The level inside a level. -/
def Level.next : Level → Level
  | .expression => .assignment
  | .assignment => .disjunction
  | .disjunction => .conjunction
  | .conjunction => .negation
  | .negation => .comparison
  | .comparison => .sum
  | .sum => .product
  | .product => .sign
  | .sign => .power
  | .power => .quotation
  | .quotation => .suffix
  | .suffix | .operand => .operand

theorem tighter_eq_next {level : Level} (hlevel : level.isLeft = true) :
    level.tighter = level.next := by
  cases level with
  | disjunction | conjunction | sum | product => rfl
  | _ => exact absurd hlevel (by decide)

theorem next_rank {level : Level} (hlevel : level ≠ .operand) :
    level.next.rank = level.rank + 1 := by
  cases level with
  | operand => exact absurd rfl hlevel
  | _ => rfl

/-- A call or an index does not go on past a lexeme that it does not claim. -/
theorem readSuffix_of_follow {fuel nesting : Nat} {target : Expr}
    {ls : List Lexeme} (hls : follow (ahead ls) < Level.suffix.rank) :
    readSuffix (fuel + 1) nesting target ls = some (target, ls) := by
  rw [readSuffix.eq_def]
  dsimp only
  split <;> rename_i hnext <;>
    first | rfl | (rw [hnext] at hls; exact absurd hls (by decide))

theorem readTail_of_follow {fuel nesting : Nat} {level : Level} {left : Expr}
    {ls : List Lexeme} (hls : follow (ahead ls) < level.rank) :
    readTail (fuel + 1) nesting level left ls = some (left, ls) := by
  rw [readTail, operator?_of_follow hls]

/-- A level passes on what the level inside it gives, when what comes first
and what follows are not its own. -/
theorem readAt_of_next {fuel nesting : Nat} {level : Level}
    {ls rest : List Lexeme} {found : Option Expr} (hfuel : 0 < fuel)
    (hexpression : level ≠ .expression) (hoperand : level ≠ .operand)
    (hopening : level.rank < opening (ahead ls))
    (hfollow : follow (ahead rest) < level.rank)
    (hnext : readAt fuel nesting level.next ls = found.map (·, rest)) :
    readAt (fuel + 1) nesting level ls = found.map (·, rest) := by
  obtain ⟨fuel, rfl⟩ := Nat.exists_eq_add_one_of_ne_zero (Nat.ne_of_gt hfuel)
  cases level with
  | expression => exact absurd rfl hexpression
  | operand => exact absurd rfl hoperand
  | assignment =>
      simp only [Level.next] at hnext
      rw [readAt, hnext]
      cases found <;> simp [assignment?_of_follow hfollow]
  | disjunction | conjunction | sum | product =>
      rw [readAt_left rfl, tighter_eq_next rfl, hnext]
      cases found <;> simp [readTail_of_follow hfollow]
  | negation =>
      have hnot : ahead ls ≠ .word .notWord := by
        intro hls
        rw [hls] at hopening
        exact absurd hopening (by decide)
      rw [readAt, if_neg hnot]
      exact hnext
  | comparison =>
      simp only [Level.next] at hnext
      rw [readAt, hnext]
      cases found <;> simp [comparison?_of_follow hfollow]
  | sign =>
      rw [readAt]
      split
      · rename_i hls
        rw [hls] at hopening
        exact absurd hopening (by decide)
      · rename_i hls
        rw [hls] at hopening
        exact absurd hopening (by decide)
      · exact hnext
  | power =>
      have hcaret : ahead rest ≠ .caret := by
        intro hrest
        rw [hrest] at hfollow
        exact absurd hfollow (by decide)
      simp only [Level.next] at hnext
      rw [readAt, hnext]
      cases found <;> simp [hcaret]
  | quotation =>
      have hquote : ahead ls ≠ .quote := by
        intro hls
        rw [hls] at hopening
        exact absurd hopening (by decide)
      rw [readAt, if_neg hquote]
      exact hnext
  | suffix =>
      simp only [Level.next] at hnext
      rw [readAt, hnext]
      cases found <;> simp [readSuffix_of_follow hfollow]

/-- What reading the lexemes of `e` does: at a level that `e` fits, at a level
that groups to the left with an operator of it ahead, before suffixes, and
where an assignment is not looked for. -/
structure Reads (e : Expr) : Prop where
  fits : e.Everywhere Expr.Fits
  closed : ∀ fuel nesting level rest, level ≠ .expression →
    level.rank ≤ e.level.rank → 16 * e.spell.length + 14 ≤ fuel + level.rank →
    follow (ahead rest) < level.rank →
    (e.isControl = true → follow (ahead rest) = 0) →
    readAt fuel nesting level (e.spell ++ rest) =
      (e.reading nesting).map (·, rest)
  tail : ∀ fuel nesting level rest, level.isLeft = true → e.FitsAt level →
    16 * e.spell.length + 14 ≤ fuel + level.rank →
    follow (ahead rest) ≤ level.rank →
    ∃ left, fuel ≤ left + 1 + e.spell.length ∧
      readAt fuel nesting level (e.spell ++ rest) =
        (e.reading nesting).bind fun found =>
          readTail left nesting level found rest
  suffix : ∀ fuel nesting rest, e.FitsAt .suffix →
    16 * e.spell.length + 2 ≤ fuel → follow (ahead rest) ≤ Level.suffix.rank →
    ∃ left, fuel ≤ left + 1 + e.spell.length ∧
      readAt fuel nesting .suffix (e.spell ++ rest) =
        (e.reading nesting).bind fun found =>
          readSuffix left nesting found rest
  header : ∀ fuel nesting rest found, e.level = .assignment →
    16 * e.spell.length ≤ fuel →
    readAt fuel nesting .disjunction (e.spell ++ rest) = some found →
    (assignment? (ahead found.2)).isSome = true

/-- What is read at its own level is read at every level around it. -/
theorem closed_of_own {e : Expr} (he : e.Everywhere Expr.Fits)
    (hown : ∀ fuel nesting rest,
      16 * e.spell.length + 14 ≤ fuel + e.level.rank →
      follow (ahead rest) < e.level.rank →
      (e.isControl = true → follow (ahead rest) = 0) →
      readAt fuel nesting e.level (e.spell ++ rest) =
        (e.reading nesting).map (·, rest)) :
    ∀ distance fuel nesting level rest, level ≠ .expression →
      level.rank + distance = e.level.rank →
      16 * e.spell.length + 14 ≤ fuel + level.rank →
      follow (ahead rest) < level.rank →
      (e.isControl = true → follow (ahead rest) = 0) →
      readAt fuel nesting level (e.spell ++ rest) =
        (e.reading nesting).map (·, rest) := by
  intro distance
  induction distance with
  | zero =>
      intro fuel nesting level rest _ hrank hfuel hfollow hcontrol
      have hlevel : level = e.level := rank_injective (by omega)
      subst hlevel
      exact hown fuel nesting rest hfuel hfollow hcontrol
  | succ distance ih =>
      intro fuel nesting level rest hexpression hrank hfuel hfollow hcontrol
      have hopening := Expr.level_le_opening he rest
      have hbound := level_rank_le e.level
      have hoperand : level ≠ .operand := by
        intro hlevel
        rw [hlevel] at hrank
        have hthirteen : Level.operand.rank = 13 := rfl
        omega
      have hnext := next_rank hoperand
      obtain ⟨fuel, rfl⟩ : ∃ n, fuel = n + 1 := ⟨fuel - 1, by omega⟩
      refine readAt_of_next (by omega) hexpression hoperand (by omega) hfollow ?_
      refine ih fuel nesting level.next rest ?_ (by omega) (by omega) (by omega)
        hcontrol
      cases level <;> simp [Level.next]

theorem two_le_level (e : Expr) : 2 ≤ e.level.rank := by
  cases e with
  | binary op left right => cases op <;> simp [Expr.level, BinOp.level, Level.rank]
  | _ => simp [Expr.level, Level.rank]

theorem Reads.fitting {e : Expr} (he : Reads e) {level : Level}
    (hfits : e.FitsAt level) (hexpression : level ≠ .expression)
    (fuel nesting : Nat) (rest : List Lexeme)
    (hfuel : 16 * e.spell.length + 14 ≤ fuel + level.rank)
    (hfollow : follow (ahead rest) < level.rank) :
    readAt fuel nesting level (e.spell ++ rest) =
      (e.reading nesting).map (·, rest) :=
  he.closed fuel nesting level rest hexpression hfits.1 hfuel hfollow
    fun hcontrol => absurd hcontrol (by simp [hfits.2])

/-- Reading a whole expression goes one deeper. -/
theorem Reads.whole {e : Expr} (he : Reads e) (fuel nesting : Nat)
    (rest : List Lexeme) (hfuel : 16 * e.spell.length + 13 ≤ fuel)
    (hfollow : follow (ahead rest) < Level.assignment.rank)
    (hcontrol : e.isControl = true → follow (ahead rest) = 0) :
    readAt fuel nesting .expression (e.spell ++ rest) =
      (deeper nesting fun nesting => e.reading nesting).map (·, rest) := by
  obtain ⟨fuel, rfl⟩ : ∃ n, fuel = n + 1 := ⟨fuel - 1, by omega⟩
  rw [readAt, deeper]
  split
  · rfl
  · have htwo : Level.assignment.rank = 2 := rfl
    exact he.closed fuel (nesting + 1) .assignment rest (by decide)
      (two_le_level e) (by omega) hfollow hcontrol

/-- A lexeme that closes a bracket neither continues nor starts anything. -/
def Closing (l : Lexeme) : Prop :=
  follow l = 0 ∧ opening l = 0 ∧ l ≠ .comma

theorem readMore_spell {close : Lexeme} (hclose : Closing close) {nesting : Nat}
    {rest : List Lexeme} (items : List Expr) :
    ∀ (item : Expr) (fuel : Nat), Reads item → (∀ other ∈ items, Reads other) →
      16 * (Expr.spellItems (item :: items)).length + 14 ≤ fuel →
      readMore fuel nesting close
          (Expr.spellItems (item :: items) ++ close :: rest) =
        (Expr.readingItems nesting (item :: items)).map (·, rest) := by
  induction items with
  | nil =>
      intro item fuel hitem _ hfuel
      obtain ⟨fuel, rfl⟩ : ∃ n, fuel = n + 1 := ⟨fuel - 1, by omega⟩
      simp only [Expr.spellItems, Expr.spellTail, List.append_nil] at hfuel ⊢
      rw [readMore, hitem.whole fuel nesting (close :: rest) (by omega)
        (by simp [hclose.1, Level.rank]) (fun _ => hclose.1)]
      simp only [Expr.readingItems]
      cases deeper nesting fun nesting => item.reading nesting with
      | none => rfl
      | some found => simp [hclose.2.2, pass?]
  | cons second items ih =>
      intro item fuel hitem hitems hfuel
      obtain ⟨fuel, rfl⟩ : ∃ n, fuel = n + 1 := ⟨fuel - 1, by omega⟩
      have hspell : Expr.spellItems (item :: second :: items) =
          item.spell ++ .comma :: Expr.spellItems (second :: items) := rfl
      rw [hspell] at hfuel ⊢
      simp only [List.length_append, List.length_cons] at hfuel
      rw [List.append_assoc, readMore, hitem.whole fuel nesting
        (.comma :: Expr.spellItems (second :: items) ++ close :: rest)
        (by omega) (by simp [follow, Level.rank]) (fun _ => rfl),
        Expr.readingItems]
      have hmore := ih second fuel (hitems second List.mem_cons_self)
        (fun other hother => hitems other (List.mem_cons_of_mem _ hother))
        (by omega)
      cases deeper nesting fun nesting => item.reading nesting with
      | none => rfl
      | some found =>
          simp only [Option.map_some, Option.bind_eq_bind, Option.bind_some,
            List.cons_append, ahead_cons, if_true, List.tail_cons, hmore]
          cases Expr.readingItems nesting (second :: items) <;> rfl

theorem readItems_spell {close : Lexeme} (hclose : Closing close)
    {items : List Expr} (hitems : ∀ item ∈ items, Reads item)
    (fuel nesting : Nat) (rest : List Lexeme)
    (hfuel : 16 * (Expr.spellItems items).length + 15 ≤ fuel) :
    readItems fuel nesting close (Expr.spellItems items ++ close :: rest) =
      (Expr.readingItems nesting items).map (·, rest) := by
  obtain ⟨fuel, rfl⟩ : ∃ n, fuel = n + 1 := ⟨fuel - 1, by omega⟩
  rw [readItems]
  cases items with
  | nil => simp [Expr.spellItems, Expr.readingItems]
  | cons item items =>
      have hitem := hitems item List.mem_cons_self
      have hahead : ahead (Expr.spellItems (item :: items) ++ close :: rest) ≠
          close := by
        intro hahead
        have hopen := Expr.opening_pos hitem.fits
          (Expr.spellTail items ++ close :: rest)
        rw [← List.append_assoc] at hopen
        change 0 < opening (ahead (Expr.spellItems (item :: items) ++
          close :: rest)) at hopen
        rw [hahead, hclose.2.1] at hopen
        exact absurd hopen (by decide)
      rw [if_neg hahead]
      exact readMore_spell hclose items item fuel hitem
        (fun other hother => hitems other (List.mem_cons_of_mem _ hother))
        (by omega)

end Parse

end SceneQuiz
