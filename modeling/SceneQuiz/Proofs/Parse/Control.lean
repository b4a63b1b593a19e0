import SceneQuiz.Proofs.Parse.Operators
/-!
Reading conditionals and loops.  Their bodies reach as far to the right as they
can, and the heads of loops stop short of assignments.
-/

namespace SceneQuiz.Parse

variable {nesting : Nat}

theorem pass?_cons (l : Lexeme) (ls : List Lexeme) :
    pass? l (l :: ls) = some ls := if_pos rfl

/-- One branch of a conditional, and the decision whether another follows. -/
theorem readArms_branch {test body : Expr} (htest : Reads test)
    (hbody : Reads body) (hcontrol : body.isControl = false) {fuel : Nat}
    {rest : List Lexeme}
    (hfuel : 16 * (test.spell.length + body.spell.length) + 13 ≤ fuel)
    (hfollow : follow (ahead rest) < Level.assignment.rank) :
    readArms (fuel + 1) nesting
        (test.spell ++ .word .thenWord :: (body.spell ++ rest)) = (do
      let first ← deeper nesting fun nesting => test.reading nesting
      let second ← deeper nesting fun nesting => body.reading nesting
      if ahead rest = .word .elseifWord then
        let arms ← readArms fuel nesting rest.tail
        some ((first, second) :: arms.1, arms.2)
      else some ([(first, second)], rest)) := by
  rw [readArms, htest.whole fuel nesting _ (by omega) (by rw [ahead_cons]; decide)
    (fun _ => rfl)]
  cases deeper nesting fun nesting => test.reading nesting with
  | none => rfl
  | some first =>
      simp only [Option.map_some, Option.bind_eq_bind, Option.bind_some]
      rw [passContinuation_of_follow (by rw [ahead_cons]; decide), pass?_cons,
        Option.bind_some, hbody.whole fuel nesting rest (by omega) hfollow
          (fun hbodyControl => by simp [hcontrol] at hbodyControl)]
      cases deeper nesting fun nesting => body.reading nesting with
      | none => rfl
      | some second =>
          simp only [Option.map_some, Option.bind_some]
          rw [passContinuation_of_follow (Nat.lt_trans hfollow (by decide))]

/-- The branches of a conditional, up to a lexeme that starts no further
one. -/
theorem readArms_spell {rest : List Lexeme}
    (hfollow : follow (ahead rest) < Level.assignment.rank)
    (hrest : ahead rest ≠ .word .elseifWord) (branches : List (Expr × Expr)) :
    ∀ (test body : Expr) (fuel : Nat), Reads test → Reads body →
      body.isControl = false →
      (∀ branch ∈ branches, Reads branch.1 ∧ Reads branch.2 ∧
        branch.2.isControl = false) →
      16 * (test.spell.length + body.spell.length +
        (Expr.spellBranches (.word .elseifWord) branches).length) + 14 ≤ fuel →
      readArms fuel nesting (test.spell ++ .word .thenWord :: (body.spell ++
          (Expr.spellBranches (.word .elseifWord) branches ++ rest))) =
        (Expr.readingBranches nesting ((test, body) :: branches)).map
          (·, rest) := by
  induction branches with
  | nil =>
      intro test body fuel htest hbody hcontrol _ hfuel
      simp only [Expr.spellBranches, List.length_nil, List.nil_append] at hfuel ⊢
      obtain ⟨fuel, rfl⟩ : ∃ n, fuel = n + 1 := ⟨fuel - 1, by omega⟩
      rw [readArms_branch htest hbody hcontrol (by omega) hfollow,
        Expr.readingBranches]
      cases deeper nesting fun nesting => test.reading nesting with
      | none => rfl
      | some first =>
          cases deeper nesting fun nesting => body.reading nesting with
          | none => rfl
          | some second => simp [hrest, Expr.readingBranches]
  | cons next branches ih =>
      intro test body fuel htest hbody hcontrol hbranches hfuel
      obtain ⟨nextTest, nextBody⟩ := next
      obtain ⟨hnextTest, hnextBody, hnextControl⟩ :=
        hbranches (nextTest, nextBody) List.mem_cons_self
      have hspell : Expr.spellBranches (.word .elseifWord)
          ((nextTest, nextBody) :: branches) ++ rest =
          .word .elseifWord :: (nextTest.spell ++ .word .thenWord ::
            (nextBody.spell ++
              (Expr.spellBranches (.word .elseifWord) branches ++ rest))) := by
        simp [Expr.spellBranches]
      simp only [Expr.spellBranches, List.length_cons,
        List.length_append] at hfuel
      obtain ⟨fuel, rfl⟩ : ∃ n, fuel = n + 1 := ⟨fuel - 1, by omega⟩
      have hmore := ih nextTest nextBody fuel hnextTest hnextBody hnextControl
        (fun branch hbranch => hbranches branch (List.mem_cons_of_mem _ hbranch))
        (by omega)
      have hreading : Expr.readingBranches nesting
          ((test, body) :: (nextTest, nextBody) :: branches) = (do
            let first ← deeper nesting fun nesting => test.reading nesting
            let second ← deeper nesting fun nesting => body.reading nesting
            let others ← Expr.readingBranches nesting
              ((nextTest, nextBody) :: branches)
            some ((first, second) :: others)) := rfl
      rw [hspell, readArms_branch htest hbody hcontrol (by omega)
        (by rw [ahead_cons]; decide), ahead_cons, List.tail_cons, hmore, hreading]
      cases deeper nesting fun nesting => test.reading nesting with
      | none => rfl
      | some first =>
          cases deeper nesting fun nesting => body.reading nesting with
          | none => rfl
          | some second =>
              cases Expr.readingBranches nesting
                ((nextTest, nextBody) :: branches) <;> rfl

theorem owns_cond {branches : List (Expr × Expr)} {otherwise : Option Expr}
    (hne : branches ≠ [])
    (hbranches : ∀ branch ∈ branches, Reads branch.1 ∧ Reads branch.2 ∧
      branch.2.isControl = false)
    (hotherwise : ∀ body ∈ otherwise, Reads body) :
    Owns (.cond branches otherwise) := by
  intro fuel nesting rest hfuel _ hclosing
  have hfollow : follow (ahead rest) = 0 := hclosing rfl
  have helse : ahead rest ≠ .word .elseWord := by
    intro hahead
    rw [hahead] at hfollow
    exact absurd hfollow (by decide)
  have helseif : ahead rest ≠ .word .elseifWord := by
    intro hahead
    rw [hahead] at hfollow
    exact absurd hfollow (by decide)
  have hrank : (Expr.cond branches otherwise).level.rank = 13 := rfl
  obtain ⟨⟨test, body⟩, branches, rfl⟩ := List.exists_cons_of_ne_nil hne
  obtain ⟨htest, hbody, hcontrol⟩ := hbranches (test, body) List.mem_cons_self
  have hmore : ∀ branch ∈ branches, Reads branch.1 ∧ Reads branch.2 ∧
      branch.2.isControl = false :=
    fun branch hbranch => hbranches branch (List.mem_cons_of_mem _ hbranch)
  rw [hrank] at hfuel
  show readAt fuel nesting .operand _ = _
  cases otherwise with
  | none =>
      simp only [Expr.spell, Expr.spellBranches, List.length_cons,
        List.length_append, List.append_nil] at hfuel
      obtain ⟨fuel, rfl⟩ : ∃ n, fuel = n + 2 := ⟨fuel - 2, by omega⟩
      have hspell : (Expr.cond ((test, body) :: branches) none).spell ++ rest =
          .word .ifWord :: (test.spell ++ .word .thenWord :: (body.spell ++
            (Expr.spellBranches (.word .elseifWord) branches ++ rest))) := by
        simp [Expr.spell, Expr.spellBranches]
      rw [hspell]
      show (readArms fuel nesting (test.spell ++ .word .thenWord ::
        (body.spell ++ (Expr.spellBranches (.word .elseifWord) branches ++
          rest)))).bind _ = _
      rw [readArms_spell (by rw [hfollow]; decide) helseif branches test body
        fuel htest hbody hcontrol hmore (by omega), Expr.reading]
      cases Expr.readingBranches nesting ((test, body) :: branches) with
      | none => rfl
      | some found => simp [helse]
  | some last =>
      have hlast := hotherwise last rfl
      simp only [Expr.spell, Expr.spellBranches, List.length_cons,
        List.length_append] at hfuel
      obtain ⟨fuel, rfl⟩ : ∃ n, fuel = n + 2 := ⟨fuel - 2, by omega⟩
      have hspell : (Expr.cond ((test, body) :: branches) (some last)).spell ++
          rest = .word .ifWord :: (test.spell ++ .word .thenWord ::
            (body.spell ++ (Expr.spellBranches (.word .elseifWord) branches ++
              .word .elseWord :: (last.spell ++ rest)))) := by
        simp [Expr.spell, Expr.spellBranches]
      have hread := hlast.whole fuel nesting rest (by omega)
        (by rw [hfollow]; decide) (fun _ => hfollow)
      rw [hspell]
      show (readArms fuel nesting (test.spell ++ .word .thenWord ::
        (body.spell ++ (Expr.spellBranches (.word .elseifWord) branches ++
          .word .elseWord :: (last.spell ++ rest))))).bind _ = _
      rw [readArms_spell (by rw [ahead_cons]; decide) (by simp) branches test
        body fuel htest hbody hcontrol hmore (by omega), Expr.reading]
      cases Expr.readingBranches nesting ((test, body) :: branches) with
      | none => rfl
      | some found =>
          simp only [Option.map_some, Option.bind_some, Option.bind_eq_bind,
            ahead_cons, if_true, List.tail_cons, hread]
          cases deeper nesting fun nesting => last.reading nesting <;> rfl

theorem readBody_spell {body : Expr} (hbody : Reads body) {fuel : Nat}
    {rest : List Lexeme} (hfuel : 16 * body.spell.length + 14 ≤ fuel)
    (hfollow : follow (ahead rest) = 0) :
    readBody fuel nesting (.word .doWord :: (body.spell ++ rest)) =
      (deeper nesting fun nesting => body.reading nesting).map (·, rest) := by
  obtain ⟨fuel, rfl⟩ : ∃ n, fuel = n + 1 := ⟨fuel - 1, by omega⟩
  rw [readBody, passContinuation_of_follow (by rw [ahead_cons]; decide),
    pass?_cons]
  exact hbody.whole fuel nesting rest (by omega) (by rw [hfollow]; decide)
    (fun _ => hfollow)

/-- Where an assignment is not looked for, the reader stops at its operator. -/
theorem header_assignment {op : BinOp} {left right : Expr}
    (hop : op.level = .assignment) (hleft : Reads left)
    (hfits : left.FitsAt op.operandLevels.1) {fuel : Nat} {rest : List Lexeme}
    {found : Expr × List Lexeme}
    (hfuel : 16 * (Expr.binary op left right).spell.length ≤ fuel)
    (hfound : readAt fuel nesting .disjunction
      ((Expr.binary op left right).spell ++ rest) = some found) :
    (assignment? (ahead found.2)).isSome = true := by
  have hlevels : op.operandLevels = (.disjunction, .assignment) := by
    cases op <;> first | rfl | exact absurd hop (by decide)
  have hlexeme : assignment? op.lexeme = some op := by
    cases op <;> first | rfl | exact absurd hop (by decide)
  rw [hlevels] at hfits
  rw [length_binary] at hfuel
  rw [Expr.spell, List.append_assoc, List.cons_append,
    hleft.fitting hfits (by decide) fuel nesting _
      (by simp only [Level.rank]; omega)
      (by rw [ahead_cons, follow_lexeme, hop]; decide)] at hfound
  obtain ⟨first, -, rfl⟩ := Option.map_eq_some_iff.mp hfound
  rw [ahead_cons, hlexeme]
  rfl

theorem assignment_ne_word {l : Lexeme} (hl : (assignment? l).isSome = true)
    (word : Word) : l ≠ .word word := by
  rintro rfl
  cases hl

theorem passContinuation_assignment {ls : List Lexeme}
    (hls : (assignment? (ahead ls)).isSome = true) : passContinuation ls = ls := by
  unfold passContinuation
  rw [if_neg]
  rintro ⟨hnewline, -⟩
  rw [hnewline] at hls
  cases hls

/-- The head of a loop is read up to the word after it.  An assignment is not
taken up whole: the reader stops at its operator, where `k` fails. -/
theorem header_spell {e : Expr} (he : Reads e) (hfits : e.FitsAt .assignment)
    {word : Word} (hword : follow (.word word) = 0) {fuel : Nat}
    {rest : List Lexeme} (hfuel : 16 * e.spell.length + 11 ≤ fuel) {α : Type}
    {k : Expr × List Lexeme → Option α}
    (hk : ∀ found : Expr × List Lexeme,
      (assignment? (ahead found.2)).isSome = true → k found = none) :
    (readAt fuel nesting .disjunction (e.spell ++ .word word :: rest)).bind k =
      (e.asHeader (e.reading nesting)).bind fun found =>
        k (found, .word word :: rest) := by
  unfold Expr.asHeader
  split
  · rename_i hlevel
    rcases hread : readAt fuel nesting .disjunction
      (e.spell ++ .word word :: rest) with _ | found
    · rfl
    · exact hk found (he.header fuel nesting _ found hlevel (by omega) hread)
  · rename_i hlevel
    have hrank : Level.disjunction.rank ≤ e.level.rank := by
      have htwo := two_le_level e
      have hne : e.level.rank ≠ 2 := fun hrank => hlevel (rank_injective hrank)
      show 3 ≤ e.level.rank
      omega
    rw [he.fitting ⟨hrank, hfits.2⟩ (by decide) fuel nesting _
      (by simp only [Level.rank]; omega)
      (by rw [ahead_cons, hword]; decide)]
    cases e.reading nesting <;> rfl

theorem owns_forIn {var : String} {source body : Expr} (hsource : Reads source)
    (hfits : source.FitsAt .assignment) (hbody : Reads body) :
    Owns (.forIn var source body) := by
  intro fuel nesting rest hfuel _ hclosing
  have hfollow : follow (ahead rest) = 0 := hclosing rfl
  have hrank : (Expr.forIn var source body).level.rank = 13 := rfl
  rw [hrank] at hfuel
  simp only [Expr.spell, List.length_cons, List.length_append] at hfuel
  obtain ⟨fuel, rfl⟩ : ∃ n, fuel = n + 2 := ⟨fuel - 2, by omega⟩
  have hspell : (Expr.forIn var source body).spell ++ rest =
      .word .forWord :: .ident var :: .word .inWord :: (source.spell ++
        .word .doWord :: (body.spell ++ rest)) := by
    simp [Expr.spell]
  rw [hspell]
  show (readAt fuel nesting .disjunction (source.spell ++
    .word .doWord :: (body.spell ++ rest))).bind (fun found =>
      (readBody fuel nesting found.2).bind fun last =>
        some (Expr.forIn var found.1 last.1, last.2)) = _
  rw [header_spell hsource hfits rfl (by omega)]
  · rw [Expr.reading]
    cases source.asHeader (source.reading nesting) with
    | none => rfl
    | some found =>
        simp only [Option.bind_some, Option.bind_eq_bind]
        rw [readBody_spell hbody (by omega) hfollow]
        cases deeper nesting fun nesting => body.reading nesting <;> rfl
  · intro found hfound
    obtain ⟨fuel, rfl⟩ : ∃ n, fuel = n + 1 := ⟨fuel - 1, by omega⟩
    rw [readBody, passContinuation_assignment hfound, pass?,
      if_neg (assignment_ne_word hfound _)]
    rfl

/-- A counting loop from `thru` on. -/
def rangeEnd (fuel nesting : Nat) (var : String) (first : Expr)
    (step : Option Expr × List Lexeme) : Option (Expr × List Lexeme) := do
  let thru ← pass? (.word .thruWord) (passContinuation step.2)
  let last ← readAt fuel nesting .disjunction thru
  let body ← readBody fuel nesting last.2
  some (.forRange var first step.1 last.1 body.1, body.2)

theorem rangeEnd_assignment {fuel : Nat} {var : String} {first : Expr}
    {step : Option Expr × List Lexeme}
    (hstep : (assignment? (ahead step.2)).isSome = true) :
    rangeEnd fuel nesting var first step = none := by
  rw [rangeEnd, passContinuation_assignment hstep, pass?,
    if_neg (assignment_ne_word hstep _)]
  rfl

theorem rangeEnd_spell {last body : Expr} (hlast : Reads last)
    (hfits : last.FitsAt .assignment) (hbody : Reads body) {fuel : Nat}
    {var : String} {first : Expr} {step : Option Expr} {rest : List Lexeme}
    (hfuel : 16 * (last.spell.length + body.spell.length) + 14 ≤ fuel)
    (hfollow : follow (ahead rest) = 0) :
    rangeEnd fuel nesting var first (step, .word .thruWord :: (last.spell ++
        .word .doWord :: (body.spell ++ rest))) = (do
      let last ← last.asHeader (last.reading nesting)
      let body ← deeper nesting fun nesting => body.reading nesting
      some (.forRange var first step last body, rest)) := by
  rw [rangeEnd, passContinuation_of_follow (by rw [ahead_cons]; decide),
    pass?_cons]
  show (readAt fuel nesting .disjunction (last.spell ++
    .word .doWord :: (body.spell ++ rest))).bind (fun found =>
      (readBody fuel nesting found.2).bind fun stop =>
        some (Expr.forRange var first step found.1 stop.1, stop.2)) = _
  rw [header_spell hlast hfits rfl (by omega)]
  · cases last.asHeader (last.reading nesting) with
    | none => rfl
    | some found =>
        simp only [Option.bind_some, Option.bind_eq_bind]
        rw [readBody_spell hbody (by omega) hfollow]
        cases deeper nesting fun nesting => body.reading nesting <;> rfl
  · intro found hfound
    obtain ⟨fuel, rfl⟩ : ∃ n, fuel = n + 1 := ⟨fuel - 1, by omega⟩
    rw [readBody, passContinuation_assignment hfound, pass?,
      if_neg (assignment_ne_word hfound _)]
    rfl

/-- A counting loop from its first value on. -/
def rangeStart (fuel nesting : Nat) (var : String)
    (first : Expr × List Lexeme) : Option (Expr × List Lexeme) :=
  if ahead (passContinuation first.2) = .word .stepWord then do
    let step ← readAt fuel nesting .disjunction (passContinuation first.2).tail
    rangeEnd fuel nesting var first.1 (some step.1, step.2)
  else rangeEnd fuel nesting var first.1 (none, passContinuation first.2)

theorem rangeStart_assignment {fuel : Nat} {var : String}
    {first : Expr × List Lexeme}
    (hfirst : (assignment? (ahead first.2)).isSome = true) :
    rangeStart fuel nesting var first = none := by
  rw [rangeStart, passContinuation_assignment hfirst,
    if_neg (assignment_ne_word hfirst _)]
  exact rangeEnd_assignment hfirst

theorem readOperand_range (fuel nesting : Nat) (var : String)
    (ls : List Lexeme) :
    readOperand (fuel + 1) nesting (.word .forWord :: .ident var :: .colon :: ls) =
      (readAt fuel nesting .disjunction ls).bind fun first =>
        rangeStart fuel nesting var first := by
  show (readAt fuel nesting .disjunction ls).bind _ = _
  congr 1
  funext first
  unfold rangeStart
  split
  · cases readAt fuel nesting .disjunction (passContinuation first.2).tail <;> rfl
  · rfl

theorem owns_forRange {var : String} {first last body : Expr}
    {step : Option Expr} (hfirst : Reads first)
    (hfirstFits : first.FitsAt .assignment) (hstep : ∀ e ∈ step, Reads e)
    (hstepFits : ∀ e ∈ step, e.FitsAt .assignment) (hlast : Reads last)
    (hlastFits : last.FitsAt .assignment) (hbody : Reads body) :
    Owns (.forRange var first step last body) := by
  intro fuel nesting rest hfuel _ hclosing
  have hfollow : follow (ahead rest) = 0 := hclosing rfl
  have hrank : (Expr.forRange var first step last body).level.rank = 13 := rfl
  rw [hrank] at hfuel
  show readAt fuel nesting .operand _ = _
  cases step with
  | none =>
      have hspell : (Expr.forRange var first none last body).spell ++ rest =
          .word .forWord :: .ident var :: .colon :: (first.spell ++
            .word .thruWord :: (last.spell ++ .word .doWord ::
              (body.spell ++ rest))) := by
        simp [Expr.spell]
      simp only [Expr.spell, List.length_cons, List.length_append,
        List.nil_append] at hfuel
      obtain ⟨fuel, rfl⟩ : ∃ n, fuel = n + 2 := ⟨fuel - 2, by omega⟩
      rw [hspell, readAt, readOperand_range, header_spell hfirst hfirstFits rfl
        (by omega) fun found => rangeStart_assignment, Expr.reading]
      cases first.asHeader (first.reading nesting) with
      | none => rfl
      | some found =>
          simp only [Option.bind_some, Option.bind_eq_bind, rangeStart]
          rw [passContinuation_of_follow (by rw [ahead_cons]; decide),
            if_neg (by simp),
            rangeEnd_spell hlast hlastFits hbody (by omega) hfollow]
          cases last.asHeader (last.reading nesting) with
          | none => rfl
          | some limit =>
              cases deeper nesting fun nesting => body.reading nesting <;> rfl
  | some step =>
      have hstepReads := hstep step rfl
      have hspell : (Expr.forRange var first (some step) last body).spell ++
          rest = .word .forWord :: .ident var :: .colon :: (first.spell ++
            .word .stepWord :: (step.spell ++ .word .thruWord :: (last.spell ++
              .word .doWord :: (body.spell ++ rest)))) := by
        simp [Expr.spell]
      simp only [Expr.spell, List.length_cons, List.length_append,
        List.cons_append] at hfuel
      obtain ⟨fuel, rfl⟩ : ∃ n, fuel = n + 2 := ⟨fuel - 2, by omega⟩
      rw [hspell, readAt, readOperand_range, header_spell hfirst hfirstFits rfl
        (by omega) fun found => rangeStart_assignment, Expr.reading]
      cases first.asHeader (first.reading nesting) with
      | none => rfl
      | some found =>
          simp only [Option.bind_some, Option.bind_eq_bind, rangeStart]
          rw [passContinuation_of_follow (by rw [ahead_cons]; decide),
            ahead_cons, if_pos rfl, List.tail_cons,
            header_spell hstepReads (hstepFits step rfl) rfl (by omega)
              fun found hfound => rangeEnd_assignment hfound]
          cases step.asHeader (step.reading nesting) with
          | none => rfl
          | some size =>
              simp only [Option.bind_some, Option.map_some]
              rw [rangeEnd_spell hlast hlastFits hbody (by omega) hfollow]
              cases last.asHeader (last.reading nesting) with
              | none => rfl
              | some limit =>
                  cases deeper nesting fun nesting =>
                    body.reading nesting <;> rfl

end SceneQuiz.Parse
