import SceneQuiz.Proofs.Parse.Locality
import SceneQuiz.Proofs.Token.Layout
/-!
Lexing a text without faults, as a relation between the text and its lexemes.
A text whose brackets are closed keeps its lexemes if a semicolon, a line break
and another text come after it, and the other text keeps its own.  A text cut in two
where a token starts keeps them if a line break comes between the two: the first part
is passed in steps without fault, which do not reach into the second part.  Inside
brackets and after a token that ends no operand the line break is no lexeme; else it
is one more.
-/

namespace SceneQuiz

namespace Lexer

open Parse

theorem ne_of_keep {operand : Bool} {lexeme : Option Lexeme} {l other : Lexeme}
    (hkeep : keep operand lexeme = some l) (hother : lexeme ≠ some other) : l ≠ other := by
  rintro rfl
  exact hother (eq_some_of_keep hkeep)

/-- Line breaks neither open nor close a bracket. -/
theorem depthAfter_keep (operand : Bool) (lexeme : Option Lexeme) (depth : Nat)
    (ls : List Lexeme) :
    depthAfter depth ((keep operand lexeme).toList ++ ls) =
      depthAfter (lexeme.elim depth (Lexeme.depthAfter depth)) ls := by
  unfold keep
  split
  · cases operand <;> rfl
  · cases lexeme <;> rfl

/-- What is kept of a step that finds no end stands before both texts. -/
theorem continued_keep {beyond ls ls' : List Lexeme} (hls : Continued beyond ls ls')
    (operand : Bool) {lexeme : Option Lexeme} (hlexeme : lexeme ≠ some .endOfInput) :
    Continued beyond ((keep operand lexeme).toList ++ ls)
      ((keep operand lexeme).toList ++ ls') := by
  cases hkeep : keep operand lexeme with
  | none => exact hls
  | some l => exact .cons (ne_of_keep hkeep hlexeme) hls

/-- From this bracket depth on, and after a token that can end an operand or not,
the text has no fault and gives these lexemes. -/
inductive Lexed : (depth : Nat) → (operand : Bool) → List Char → List Lexeme → Prop
  | done {depth : Nat} {operand : Bool} : Lexed depth operand [] [.endOfInput]
  | blank {depth : Nat} {operand : Bool} {c : Char} {cs : List Char} {ls : List Lexeme} :
      isBlank c = true → Lexed depth operand cs ls → Lexed depth operand (c :: cs) ls
  | step {depth : Nat} {operand : Bool} {c : Char} {cs : List Char} {ls : List Lexeme} :
      isBlank c = false → (scan depth c cs).fault = none →
      Lexed (scan depth c cs).depth
        ((keep operand (scan depth c cs).lexeme).elim operand Lexeme.endsOperand)
        (scan depth c cs).rest ls →
      Lexed depth operand (c :: cs) ((keep operand (scan depth c cs).lexeme).toList ++ ls)

/-- What a run without issues finds is what the text gives. -/
theorem lexed_of_run {fuel budget : Nat} {depth : Nat} {operand : Bool} {place : Place}
    {cs : List Char} (hfuel : cs.length < fuel)
    (h : (run fuel (budget + 1) depth operand place cs).issues = []) :
    Lexed depth operand cs
      ((run fuel (budget + 1) depth operand place cs).tokens.map Token.lexeme) := by
  induction fuel generalizing depth operand place cs with
  | zero => exact absurd hfuel (Nat.not_lt_zero _)
  | succ fuel ih =>
      cases cs with
      | nil => exact .done
      | cons c cs =>
          have hrest : cs.length < fuel := Nat.lt_of_succ_lt_succ hfuel
          cases hblank : isBlank c with
          | true =>
              rw [run, if_pos hblank] at h ⊢
              exact .blank hblank (ih hrest h)
          | false =>
              rw [run_cons hblank] at h ⊢
              obtain ⟨hfault, hissues⟩ := Result.record_issues_eq_nil.mp h
              rw [Result.record_lexemes]
              rw [hfault] at hissues ⊢
              exact .step hblank hfault
                (ih (Nat.lt_of_le_of_lt (scan_fits depth c cs).shorter hrest) hissues)

/-- A run with fuel for the whole text finds what the text gives. -/
theorem Lexed.run_eq {depth : Nat} {operand : Bool} {cs : List Char} {ls : List Lexeme}
    (h : Lexed depth operand cs ls) {fuel : Nat} (hfuel : cs.length < fuel) (budget : Nat)
    (place : Place) :
    (run fuel (budget + 1) depth operand place cs).issues = [] ∧
      (run fuel (budget + 1) depth operand place cs).tokens.map Token.lexeme = ls := by
  induction h generalizing fuel place with
  | done =>
      cases fuel with
      | zero => exact absurd hfuel (Nat.not_lt_zero _)
      | succ fuel => exact ⟨rfl, rfl⟩
  | blank hblank _ ih =>
      cases fuel with
      | zero => exact absurd hfuel (Nat.not_lt_zero _)
      | succ fuel =>
          rw [run, if_pos hblank]
          exact ih (Nat.lt_of_succ_lt_succ hfuel) _
  | @step depth operand c cs ls hblank hfault _ ih =>
      cases fuel with
      | zero => exact absurd hfuel (Nat.not_lt_zero _)
      | succ fuel =>
          have hrest := Nat.lt_of_le_of_lt (scan_fits depth c cs).shorter
            (Nat.lt_of_succ_lt_succ hfuel)
          obtain ⟨hnone, hls⟩ := ih hrest (place.after (scan depth c cs).taken)
          rw [run_cons hblank, Result.record_issues_eq_nil, Result.record_lexemes, hfault]
          exact ⟨⟨rfl, hnone⟩, congrArg (_ ++ ·) hls⟩

/-- The end of the input comes last and only there. -/
theorem Lexed.ends {depth : Nat} {operand : Bool} {cs : List Char} {ls : List Lexeme}
    (h : Lexed depth operand cs ls) (beyond : List Lexeme) : ∃ ls', Continued beyond ls ls' := by
  induction h with
  | done => exact ⟨_, .stop⟩
  | blank _ _ ih => exact ih
  | @step depth operand c cs ls _ _ _ ih =>
      obtain ⟨ls', hls⟩ := ih
      exact ⟨_, continued_keep hls operand (scan_fits depth c cs).inside⟩

/-- After a semicolon and a line break the text goes on as from its start. -/
theorem Lexed.lineEnd {ds : List Char} {ms : List Lexeme} (h : Lexed 0 false ds ms)
    (operand : Bool) : Lexed 0 operand (';' :: '\n' :: ds) (.semicolon :: ms) := by
  have hbreak : Lexed 0 false ('\n' :: ds) ms := @Lexed.step 0 false '\n' ds ms rfl rfl h
  have hscan : scan 0 ';' ('\n' :: ds) = .ok .semicolon [';'] ('\n' :: ds) 0 := by
    simp [scan, startsName, scanSymbol, double?, scanSingle, single?]
  have hstep := @Lexed.step 0 operand ';' ('\n' :: ds) ms rfl
  rw [hscan] at hstep
  exact hstep rfl hbreak

/-- A text that closes its brackets gives the same lexemes before another one. -/
theorem Lexed.join {depth : Nat} {operand : Bool} {cs ds : List Char} {ls ms : List Lexeme}
    (hone : Lexed depth operand cs ls) (hclosed : depthAfter depth ls = 0)
    (htwo : Lexed 0 false ds ms) :
    ∃ ls', Lexed depth operand (cs ++ ';' :: '\n' :: ds) ls' ∧ Continued ms ls ls' := by
  induction hone with
  | @done depth operand =>
      obtain rfl : depth = 0 := hclosed
      exact ⟨_, htwo.lineEnd operand, .stop⟩
  | blank hblank _ ih =>
      obtain ⟨ls', hlexed, hls⟩ := ih hclosed
      exact ⟨ls', .blank hblank hlexed, hls⟩
  | @step depth operand c cs ls hblank hfault _ ih =>
      have hfits := scan_fits depth c cs
      rw [depthAfter_keep, ← hfits.depth] at hclosed
      obtain ⟨ls', hlexed, hls⟩ := ih hclosed
      have hscan := scan_before (b := ';') rfl depth ('\n' :: ds) c cs hfault
      have hstep := @Lexed.step depth operand c (cs ++ ';' :: '\n' :: ds) ls' hblank
      rw [hscan] at hstep
      exact ⟨_, hstep hfault hlexed, continued_keep hls operand hfits.inside⟩

end Lexer

open Lexer in
/-- The texts that lex without issues, and their lexemes. -/
theorem lexed_iff {source : String} {ls : List Lexeme} :
    Lexed 0 false source.toList ls ↔ (lex source).issues = [] ∧ lexemes source = ls := by
  constructor
  · exact fun h => h.run_eq (Nat.lt_succ_self _) 19 ⟨1, 1⟩
  · rintro ⟨hissues, rfl⟩
    exact @lexed_of_run _ 19 _ _ _ _ (Nat.lt_succ_self _) hissues

open String (utf8Len)

namespace Lexer

open Parse

/-- From this bracket depth on, and after a token that can end an operand or not, the
text gives these lexemes without fault up to what is `left` of it. -/
inductive Passes : (depth : Nat) → (operand : Bool) → List Char → List Lexeme →
    (depth' : Nat) → (operand' : Bool) → (left : List Char) → Prop
  | done {depth : Nat} {operand : Bool} {left : List Char} :
      Passes depth operand left [] depth operand left
  | blank {depth depth' : Nat} {operand operand' : Bool} {c : Char} {cs left : List Char}
      {ls : List Lexeme} : isBlank c = true → Passes depth operand cs ls depth' operand' left →
      Passes depth operand (c :: cs) ls depth' operand' left
  | step {depth depth' : Nat} {operand operand' : Bool} {c : Char} {cs left : List Char}
      {ls : List Lexeme} : isBlank c = false → (scan depth c cs).fault = none →
      Passes (scan depth c cs).depth
        ((keep operand (scan depth c cs).lexeme).elim operand Lexeme.endsOperand)
        (scan depth c cs).rest ls depth' operand' left →
      Passes depth operand (c :: cs) ((keep operand (scan depth c cs).lexeme).toList ++ ls)
        depth' operand' left

namespace Passes

variable {depth depth' : Nat} {operand operand' : Bool} {cs left : List Char}
  {ls ms : List Lexeme}

theorem depth_eq (h : Passes depth operand cs ls depth' operand' left) :
    depth' = depthAfter depth ls := by
  induction h with
  | done => rfl
  | blank _ _ ih => exact ih
  | @step depth _ operand _ c cs _ ls _ _ _ ih =>
      rw [depthAfter_keep, ← (scan_fits depth c cs).depth]
      exact ih

/-- The last lexeme decides whether an operand can end. -/
theorem operand_eq (h : Passes depth operand cs ls depth' operand' left) :
    operand' = ls.getLast?.elim operand Lexeme.endsOperand := by
  induction h with
  | done => rfl
  | blank _ _ ih => exact ih
  | @step depth _ operand _ c cs _ ls _ _ _ ih =>
      rw [ih]
      cases keep operand (scan depth c cs).lexeme with
      | none => rfl
      | some l =>
          show ls.getLast?.elim l.endsOperand _ = (l :: ls).getLast?.elim operand _
          rw [List.getLast?_cons]
          cases ls.getLast? <;> rfl

/-- What is left of a text is its end, and after what comes before it anything may
come that starts with a line break. -/
theorem insert (h : Passes depth operand cs ls depth' operand' left) :
    ∃ passed, cs = passed ++ left ∧ ∀ {b : Char} (tail : List Char), separates b = true →
      Passes depth operand (passed ++ b :: tail) ls depth' operand' (b :: tail) := by
  induction h with
  | done => exact ⟨[], rfl, fun _ _ => .done⟩
  | @blank _ _ _ _ c _ _ _ hblank _ ih =>
      obtain ⟨passed, rfl, hpasses⟩ := ih
      exact ⟨c :: passed, rfl, fun tail hb => .blank hblank (hpasses tail hb)⟩
  | @step depth depth' operand operand' c cs left ls hblank hfault _ ih =>
      obtain ⟨passed, hrest, hpasses⟩ := ih
      obtain ⟨more, -, hcs⟩ := (scan_fits depth c cs).split
      rw [hrest, ← List.append_assoc] at hcs
      have hshort : left.length ≤ (scan depth c cs).rest.length := by
        rw [hrest, List.length_append]
        exact Nat.le_add_left _ _
      have hwithin : scan depth c cs = (scan depth c (more ++ passed)).before left := by
        rw [← hcs] at hfault hshort ⊢
        exact scan_within depth c _ left hfault hshort
      have hpassed : (scan depth c (more ++ passed)).rest = passed := by
        rw [hwithin] at hrest
        exact List.append_cancel_right hrest
      have hnone : (scan depth c (more ++ passed)).fault = none := by
        rw [hwithin] at hfault
        exact hfault
      refine ⟨c :: (more ++ passed), by rw [List.cons_append, hcs], fun {b} tail hb => ?_⟩
      have hrun := hpasses tail hb
      have hstep := @step depth depth' operand operand' c (more ++ passed ++ b :: tail)
        (b :: tail) ls hblank
      rw [scan_before hb depth tail c (more ++ passed) hnone, Step.before, hpassed] at hstep
      rw [hwithin] at hrun ⊢
      exact hstep hnone hrun

/-- What the text gives up to there and what is left of it gives after that. -/
theorem lexed (h : Passes depth operand cs ls depth' operand' left)
    (hleft : Lexed depth' operand' left ms) : Lexed depth operand cs (ls ++ ms) := by
  induction h with
  | done => exact hleft
  | blank hblank _ ih => exact .blank hblank (ih hleft)
  | step hblank hfault _ ih =>
      rw [List.append_assoc]
      exact .step hblank hfault (ih hleft)

theorem split (h : Passes depth operand cs ls depth' operand' left) {ns : List Lexeme}
    (hlexed : Lexed depth operand cs ns) :
    ∃ ms, ns = ls ++ ms ∧ Lexed depth' operand' left ms := by
  induction h generalizing ns with
  | done => exact ⟨ns, rfl, hlexed⟩
  | blank hblank _ ih =>
      cases hlexed with
      | blank _ hrest => exact ih hrest
      | step hnot => rw [hblank] at hnot; cases hnot
  | step hblank _ _ ih =>
      cases hlexed with
      | blank hnot => rw [hblank] at hnot; cases hnot
      | step _ _ hrest =>
          obtain ⟨ms, rfl, hms⟩ := ih hrest
          exact ⟨ms, (List.append_assoc _ _ _).symm, hms⟩

end Passes

/-- The text after `before` is passed up to this token, which starts there. -/
def Reaches (depth : Nat) (operand : Bool) (before rest : List Char) (ls : List Lexeme)
    (token : Token) : Prop :=
  ∃ passed c cs depth' operand', rest = passed ++ c :: cs ∧
    Passes depth operand rest ls depth' operand' (c :: cs) ∧ isBlank c = false ∧
    (scan depth' c cs).lexeme = some token.lexeme ∧
    token.span.start = placeAfter (before ++ passed)

theorem Reaches.blank {depth : Nat} {operand : Bool} {before cs : List Char} {c : Char}
    {ls : List Lexeme} {token : Token} (hblank : isBlank c = true)
    (h : Reaches depth operand (before ++ [c]) cs ls token) :
    Reaches depth operand before (c :: cs) ls token := by
  obtain ⟨passed, d, ds, depth', operand', hrest, hpasses, hd, hlexeme, hstart⟩ := h
  refine ⟨c :: passed, d, ds, depth', operand', congrArg (c :: ·) hrest,
    .blank hblank hpasses, hd, hlexeme, ?_⟩
  rw [hstart, List.append_assoc, List.singleton_append]

theorem Reaches.step {depth : Nat} {operand : Bool} {before cs : List Char} {c : Char}
    {ls : List Lexeme} {token : Token} (hblank : isBlank c = false)
    (hfault : (scan depth c cs).fault = none)
    (h : Reaches (scan depth c cs).depth
      ((keep operand (scan depth c cs).lexeme).elim operand Lexeme.endsOperand)
      (before ++ (scan depth c cs).taken) (scan depth c cs).rest ls token) :
    Reaches depth operand before (c :: cs)
      ((keep operand (scan depth c cs).lexeme).toList ++ ls) token := by
  obtain ⟨passed, d, ds, depth', operand', hrest, hpasses, hd, hlexeme, hstart⟩ := h
  refine ⟨(scan depth c cs).taken ++ passed, d, ds, depth', operand', ?_,
    .step hblank hfault hpasses, hd, hlexeme, ?_⟩
  · rw [List.append_assoc, ← hrest, scan_split]
  · rw [hstart, List.append_assoc]

/-- Every token of a text without issues is reached. -/
theorem Laid.reaches {depth : Nat} {operand : Bool} {before rest : List Char} {result : Result}
    (h : Laid depth operand before rest result) (hissues : result.issues = [])
    {front back : List Token} {token : Token} (htokens : result.tokens = front ++ token :: back)
    (hinside : token.lexeme ≠ .endOfInput) :
    Reaches depth operand before rest (front.map Token.lexeme) token := by
  induction h generalizing front with
  | stop =>
      cases front with
      | nil =>
          obtain ⟨rfl, -⟩ := List.cons.inj htokens
          exact absurd rfl hinside
      | cons _ front => exact absurd (List.cons.inj htokens).2 (by simp)
  | blank hblank _ ih => exact .blank hblank (ih hissues htokens)
  | @step depth operand before c cs result hblank _ ih =>
      obtain ⟨hfault, hissues⟩ := Result.record_issues_eq_nil.mp hissues
      have hlater := fun {front} htokens => Reaches.step hblank hfault (@ih hissues front htokens)
      rw [Result.record] at htokens
      cases hkeep : keep operand (scan depth c cs).lexeme with
      | none =>
          rw [hkeep] at htokens hlater
          exact hlater htokens
      | some l =>
          rw [hkeep] at htokens hlater
          cases front with
          | nil =>
              obtain ⟨rfl, -⟩ := List.cons.inj htokens
              exact ⟨[], c, cs, depth, operand, rfl, .done, hblank, eq_some_of_keep hkeep,
                by rw [List.append_nil]; rfl⟩
          | cons first front =>
              obtain ⟨rfl, hrest⟩ := List.cons.inj htokens
              exact hlater hrest

/-- What comes before a lexeme other than a line break makes no difference to it. -/
theorem Lexed.after {depth : Nat} {operand : Bool} {c : Char} {cs : List Char}
    {ls : List Lexeme} {l : Lexeme} (h : Lexed depth operand (c :: cs) ls)
    (hblank : isBlank c = false) (hlexeme : (scan depth c cs).lexeme = some l)
    (hl : l ≠ .newline) (operand' : Bool) : Lexed depth operand' (c :: cs) ls := by
  cases h with
  | blank hnot => rw [hblank] at hnot; cases hnot
  | @step _ _ _ _ ls _ hfault hrest =>
      have hstep := @Lexed.step depth operand' c cs ls hblank hfault
      rw [hlexeme, keep_of_ne hl] at hrest hstep ⊢
      exact hstep hrest

/-- A line break before a lexeme counts outside brackets after an operand. -/
theorem Lexed.lineBreak {depth : Nat} {operand : Bool} {c : Char} {cs : List Char}
    {ls : List Lexeme} {l : Lexeme} (h : Lexed depth operand (c :: cs) ls)
    (hblank : isBlank c = false) (hlexeme : (scan depth c cs).lexeme = some l)
    (hl : l ≠ .newline) :
    Lexed depth operand ('\n' :: c :: cs)
      (if depth = 0 ∧ operand = true then .newline :: ls else ls) := by
  have hstep := @Lexed.step depth operand '\n' (c :: cs) ls rfl
  rw [scan_break] at hstep
  cases depth with
  | succ depth => exact hstep rfl h
  | zero =>
      cases operand with
      | true => exact hstep rfl (h.after hblank hlexeme hl false)
      | false => exact hstep rfl h

theorem eq_nil_of_placeAfter {before more : List Char}
    (h : placeAfter (before ++ more) = placeAfter before) : more = [] := by
  cases more with
  | nil => rfl
  | cons c more =>
      have hlater := Place.lt_after (placeAfter before) c more
      rw [← placeAfter_append, h] at hlater
      exact absurd hlater (Place.lt_irrefl _)

/-- No two cuts of a text are at one place. -/
theorem eq_of_placeAfter {one two rest left : List Char}
    (htext : one ++ rest = two ++ left) (hplace : placeAfter one = placeAfter two) :
    one = two := by
  obtain ⟨more, rfl, -⟩ | ⟨more, rfl, -⟩ := List.append_eq_append_iff.mp htext
  · rw [eq_nil_of_placeAfter hplace.symm, List.append_nil]
  · rw [eq_nil_of_placeAfter hplace, List.append_nil]

/-- With a line break before a token the text has no fault and the same lexemes, but
for the line break itself if it counts. -/
theorem lexed_lineBreak {source : String} {front back : List Token} {token : Token}
    {before rest : List Char} (hissues : (lex source).issues = [])
    (htokens : (lex source).tokens = front ++ token :: back)
    (hinside : token.lexeme ≠ .endOfInput) (hbreak : token.lexeme ≠ .newline)
    (hsource : source.toList = before ++ rest)
    (hplace : (token.span.line, token.span.column) = Source.location source (utf8Len before)) :
    Lexed 0 false (before ++ '\n' :: rest) (front.map Token.lexeme ++
      if depthAfter 0 (front.map Token.lexeme) = 0 ∧
          (front.map Token.lexeme).getLast?.elim false Lexeme.endsOperand = true
        then .newline :: token.lexeme :: back.map Token.lexeme
        else token.lexeme :: back.map Token.lexeme) := by
  obtain ⟨passed, c, cs, depth, operand, hrest, hpasses, hblank, hlexeme, hstart⟩ :=
    (lex_laid source).reaches hissues htokens hinside
  rw [List.nil_append] at hstart
  obtain rfl : before = passed := by
    refine eq_of_placeAfter (hsource.symm.trans hrest) ?_
    rw [← hstart, Span.start]
    rw [location_placeAfter hsource] at hplace
    obtain ⟨hline, hcolumn⟩ := Prod.mk.inj hplace
    rw [hline, hcolumn]
  obtain rfl : rest = c :: cs := List.append_cancel_left (hsource.symm.trans hrest)
  have hlexed : Lexed 0 false source.toList (front.map Token.lexeme ++
      token.lexeme :: back.map Token.lexeme) := by
    rw [lexed_iff]
    refine ⟨hissues, ?_⟩
    rw [lexemes, htokens, List.map_append, List.map_cons]
  obtain ⟨ms, hms, hleft⟩ := hpasses.split hlexed
  obtain rfl := List.append_cancel_left hms
  obtain ⟨passed, hpassed, hinsert⟩ := hpasses.insert
  obtain rfl := List.append_cancel_right (hsource.symm.trans hpassed)
  rw [← hpasses.depth_eq, ← hpasses.operand_eq]
  exact (hinsert (c :: cs) rfl).lexed (hleft.lineBreak hblank hlexeme hbreak)

end Lexer

end SceneQuiz
