import Mathlib.Data.List.TakeWhile
import SceneQuiz.Proofs.Parse.FailureReport
import SceneQuiz.Proofs.Parse.Locality
/-!
Which statements a list of lexemes holds.  Reading goes on after a fault, but the
fault stays reported, so a text is read without issues exactly if its lexemes are
statements and terminators all the way to the end of the input.
-/

namespace SceneQuiz

namespace Parse

/-- What the parser drops between statements. -/
def separates (l : Lexeme) : Bool := l.isTerminator && l != .endOfInput

theorem skipTerminators_lexemes (cursor : Cursor) :
    (skipTerminators cursor).lexemes = cursor.lexemes.dropWhile separates := by
  obtain ⟨tokens, last, issues⟩ := cursor
  show (dropTerminators tokens last).1.map Token.lexeme =
    (tokens.map Token.lexeme).dropWhile separates
  induction tokens generalizing last with
  | nil => rfl
  | cons token tokens ih =>
      rw [List.map_cons, dropTerminators]
      cases hlexeme : token.lexeme with
      | semicolon | dollar | newline => exact ih token.span
      | _ => simp [separates, Lexeme.isTerminator, hlexeme]

/-- The lexemes are those of the statements, with terminators between them and as
many as there may be before the first and after the last. -/
inductive Lists : List Lexeme → List Statement → Prop
  | done {ls : List Lexeme} : ahead (ls.dropWhile separates) = .endOfInput → Lists ls []
  | cons {ls rest : List Lexeme} {statement : Statement} {statements : List Statement} :
      ahead (ls.dropWhile separates) ≠ .endOfInput →
      readStatement (ls.dropWhile separates) = some (statement, rest) →
      (ahead rest).isTerminator = true → Lists rest statements →
      Lists ls (statement :: statements)

/-- What one round of reading comes to: the end, a fault that is reported, or a
statement with its terminator ahead. -/
inductive Round (fuel : Nat) (cursor : Cursor) : List MarkedStatement × Cursor → Prop
  | stop : ahead (cursor.lexemes.dropWhile separates) = .endOfInput ∨
        Log.errorLimit ≤ cursor.issues.length →
      Round fuel cursor ([], skipTerminators cursor)
  | fault (later : Cursor) : cursor.issues.length < later.issues.length →
      (∀ found, readStatement (cursor.lexemes.dropWhile separates) = some found →
        (ahead found.2).isTerminator = false) →
      Round fuel cursor (parseStatements fuel later)
  | read (marked : MarkedStatement) (after : Cursor) :
      ahead (cursor.lexemes.dropWhile separates) ≠ .endOfInput →
      readStatement (cursor.lexemes.dropWhile separates) =
        some (marked.statement, after.lexemes) →
      (ahead after.lexemes).isTerminator = true → after.issues = cursor.issues →
      Round fuel cursor
        (marked :: (parseStatements fuel after).1, (parseStatements fuel after).2)

theorem parseStatements_round (fuel : Nat) (cursor : Cursor) :
    Round fuel cursor (parseStatements (fuel + 1) cursor) := by
  have hagrees := parseStatement_agrees (skipTerminators cursor)
  have hreports := reports_parseStatement (skipTerminators cursor)
  rw [parseStatements]
  simp only [Cursor.next_lexeme, skipTerminators_lexemes] at hagrees ⊢
  split
  · next hstop => exact .stop hstop
  · next hgo =>
      rw [not_or] at hgo
      cases hread : readStatement (cursor.lexemes.dropWhile separates) with
      | none =>
          rw [hread] at hagrees
          rcases hrun : parseStatement.run.run (skipTerminators cursor) with ⟨found, after⟩
          obtain rfl : found = none := by
            have hnone : (parseStatement.run.run (skipTerminators cursor)).1 = none := hagrees
            rwa [hrun] at hnone
          exact .fault _ (hreports after hrun) (by rw [hread]; nofun)
      | some found =>
          rw [hread] at hagrees
          obtain ⟨marked, after, hrun, hmarked, hafter, hissues⟩ := hagrees
          simp only [hrun, hafter]
          split
          · next hterminator =>
              refine .read marked after hgo.1 ?_ (by rwa [hafter]) hissues
              rw [hread, hmarked, hafter]
          · next hterminator =>
              refine .fault _ ?_ fun other hother => ?_
              · show cursor.issues.length < (after.issues ++ [_]).length
                rw [hissues, List.length_append]
                exact Nat.lt_succ_self _
              · obtain rfl := Option.some.inj (hread.symm.trans hother)
                exact Bool.eq_false_iff.mpr hterminator

/-- No report is taken back. -/
theorem issues_le_parseStatements (fuel : Nat) (cursor : Cursor) :
    cursor.issues.length ≤ (parseStatements fuel cursor).2.issues.length := by
  induction fuel generalizing cursor with
  | zero => exact Nat.le_refl _
  | succ fuel ih =>
      have hround := parseStatements_round fuel cursor
      generalize parseStatements (fuel + 1) cursor = result at hround ⊢
      cases hround with
      | stop => exact Nat.le_refl _
      | fault later hissues => exact Nat.le_trans (Nat.le_of_lt hissues) (ih later)
      | read marked after _ _ _ hissues =>
          have hafter := ih after
          rwa [hissues] at hafter

theorem issues_of_parseStatements {fuel : Nat} {cursor : Cursor}
    (h : (parseStatements fuel cursor).2.issues = []) : cursor.issues = [] := by
  have hle := issues_le_parseStatements fuel cursor
  rw [h] at hle
  exact List.eq_nil_of_length_eq_zero (Nat.le_zero.mp hle)

/-- A cursor with these lexemes ahead that has read a statement has fewer ahead. -/
theorem length_after_statement {cursor after : Cursor} {statement : Statement}
    (h : readStatement (cursor.lexemes.dropWhile separates) = some (statement, after.lexemes)) :
    after.rest.length < cursor.rest.length := by
  have hshorter := (takes_readStatement _ _ h).shorter
  have hdropped := List.length_dropWhile_le separates cursor.lexemes
  simp only [Cursor.lexemes, List.length_map] at hshorter hdropped
  omega

/-- What is read without issues are the statements that the lexemes hold. -/
theorem lists_of_parseStatements {fuel : Nat} {cursor : Cursor}
    (hfuel : cursor.rest.length ≤ fuel) (h : (parseStatements fuel cursor).2.issues = []) :
    Lists cursor.lexemes
      ((parseStatements fuel cursor).1.map MarkedStatement.statement) := by
  induction fuel generalizing cursor with
  | zero =>
      have hempty := List.eq_nil_of_length_eq_zero (Nat.le_zero.mp hfuel)
      refine .done ?_
      rw [Cursor.lexemes, hempty]
      rfl
  | succ fuel ih =>
      have hround := parseStatements_round fuel cursor
      have hissues := issues_of_parseStatements h
      generalize parseStatements (fuel + 1) cursor = result at hround h ⊢
      cases hround with
      | stop hstop =>
          refine .done (hstop.resolve_right ?_)
          rw [hissues]
          decide
      | fault later hlater =>
          rw [issues_of_parseStatements h] at hlater
          exact absurd hlater (Nat.not_lt_zero _)
      | read marked after hahead hread hterminator =>
          have hshorter := length_after_statement hread
          exact .cons hahead hread hterminator (ih (by omega) h)

/-- The statements that the lexemes hold are read without issues. -/
theorem Lists.parse {ls : List Lexeme} {statements : List Statement} (h : Lists ls statements)
    {fuel : Nat} {cursor : Cursor} (hls : cursor.lexemes = ls) (hissues : cursor.issues = [])
    (hfuel : cursor.rest.length ≤ fuel) :
    (parseStatements fuel cursor).1.map MarkedStatement.statement = statements ∧
      (parseStatements fuel cursor).2.issues = [] := by
  induction h generalizing fuel cursor with
  | @done ls hahead =>
      cases fuel with
      | zero => exact ⟨rfl, hissues⟩
      | succ fuel =>
          have hend : (skipTerminators cursor).next.lexeme = .endOfInput := by
            rw [Cursor.next_lexeme, skipTerminators_lexemes, hls, hahead]
          rw [parseStatements, if_pos (.inl hend)]
          exact ⟨rfl, hissues⟩
  | @cons ls rest statement statements hahead hread hterminator _ ih =>
      subst hls
      cases fuel with
      | zero =>
          have hempty := List.eq_nil_of_length_eq_zero (Nat.le_zero.mp hfuel)
          rw [Cursor.lexemes, hempty] at hahead
          exact absurd rfl hahead
      | succ fuel =>
          have hround := parseStatements_round fuel cursor
          generalize parseStatements (fuel + 1) cursor = result at hround ⊢
          cases hround with
          | stop hstop =>
              rcases hstop with hend | hlimit
              · exact absurd hend hahead
              · rw [hissues] at hlimit
                exact absurd hlimit (by decide)
          | fault later _ hfault =>
              rw [hfault _ hread] at hterminator
              cases hterminator
          | read marked after _ hsame _ hafter =>
              have hshorter := length_after_statement hsame
              obtain ⟨hstatement, hrest⟩ := Prod.mk.inj (Option.some.inj (hsame.symm.trans hread))
              obtain ⟨hmore, hnone⟩ := ih hrest (hafter.trans hissues)
                (show after.rest.length ≤ fuel by omega)
              exact ⟨by rw [List.map_cons, hstatement, hmore], hnone⟩

/-- Only what comes after the first terminators counts. -/
theorem Lists.of_dropWhile {ls ls' : List Lexeme} {statements : List Statement}
    (h : Lists ls statements) (hls : ls'.dropWhile separates = ls.dropWhile separates) :
    Lists ls' statements := by
  cases h with
  | done hahead => exact .done (by rwa [hls])
  | cons hahead hread hterminator hrest =>
      exact .cons (by rwa [hls]) (by rwa [hls]) hterminator hrest

variable {beyond ls ls' : List Lexeme}

/-- After the terminators at their front both texts go on, or the first is at its
end and the second at what goes on. -/
theorem Continued.dropWhile (h : Continued beyond ls ls') :
    (ahead (ls.dropWhile separates) ≠ .endOfInput ∧
      ahead (ls'.dropWhile separates) ≠ .endOfInput ∧
      Continued beyond (ls.dropWhile separates) (ls'.dropWhile separates)) ∨
    (ls.dropWhile separates = [.endOfInput] ∧
      ls'.dropWhile separates = beyond.dropWhile separates) := by
  induction h with
  | stop => exact .inr ⟨rfl, rfl⟩
  | @cons l ls ls' hl hrest ih =>
      rw [List.dropWhile_cons, List.dropWhile_cons]
      split
      · exact ih
      · exact .inl ⟨hl, hl, .cons hl hrest⟩

/-- The statements before and after the semicolon. -/
theorem Lists.append {one two : List Statement} (hone : Lists ls one)
    (hls : Continued beyond ls ls') (htwo : Lists beyond two) : Lists ls' (one ++ two) := by
  induction hone generalizing ls' with
  | done hahead =>
      obtain ⟨hgoes, -⟩ | ⟨-, hdrop⟩ := hls.dropWhile
      · exact absurd hahead hgoes
      · exact htwo.of_dropWhile hdrop
  | @cons ls rest statement statements hahead hread hterminator _ ih =>
      obtain ⟨-, hgoes, hdrop⟩ | ⟨hend, -⟩ := hls.dropWhile
      · obtain ⟨rest', hread', hrest⟩ := kept_readStatement hdrop _ hread
        refine .cons hgoes hread' ?_ (ih hrest)
        rw [hrest.test Lexeme.isTerminator rfl]
        exact hterminator
      · rw [hend] at hahead
        exact absurd rfl hahead

theorem depthAfter_dropWhile (depth : Nat) (ls : List Lexeme) :
    depthAfter depth (ls.dropWhile separates) = depthAfter depth ls := by
  induction ls with
  | nil => rfl
  | cons l ls ih =>
      rw [List.dropWhile_cons]
      split
      · next hseparates =>
          have hlevel : l.isLevel = true := by
            cases l <;> first | rfl | cases hseparates
          rw [ih]
          show _ = depthAfter (l.depthAfter depth) ls
          rw [Lexeme.depthAfter_of_isLevel hlevel]
      · rfl

/-- Statements close the brackets that they open. -/
theorem Lists.depth {statements : List Statement} (h : Lists ls statements)
    (hls : Continued beyond ls ls') (depth : Nat) : depthAfter depth ls = depth := by
  induction h generalizing ls' with
  | @done ls hahead =>
      obtain ⟨hgoes, -⟩ | ⟨hend, -⟩ := hls.dropWhile
      · exact absurd hahead hgoes
      · rw [← depthAfter_dropWhile, hend]
        rfl
  | @cons ls rest statement statements hahead hread _ _ ih =>
      obtain ⟨-, -, hdrop⟩ | ⟨hend, -⟩ := hls.dropWhile
      · obtain ⟨rest', -, hrest⟩ := kept_readStatement hdrop _ hread
        have hdepth := (takes_readStatement _ _ hread).depth depth
        rw [← depthAfter_dropWhile]
        exact hdepth.trans (ih hrest)
      · rw [hend] at hahead
        exact absurd rfl hahead

end Parse

open Parse in
/-- A text is read as the statements that its lexemes hold, if it lexes without
issues, and not otherwise. -/
theorem Fragment.parse_eq_ok_iff {source : String} {fragment : Fragment} :
    Fragment.parse source = .ok fragment ↔
      (lex source).issues = [] ∧ Lists (lexemes source) fragment := by
  have hfuel : (start source).rest.length ≤ (start source).rest.length := Nat.le_refl _
  unfold Fragment.parse readFragment FragmentReading.fragment
  dsimp only
  constructor
  · intro h
    split at h
    · next hissues =>
        rw [List.isEmpty_iff] at hissues
        cases h
        exact ⟨issues_of_parseStatements hissues, lists_of_parseStatements hfuel hissues⟩
    · cases h
  · rintro ⟨hissues, hlists⟩
    have hls : (start source).lexemes = lexemes source := rfl
    obtain ⟨hstatements, hnone⟩ := hlists.parse hls hissues hfuel
    rw [if_pos (by rw [hnone]; rfl), hstatements]

end SceneQuiz
