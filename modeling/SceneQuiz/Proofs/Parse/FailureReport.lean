import SceneQuiz.Proofs.Expr.Spelling
import SceneQuiz.Proofs.Parse.Consumption
import SceneQuiz.Proofs.Parse.Erasure
/-!
A reading that fails says why.  The fuel of the parser bounds the calls between
two tokens and never runs out, so the parser fails only where it reports a
fault, and a text that is no expression has at least one issue.
-/

namespace SceneQuiz

namespace Parse

variable {α β : Type}

/-- From `cursor` the parser does not fail without a report. -/
def Reports (p : Parse α) (cursor : Cursor) : Prop :=
  ∀ after, p.run.run cursor = (none, after) → cursor.issues.length < after.issues.length

theorem step_shorter {cursor : Cursor} (h : ahead cursor.lexemes ≠ .endOfInput) :
    cursor.step.rest.length < cursor.rest.length := by
  rcases cursor with ⟨_ | ⟨token, rest⟩, last, issues⟩
  · exact absurd rfl h
  · exact Nat.lt_succ_self _

theorem step_shortens (cursor : Cursor) : cursor.step.rest.length ≤ cursor.rest.length := by
  rcases cursor with ⟨_ | ⟨token, rest⟩, last, issues⟩
  · exact Nat.le_refl _
  · exact Nat.le_succ _

namespace Reports

theorem pure (a : α) (cursor : Cursor) : Reports (Pure.pure a) cursor := nofun

theorem bind {p : Parse α} {f : α → Parse β} {cursor : Cursor} (hp : Reports p cursor)
    (hf : ∀ a after, p.run.run cursor = (some a, after) →
      after.issues = cursor.issues ∧ Reports (f a) after) : Reports (p >>= f) cursor := by
  intro last hlast
  rw [run_bind] at hlast
  rcases hrun : p.run.run cursor with ⟨_ | a, after⟩
  · rw [hrun] at hlast
    cases hlast
    exact hp _ hrun
  · rw [hrun] at hlast
    obtain ⟨hissues, hrest⟩ := hf a after hrun
    rw [← hissues]
    exact hrest last hlast

/-- A step that succeeds leaves the report to what follows it. -/
theorem step {p : Parse α} {f : α → Parse β} {cursor after : Cursor} {a : α}
    (hp : p.run.run cursor = (some a, after)) (hissues : after.issues = cursor.issues)
    (hf : Reports (f a) after) : Reports (p >>= f) cursor := by
  refine bind (fun last hlast => ?_) fun b last hlast => ?_
  · rw [hp] at hlast
    cases hlast
  · rw [hp] at hlast
    cases hlast
    exact ⟨hissues, hf⟩

/-- What a reader takes is no longer there for what follows it. -/
theorem bindTaken {γ : Type} {p : Parse α} {f : α → Parse β} {cursor : Cursor} {view : α → γ}
    {found : Option (γ × List Lexeme)} {count opened : Nat} (hp : Reports p cursor)
    (hagrees : Agrees p cursor view found) (htakes : Takes count opened cursor.lexemes found)
    (hf : ∀ a (after : Cursor), after.rest.length + count ≤ cursor.rest.length →
      Reports (f a) after) : Reports (p >>= f) cursor := by
  refine hp.bind fun a after hrun => ?_
  rcases found with _ | found
  · have hnone : (p.run.run cursor).1 = none := hagrees
    rw [hrun] at hnone
    cases hnone
  · obtain ⟨b, last, hsame, -, hlexemes, hissues⟩ := hagrees
    cases hrun.symm.trans hsame
    have hshorter := (htakes found rfl).shorter
    rw [← hlexemes, Cursor.lexemes, Cursor.lexemes, List.length_map, List.length_map]
      at hshorter
    exact ⟨hissues, hf a after hshorter⟩

section Steps

variable {cursor : Cursor}

theorem failAt (fault : CodeFault) (span : Span) :
    Reports (Parse.failAt fault span : Parse α) cursor := by
  rintro after ⟨⟩
  show cursor.issues.length < (cursor.issues ++ [CodeIssue.mk fault span]).length
  rw [List.length_append]
  exact Nat.lt_succ_self _

theorem failHere (fault : CodeFault) : Reports (Parse.failHere fault : Parse α) cursor :=
  failAt fault _

theorem peekLexeme {f : Lexeme → Parse α} (hf : Reports (f (ahead cursor.lexemes)) cursor) :
    Reports (Parse.peekLexeme >>= f) cursor := by
  refine step ?_ rfl hf
  rw [← Cursor.next_lexeme]
  rfl

theorem check {l : Lexeme} {f : Bool → Parse α}
    (hf : Reports (f (ahead cursor.lexemes == l)) cursor) :
    Reports (Parse.check l >>= f) cursor := by
  refine step ?_ rfl hf
  rw [← Cursor.next_lexeme]
  rfl

theorem lastSpan {f : Span → Parse α} (hf : ∀ span, Reports (f span) cursor) :
    Reports (Parse.lastSpan >>= f) cursor :=
  step rfl rfl (hf _)

theorem advance {l : Lexeme} {f : Span → Parse α} (hahead : ahead cursor.lexemes = l)
    (hl : l ≠ .endOfInput) (hf : ∀ span (after : Cursor), after.rest.length < cursor.rest.length →
      Reports (f span) after) : Reports (Parse.advance >>= f) cursor :=
  step rfl cursor.step_issues (hf _ _ (step_shorter (hahead ▸ hl)))

theorem eat {l : Lexeme} {f : Bool → Parse α} (hl : l ≠ .endOfInput)
    (hyes : ∀ after : Cursor, after.rest.length < cursor.rest.length → Reports (f true) after)
    (hno : Reports (f false) cursor) : Reports (Parse.eat l >>= f) cursor := by
  unfold Parse.eat
  rw [bind_assoc]
  refine check ?_
  by_cases hahead : ahead cursor.lexemes = l
  · rw [if_pos (beq_iff_eq.mpr hahead), bind_assoc]
    refine advance hahead hl fun _ after hafter => ?_
    rw [pure_bind]
    exact hyes after hafter
  · rw [if_neg (fun hbeq => hahead (beq_iff_eq.mp hbeq)), pure_bind]
    exact hno

theorem expect {l : Lexeme} {f : Span → Parse α} (hl : l ≠ .endOfInput)
    (hf : ∀ span (after : Cursor), after.rest.length < cursor.rest.length →
      Reports (f span) after) : Reports (Parse.expect l >>= f) cursor := by
  unfold Parse.expect
  rw [bind_assoc]
  refine peekLexeme ?_
  by_cases hahead : ahead cursor.lexemes = l
  · rw [if_pos hahead]
    exact advance hahead hl hf
  · rw [if_neg hahead]
    exact bind (failHere _) nofun

theorem expectName {f : String → Parse α}
    (hf : ∀ name (after : Cursor), after.rest.length < cursor.rest.length →
      Reports (f name) after) : Reports (Parse.expectName >>= f) cursor := by
  unfold Parse.expectName
  rw [bind_assoc]
  refine peekLexeme ?_
  split
  · next name hname =>
      rw [bind_assoc]
      refine advance hname Lexeme.noConfusion fun _ after hafter => ?_
      rw [pure_bind]
      exact hf name after hafter
  · exact bind (failHere _) nofun

theorem skipContinuation {f : Unit → Parse α}
    (hf : ∀ after : Cursor, after.rest.length ≤ cursor.rest.length → Reports (f ()) after) :
    Reports (Parse.skipContinuation >>= f) cursor := by
  have hpeek : Parse.peekSecond.run.run cursor =
      (some (ahead cursor.lexemes.tail), cursor) := by
    rcases cursor with ⟨_ | ⟨token, _ | ⟨second, rest⟩⟩, last, issues⟩ <;> rfl
  unfold Parse.skipContinuation
  rw [bind_assoc]
  refine check ?_
  rw [bind_assoc]
  refine step hpeek rfl ?_
  split
  · rw [bind_assoc]
    refine step rfl cursor.step_issues ?_
    rw [pure_bind]
    exact hf _ (step_shortens cursor)
  · rw [pure_bind]
    exact hf _ (Nat.le_refl _)

theorem closeNode (expr : Expr) (start : Span) (parts : List Marked) :
    Reports (Parse.closeNode expr start parts) cursor := nofun

theorem closeNodeThen {expr : Expr} {start : Span} {parts : List Marked} {f : Marked → Parse α}
    (hf : ∀ marked, Reports (f marked) cursor) :
    Reports (Parse.closeNode expr start parts >>= f) cursor :=
  step rfl rfl (hf _)

theorem literal (expr : Expr) : Reports (Parse.literal expr) cursor := nofun

end Steps

end Reports

/-- With this much fuel every part of the parser reports why it fails, unless
too many tokens are ahead for it.  A level that goes on to the next one takes no
token, so its fuel is counted with its rank; every token that is taken makes up
for a whole descent through the levels. -/
structure ReadersReport (fuel : Nat) : Prop where
  level : ∀ nesting (level : Level) (cursor : Cursor),
    16 * cursor.rest.length + 15 ≤ fuel + level.rank →
      Reports (parseAt fuel nesting level) cursor
  tail : ∀ nesting level left (cursor : Cursor), 16 * cursor.rest.length + 1 ≤ fuel →
    Reports (parseTail fuel nesting level left) cursor
  suffix : ∀ nesting target (cursor : Cursor), 16 * cursor.rest.length + 1 ≤ fuel →
    Reports (parseSuffix fuel nesting target) cursor
  operand : ∀ nesting (cursor : Cursor), 16 * cursor.rest.length + 1 ≤ fuel →
    Reports (parseOperand fuel nesting) cursor
  body : ∀ nesting (cursor : Cursor), 16 * cursor.rest.length + 1 ≤ fuel →
    Reports (parseBody fuel nesting) cursor
  items : ∀ nesting (close : Lexeme) (cursor : Cursor), close.closes = true →
    16 * cursor.rest.length + 16 ≤ fuel → Reports (parseItems fuel nesting close) cursor
  more : ∀ nesting (close : Lexeme) (cursor : Cursor), close.closes = true →
    16 * cursor.rest.length + 15 ≤ fuel → Reports (parseMore fuel nesting close) cursor
  arms : ∀ nesting (cursor : Cursor), 16 * cursor.rest.length + 15 ≤ fuel →
    Reports (parseArms fuel nesting) cursor

namespace ReadersReport

variable {fuel : Nat} {cursor : Cursor}

theorem levelThen (h : ReadersReport fuel) {nesting : Nat} {level : Level}
    {f : Marked → Parse β} (hfuel : 16 * cursor.rest.length + 15 ≤ fuel + level.rank)
    (hf : ∀ a (after : Cursor), after.rest.length < cursor.rest.length →
      Reports (f a) after) : Reports (parseAt fuel nesting level >>= f) cursor :=
  (h.level _ _ _ hfuel).bindTaken ((readersAgree fuel).level _ _ _)
    ((readersTake fuel).level _ _ _) hf

theorem bodyThen (h : ReadersReport fuel) {nesting : Nat} {f : Marked → Parse β}
    (hfuel : 16 * cursor.rest.length + 1 ≤ fuel)
    (hf : ∀ a (after : Cursor), after.rest.length ≤ cursor.rest.length →
      Reports (f a) after) : Reports (parseBody fuel nesting >>= f) cursor :=
  (h.body _ _ hfuel).bindTaken ((readersAgree fuel).body _ _) ((readersTake fuel).body _ _) hf

theorem itemsThen (h : ReadersReport fuel) {nesting : Nat} {close : Lexeme}
    {f : List Marked → Parse β} (hclose : close.closes = true)
    (hfuel : 16 * cursor.rest.length + 16 ≤ fuel)
    (hf : ∀ a (after : Cursor), after.rest.length ≤ cursor.rest.length →
      Reports (f a) after) : Reports (parseItems fuel nesting close >>= f) cursor :=
  (h.items _ _ _ hclose hfuel).bindTaken ((readersAgree fuel).items _ _ _)
    ((readersTake fuel).items _ _ _ hclose) hf

theorem moreThen (h : ReadersReport fuel) {nesting : Nat} {close : Lexeme}
    {f : List Marked → Parse β} (hclose : close.closes = true)
    (hfuel : 16 * cursor.rest.length + 15 ≤ fuel)
    (hf : ∀ a (after : Cursor), after.rest.length ≤ cursor.rest.length →
      Reports (f a) after) : Reports (parseMore fuel nesting close >>= f) cursor :=
  (h.more _ _ _ hclose hfuel).bindTaken ((readersAgree fuel).more _ _ _)
    ((readersTake fuel).more _ _ _ hclose) hf

theorem armsThen (h : ReadersReport fuel) {nesting : Nat}
    {f : List (Marked × Marked) → Parse β} (hfuel : 16 * cursor.rest.length + 15 ≤ fuel)
    (hf : ∀ a (after : Cursor), after.rest.length < cursor.rest.length →
      Reports (f a) after) : Reports (parseArms fuel nesting >>= f) cursor :=
  (h.arms _ _ hfuel).bindTaken ((readersAgree fuel).arms _ _) ((readersTake fuel).arms _ _) hf

theorem level_succ (h : ReadersReport fuel) (nesting : Nat) (level : Level) (cursor : Cursor)
    (hfuel : 16 * cursor.rest.length + 15 ≤ fuel + 1 + level.rank) :
    Reports (parseAt (fuel + 1) nesting level) cursor := by
  unfold parseAt
  cases level with
  | expression =>
      change _ ≤ fuel + 1 + 1 at hfuel
      show Reports (if nestingLimit ≤ nesting then _ else _) _
      split
      · exact .failHere _
      · exact h.level _ _ _ (show _ ≤ fuel + 2 by omega)
  | assignment =>
      change _ ≤ fuel + 1 + 2 at hfuel
      refine h.levelThen (show _ ≤ fuel + 3 by omega) fun left after hafter => .peekLexeme ?_
      split
      · exact .pure _ _
      · next op hop =>
          refine .advance rfl (ne_end_of_isLevel (isLevel_of_assignment? hop)) fun _ last hlast => ?_
          exact h.levelThen (show _ ≤ fuel + 2 by omega) fun _ _ _ => .pure _ _
  | negation =>
      change _ ≤ fuel + 1 + 5 at hfuel
      refine .check ?_
      split
      · next hword =>
          refine .advance (beq_iff_eq.mp hword) (by decide) fun _ after hafter => ?_
          exact h.levelThen (show _ ≤ fuel + 5 by omega) fun _ _ _ => .pure _ _
      · exact h.level _ _ _ (show _ ≤ fuel + 6 by omega)
  | comparison =>
      change _ ≤ fuel + 1 + 6 at hfuel
      refine h.levelThen (show _ ≤ fuel + 7 by omega) fun left after hafter => .peekLexeme ?_
      split
      · exact .pure _ _
      · next op hop =>
          refine .advance rfl (ne_end_of_isLevel (isLevel_of_comparison? hop)) fun _ last hlast => ?_
          refine h.levelThen (show _ ≤ fuel + 7 by omega) fun right stop _ => .peekLexeme ?_
          split
          · exact .failHere _
          · exact .pure _ _
  | sign =>
      change _ ≤ fuel + 1 + 9 at hfuel
      refine .peekLexeme ?_
      split
      · next hminus =>
          refine .advance hminus (by decide) fun _ after hafter => ?_
          exact h.levelThen (show _ ≤ fuel + 9 by omega) fun _ _ _ => .pure _ _
      · next hplus =>
          refine .advance hplus (by decide) fun _ after hafter => ?_
          exact h.level _ _ _ (show _ ≤ fuel + 9 by omega)
      · exact h.level _ _ _ (show _ ≤ fuel + 10 by omega)
  | power =>
      change _ ≤ fuel + 1 + 10 at hfuel
      refine h.levelThen (show _ ≤ fuel + 11 by omega) fun base after hafter => ?_
      refine .eat (by decide) (fun last hlast => ?_) (.pure _ _)
      exact h.levelThen (show _ ≤ fuel + 9 by omega) fun _ _ _ => .pure _ _
  | quotation =>
      change _ ≤ fuel + 1 + 11 at hfuel
      refine .check ?_
      split
      · next hquote =>
          refine .advance (beq_iff_eq.mp hquote) (by decide) fun _ after hafter => ?_
          exact h.levelThen (show _ ≤ fuel + 11 by omega) fun _ _ _ => .pure _ _
      · exact h.level _ _ _ (show _ ≤ fuel + 12 by omega)
  | suffix =>
      change _ ≤ fuel + 1 + 12 at hfuel
      exact h.levelThen (show _ ≤ fuel + 13 by omega) fun target after hafter =>
        h.suffix _ _ _ (by omega)
  | operand =>
      change _ ≤ fuel + 1 + 13 at hfuel
      exact h.operand _ _ (by omega)
  | disjunction | conjunction | sum | product =>
      simp only [Level.rank] at hfuel
      refine h.levelThen (by simp only [Level.tighter, Level.rank]; omega)
        fun left after hafter => h.tail _ _ _ _ (by omega)

theorem tail_succ (h : ReadersReport fuel) (nesting : Nat) (level : Level) (left : Marked)
    (cursor : Cursor) (hfuel : 16 * cursor.rest.length + 1 ≤ fuel + 1) :
    Reports (parseTail (fuel + 1) nesting level left) cursor := by
  unfold parseTail
  refine .peekLexeme ?_
  split
  · exact .pure _ _
  · next op hop =>
      refine .advance rfl (ne_end_of_isLevel (isLevel_of_operator? hop)) fun _ after hafter => ?_
      exact h.levelThen (by omega) fun right last hlast => h.tail _ _ _ _ (by omega)

theorem suffix_succ (h : ReadersReport fuel) (nesting : Nat) (target : Marked)
    (cursor : Cursor) (hfuel : 16 * cursor.rest.length + 1 ≤ fuel + 1) :
    Reports (parseSuffix (fuel + 1) nesting target) cursor := by
  unfold parseSuffix
  refine .peekLexeme ?_
  split
  · next hparen =>
      split
      · refine .advance hparen (by decide) fun _ after hafter => ?_
        exact h.itemsThen rfl (by omega) fun args last hlast =>
          .closeNodeThen fun _ => h.suffix _ _ _ (by omega)
      · exact .pure _ _
  · next hbracket =>
      refine .advance hbracket (by decide) fun _ after hafter => ?_
      refine h.itemsThen rfl (by omega) fun indices last hlast => ?_
      split
      · exact .lastSpan fun _ => .failAt _ _
      · exact .closeNodeThen fun _ => h.suffix _ _ _ (by omega)
  · next hbang =>
      refine .advance hbang (by decide) fun _ after hafter => ?_
      exact h.suffix _ _ _ (by omega)
  · exact .pure _ _

theorem body_succ (h : ReadersReport fuel) (nesting : Nat) (cursor : Cursor)
    (hfuel : 16 * cursor.rest.length + 1 ≤ fuel + 1) :
    Reports (parseBody (fuel + 1) nesting) cursor := by
  unfold parseBody
  refine .skipContinuation fun after hafter => .expect (by decide) fun _ last hlast => ?_
  exact h.level _ _ _ (by omega)

theorem items_succ (h : ReadersReport fuel) (nesting : Nat) (close : Lexeme) (cursor : Cursor)
    (hclose : close.closes = true) (hfuel : 16 * cursor.rest.length + 16 ≤ fuel + 1) :
    Reports (parseItems (fuel + 1) nesting close) cursor := by
  unfold parseItems
  exact .eat (Lexeme.ne_endOfInput_of_closes hclose) (fun _ _ => .pure _ _)
    (h.more _ _ _ hclose (by omega))

theorem more_succ (h : ReadersReport fuel) (nesting : Nat) (close : Lexeme) (cursor : Cursor)
    (hclose : close.closes = true) (hfuel : 16 * cursor.rest.length + 15 ≤ fuel + 1) :
    Reports (parseMore (fuel + 1) nesting close) cursor := by
  unfold parseMore
  refine h.levelThen (show _ ≤ fuel + 1 by omega) fun item after hafter => .eat (by decide) ?_ ?_
  · intro last hlast
    exact h.moreThen hclose (by omega) fun _ _ _ => .pure _ _
  · refine .eat (Lexeme.ne_endOfInput_of_closes hclose) (fun _ _ => .pure _ _) (.peekLexeme ?_)
    split <;> exact .failHere _

theorem arms_succ (h : ReadersReport fuel) (nesting : Nat) (cursor : Cursor)
    (hfuel : 16 * cursor.rest.length + 15 ≤ fuel + 1) :
    Reports (parseArms (fuel + 1) nesting) cursor := by
  unfold parseArms
  refine h.levelThen (show _ ≤ fuel + 1 by omega) fun test after hafter => ?_
  refine .skipContinuation fun atThen hthen => .expect (by decide) fun _ inside hinside => ?_
  refine h.levelThen (show _ ≤ fuel + 1 by omega) fun body last hlast => ?_
  refine .skipContinuation fun atElse helse => .eat (by decide) (fun stop hstop => ?_) (.pure _ _)
  exact h.armsThen (by omega) fun _ _ _ => .pure _ _

/-- The part of a counting loop from `thru` on. -/
theorem rangeEnd (h : ReadersReport fuel) (nesting : Nat) (start : Span) (var : String)
    (first : Marked) (step : Option Marked) (cursor : Cursor)
    (hfuel : 16 * cursor.rest.length + 1 ≤ fuel) :
    Reports (do
        skipContinuation
        let _ ← expect (.word .thruWord)
        let last ← parseAt fuel nesting .disjunction
        let body ← parseBody fuel nesting
        closeNode
          (.forRange var first.expr (step.map Marked.expr) last.expr body.expr)
          start (first :: step.toList ++ [last, body])) cursor := by
  refine .skipContinuation fun atThru hthru => .expect (by decide) fun _ after hafter => ?_
  refine h.levelThen (show _ ≤ fuel + 3 by omega) fun last stop hstop => ?_
  exact h.bodyThen (by omega) fun _ _ _ => .closeNode _ _ _

theorem operand_succ (h : ReadersReport fuel) (nesting : Nat) (cursor : Cursor)
    (hfuel : 16 * cursor.rest.length + 1 ≤ fuel + 1) :
    Reports (parseOperand (fuel + 1) nesting) cursor := by
  unfold parseOperand
  refine .peekLexeme ?_
  split
  · exact .literal _
  · exact .literal _
  · exact .literal _
  · exact .literal _
  · exact .literal _
  · next hparen =>
      refine .advance hparen (by decide) fun _ after hafter => ?_
      refine h.itemsThen rfl (by omega) fun items last hlast => ?_
      split
      · exact .lastSpan fun _ => .failAt _ _
      · exact .pure _ _
      · exact .closeNode _ _ _
  · next hbracket =>
      refine .advance hbracket (by decide) fun _ after hafter => ?_
      exact h.itemsThen rfl (by omega) fun _ _ _ => .closeNode _ _ _
  · next hbrace =>
      refine .advance hbrace (by decide) fun _ after hafter => ?_
      exact h.itemsThen rfl (by omega) fun _ _ _ => .closeNode _ _ _
  · next hif =>
      refine .advance hif (by decide) fun _ after hafter => ?_
      refine h.armsThen (by omega) fun arms last hlast => ?_
      refine .eat (by decide) (fun stop hstop => ?_) (.closeNode _ _ _)
      exact h.levelThen (show _ ≤ fuel + 1 by omega) fun _ _ _ => .closeNode _ _ _
  · next hfor =>
      refine .advance hfor (by decide) fun _ after hafter => ?_
      refine .expectName fun var named hnamed => .eat (by decide) (fun source hsource => ?_) ?_
      · refine h.levelThen (show _ ≤ fuel + 3 by omega) fun _ last hlast => ?_
        exact h.bodyThen (by omega) fun _ _ _ => .closeNode _ _ _
      · refine .expect (by decide) fun _ from' hfrom => ?_
        refine h.levelThen (show _ ≤ fuel + 3 by omega) fun first atStep hstep => ?_
        refine .skipContinuation fun skipped hskipped => .eat (by decide) (fun inStep hin => ?_) ?_
        · show Reports (some <$> parseAt fuel nesting .disjunction >>= fun _ => _) inStep
          rw [bind_map_left]
          exact h.levelThen (show _ ≤ fuel + 3 by omega) fun step last hlast =>
            h.rangeEnd _ _ _ _ (some step) _ (by omega)
        · exact h.rangeEnd _ _ _ _ none _ (by omega)
  all_goals exact .failHere _

end ReadersReport

/-- A part of the parser that has fuel for the tokens ahead fails only with a
report. -/
theorem readersReport (fuel : Nat) : ReadersReport fuel := by
  induction fuel with
  | zero =>
      refine ⟨fun _ level _ hfuel => ?_, ?_, ?_, ?_, ?_, ?_, ?_, ?_⟩
      · cases level <;> simp only [Level.rank] at hfuel <;> omega
      all_goals
        intros
        omega
  | succ fuel ih =>
      exact ⟨ih.level_succ, ih.tail_succ, ih.suffix_succ, ih.operand_succ,
        ih.body_succ, ih.items_succ, ih.more_succ, ih.arms_succ⟩

theorem Reports.fuelAhead {cursor : Cursor} {f : Nat → Parse α}
    (hf : Reports (f (16 * (cursor.rest.length + 2))) cursor) :
    Reports (Parse.fuelAhead >>= f) cursor :=
  .step rfl rfl hf

theorem reports_parseFlag (cursor : Cursor) : Reports parseFlag cursor := by
  refine .step rfl rfl (.expectName fun name after _ => .eat (by decide) (fun value _ => ?_) ?_)
  · refine .fuelAhead ?_
    rw [bind_map_left]
    exact (readersReport _).levelThen (by simp only [Level.rank]; omega) fun _ _ _ =>
      .lastSpan fun _ => .pure _ _
  · exact .lastSpan fun _ => .pure _ _

theorem reports_parseFlags (fuel : Nat) (cursor : Cursor) :
    Reports (parseFlags fuel) cursor := by
  induction fuel generalizing cursor with
  | zero => exact .pure _ _
  | succ fuel ih =>
      refine .eat (by decide) (fun after _ => ?_) (.pure _ _)
      refine (reports_parseFlag after).bindTaken (parseFlag_agrees after) (takes_readFlag _)
        fun flag last _ => ?_
      exact (ih last).bindTaken (parseFlags_agrees fuel last) (takes_readFlags _ _)
        fun _ _ _ => .pure _ _

theorem reports_parseStatement (cursor : Cursor) : Reports parseStatement cursor := by
  refine .fuelAhead ((readersReport _).levelThen (by simp only [Level.rank]; omega)
    fun expr after _ => .step rfl rfl ?_)
  exact (reports_parseFlags _ after).bindTaken (parseFlags_agrees _ after)
    (takes_readFlags _ _) fun _ _ _ => .pure _ _

/-- A text that is no expression has an issue: only an empty one is given up
without a report, and only if it has an issue already. -/
theorem issues_of_parseSingle {cursor after : Cursor}
    (hrun : parseSingle.run.run cursor = (none, after)) : after.issues ≠ [] := by
  have hreported : ∀ {p : Parse Marked} {cursor : Cursor}, Reports p cursor →
      p.run.run cursor = (none, after) → after.issues ≠ [] := fun hp hrun hempty =>
    absurd (hp after hrun) (by rw [hempty]; exact Nat.not_lt_zero _)
  let skipped := (skipNewlines.run.run cursor).2
  change (if (skipped.next.lexeme == .endOfInput) = true then _ else _ : Parse Marked).run.run
    skipped = _ at hrun
  split at hrun
  · change (if skipped.issues.isEmpty = true then _ else _ : Parse Marked).run.run skipped = _
      at hrun
    split at hrun
    · exact hreported (.failHere _) hrun
    · next hissues =>
        have hsame : skipped = after := congrArg Prod.snd hrun
        rwa [List.isEmpty_iff, hsame] at hissues
  · refine hreported (.fuelAhead ?_) hrun
    refine (readersReport _).levelThen (by simp only [Level.rank]; omega) fun _ middle _ => ?_
    refine .step rfl rfl (.peekLexeme ?_)
    split
    · exact .pure _ _
    · exact .failHere _
    · exact .failHere _

end Parse

/-- A text that is not read as an expression comes with an issue. -/
theorem Expr.issues_of_parse {source : String} {issues : List CodeIssue}
    (h : Expr.parse source = .error issues) : issues ≠ [] := by
  unfold Expr.parse at h
  dsimp only at h
  split at h
  · split at h
    · cases h
    · next hissues =>
        cases h
        rwa [List.isEmpty_iff] at hissues
  · next hvalue =>
      cases h
      exact Parse.issues_of_parseSingle (Prod.ext hvalue rfl)

end SceneQuiz
