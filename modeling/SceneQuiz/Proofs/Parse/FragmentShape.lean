import SceneQuiz.Proofs.Parse.Shape
/-!
What the parser builds out of statements.  Reading only moves forward, also
where it fails and goes on with the next statement, so the expressions and flags
of every statement come from tokens of the text.  Whatever the text is and whatever
is reported about it, all that comes out of reading is put together well: names are
names, numbers are taken up by the lexer as one number, and no group, index or
conditional is left without its parts.
-/

namespace SceneQuiz

namespace Parse

variable {α β : Type}

/-- The parser takes tokens from the front and puts none back. -/
def Forward (p : Parse α) : Prop :=
  ∀ cursor, (p.run.run cursor).2.rest <:+ cursor.rest

namespace Forward

theorem pure (a : α) : Forward (Pure.pure a : Parse α) :=
  fun cursor => List.suffix_refl cursor.rest

theorem bind {p : Parse α} {f : α → Parse β} (hp : Forward p)
    (hf : ∀ a, Forward (f a)) : Forward (p >>= f) := by
  intro cursor
  have hfirst := hp cursor
  rw [run_bind]
  rcases hrun : p.run.run cursor with ⟨_ | a, after⟩
  · rwa [hrun] at hfirst
  · rw [hrun] at hfirst
    exact (hf a after).trans hfirst

theorem map {p : Parse α} (hp : Forward p) (g : α → β) : Forward (g <$> p) := by
  rw [map_eq_pure_bind]
  exact hp.bind fun a => pure (g a)

theorem ite {p : Prop} [Decidable p] {one two : Parse α} (hone : Forward one)
    (htwo : Forward two) : Forward (if p then one else two) := by
  split
  · exact hone
  · exact htwo

theorem peek : Forward peek := fun cursor => List.suffix_refl cursor.rest

theorem peekLexeme : Forward peekLexeme := fun cursor => List.suffix_refl cursor.rest

theorem peekSecond : Forward peekSecond := by
  intro cursor
  rcases cursor with ⟨_ | ⟨_, _ | ⟨_, _⟩⟩, last, issues⟩ <;> exact List.suffix_refl _

theorem lastSpan : Forward lastSpan := fun cursor => List.suffix_refl cursor.rest

theorem check (l : Lexeme) : Forward (check l) :=
  fun cursor => List.suffix_refl cursor.rest

theorem failure : Forward (failure : Parse α) :=
  fun cursor => List.suffix_refl cursor.rest

theorem failAt (fault : CodeFault) (span : Span) :
    Forward (failAt fault span : Parse α) :=
  fun cursor => List.suffix_refl cursor.rest

theorem failHere (fault : CodeFault) : Forward (failHere fault : Parse α) :=
  fun cursor => List.suffix_refl cursor.rest

theorem advance : Forward advance := by
  intro cursor
  rcases cursor with ⟨_ | ⟨token, rest⟩, last, issues⟩
  · exact List.suffix_refl _
  · exact List.suffix_cons token rest

theorem eat (l : Lexeme) : Forward (eat l) :=
  (check l).bind fun _ => ite (advance.bind fun _ => pure true) (pure false)

theorem expect (l : Lexeme) : Forward (expect l) :=
  peekLexeme.bind fun _ => ite advance (failHere _)

theorem expectName : Forward expectName := by
  refine peekLexeme.bind fun found => ?_
  cases found with
  | ident name => exact advance.bind fun _ => pure name
  | _ => exact failHere _

theorem skipContinuation : Forward skipContinuation :=
  (check _).bind fun _ => peekSecond.bind fun _ =>
    ite (advance.bind fun _ => pure ()) (pure ())

theorem closeNode (expr : Expr) (start : Span) (parts : List Marked) :
    Forward (closeNode expr start parts) :=
  lastSpan.bind fun _ => pure _

theorem literal (expr : Expr) : Forward (literal expr) := advance.bind fun _ => pure _

theorem get : Forward (MonadState.get : Parse Cursor) :=
  fun cursor => List.suffix_refl cursor.rest

theorem fuelAhead : Forward fuelAhead := fun cursor => List.suffix_refl cursor.rest

end Forward

/-- With this much fuel every reader moves forward. -/
structure ReadersForward (fuel : Nat) : Prop where
  level : ∀ nesting level, Forward (parseAt fuel nesting level)
  tail : ∀ nesting level left, Forward (parseTail fuel nesting level left)
  suffix : ∀ nesting target, Forward (parseSuffix fuel nesting target)
  operand : ∀ nesting, Forward (parseOperand fuel nesting)
  body : ∀ nesting, Forward (parseBody fuel nesting)
  items : ∀ nesting close, Forward (parseItems fuel nesting close)
  more : ∀ nesting close, Forward (parseMore fuel nesting close)
  arms : ∀ nesting, Forward (parseArms fuel nesting)

namespace Forward

variable {fuel : Nat}

theorem level_succ (h : ReadersForward fuel) (nesting : Nat) (level : Level) :
    Forward (parseAt (fuel + 1) nesting level) := by
  unfold parseAt
  cases level with
  | expression => exact ite (failHere _) (h.level _ _)
  | assignment =>
      refine (h.level _ _).bind fun left => peekLexeme.bind fun next => ?_
      cases assignment? next with
      | none => exact .pure _
      | some op => exact advance.bind fun _ => (h.level _ _).bind fun _ => .pure _
  | negation =>
      exact (check _).bind fun _ =>
        ite (advance.bind fun _ => (h.level _ _).bind fun _ => .pure _) (h.level _ _)
  | comparison =>
      refine (h.level _ _).bind fun left => peekLexeme.bind fun next => ?_
      cases comparison? next with
      | none => exact .pure _
      | some op =>
          exact advance.bind fun _ => (h.level _ _).bind fun _ =>
            peekLexeme.bind fun _ => ite (failHere _) (.pure _)
  | sign =>
      refine peekLexeme.bind fun next => ?_
      split
      · exact advance.bind fun _ => (h.level _ _).bind fun _ => .pure _
      · exact advance.bind fun _ => h.level _ _
      · exact h.level _ _
  | power =>
      exact (h.level _ _).bind fun _ => (eat _).bind fun _ =>
        ite ((h.level _ _).bind fun _ => .pure _) (.pure _)
  | quotation =>
      exact (check _).bind fun _ =>
        ite (advance.bind fun _ => (h.level _ _).bind fun _ => .pure _) (h.level _ _)
  | suffix => exact (h.level _ _).bind fun _ => h.suffix _ _
  | operand => exact h.operand _
  | _ => exact (h.level _ _).bind fun _ => h.tail _ _ _

theorem tail_succ (h : ReadersForward fuel) (nesting : Nat) (level : Level)
    (left : Marked) : Forward (parseTail (fuel + 1) nesting level left) := by
  refine peekLexeme.bind fun next => ?_
  cases level.operator? next with
  | none => exact .pure _
  | some op => exact advance.bind fun _ => (h.level _ _).bind fun _ => h.tail _ _ _

theorem suffix_succ (h : ReadersForward fuel) (nesting : Nat) (target : Marked) :
    Forward (parseSuffix (fuel + 1) nesting target) := by
  refine peekLexeme.bind fun next => ?_
  split
  · split
    · exact advance.bind fun _ => (h.items _ _).bind fun _ =>
        (closeNode _ _ _).bind fun _ => h.suffix _ _
    · exact .pure _
  · exact advance.bind fun _ => (h.items _ _).bind fun _ =>
      ite (lastSpan.bind fun _ => failAt _ _)
        ((closeNode _ _ _).bind fun _ => h.suffix _ _)
  · exact advance.bind fun _ => h.suffix _ _
  · exact .pure _

theorem range (h : ReadersForward fuel) (nesting : Nat) (start : Span) (var : String) :
    Forward (do
      let _ ← Parse.expect .colon
      let first ← parseAt fuel nesting .disjunction
      Parse.skipContinuation
      let step ← if ← Parse.eat (.word .stepWord) then
          some <$> parseAt fuel nesting .disjunction
        else Pure.pure none
      Parse.skipContinuation
      let _ ← Parse.expect (.word .thruWord)
      let last ← parseAt fuel nesting .disjunction
      let body ← parseBody fuel nesting
      Parse.closeNode
        (.forRange var first.expr (step.map Marked.expr) last.expr body.expr)
        start (first :: step.toList ++ [last, body])) := by
  refine (expect _).bind fun _ => (h.level _ _).bind fun _ =>
    skipContinuation.bind fun _ => (eat _).bind fun _ => ?_
  refine ite (((h.level _ _).map some).bind fun step => ?_)
    ((pure none).bind fun step => ?_)
  all_goals
    exact skipContinuation.bind fun _ => (expect _).bind fun _ =>
      (h.level _ _).bind fun _ => (h.body _).bind fun _ => closeNode _ _ _

theorem operand_succ (h : ReadersForward fuel) (nesting : Nat) :
    Forward (parseOperand (fuel + 1) nesting) := by
  refine peekLexeme.bind fun next => ?_
  split
  · exact literal _
  · exact literal _
  · exact literal _
  · exact literal _
  · exact literal _
  · refine advance.bind fun _ => (h.items _ _).bind fun items => ?_
    split
    · exact lastSpan.bind fun _ => failAt _ _
    · exact .pure _
    · exact closeNode _ _ _
  · exact advance.bind fun _ => (h.items _ _).bind fun _ => closeNode _ _ _
  · exact advance.bind fun _ => (h.items _ _).bind fun _ => closeNode _ _ _
  · exact advance.bind fun _ => (h.arms _).bind fun _ => (eat _).bind fun _ =>
      ite ((h.level _ _).bind fun _ => closeNode _ _ _) (closeNode _ _ _)
  · refine advance.bind fun _ => expectName.bind fun _ => (eat _).bind fun _ => ?_
    exact ite ((h.level _ _).bind fun _ => (h.body _).bind fun _ => closeNode _ _ _)
      (range h _ _ _)
  · exact failHere _
  · exact failHere _
  · exact failHere _
  · exact failHere _
  · exact failHere _

theorem body_succ (h : ReadersForward fuel) (nesting : Nat) :
    Forward (parseBody (fuel + 1) nesting) :=
  skipContinuation.bind fun _ => (expect _).bind fun _ => h.level _ _

theorem items_succ (h : ReadersForward fuel) (nesting : Nat) (close : Lexeme) :
    Forward (parseItems (fuel + 1) nesting close) :=
  (eat _).bind fun _ => ite (.pure _) (h.more _ _)

theorem more_succ (h : ReadersForward fuel) (nesting : Nat) (close : Lexeme) :
    Forward (parseMore (fuel + 1) nesting close) := by
  refine (h.level _ _).bind fun item => (eat _).bind fun _ =>
    ite ((h.more _ _).bind fun _ => .pure _) ((eat _).bind fun _ => ite (.pure _) ?_)
  refine peekLexeme.bind fun next => ?_
  cases next <;> exact failHere _

theorem arms_succ (h : ReadersForward fuel) (nesting : Nat) :
    Forward (parseArms (fuel + 1) nesting) :=
  (h.level _ _).bind fun _ => skipContinuation.bind fun _ =>
    (expect _).bind fun _ => (h.level _ _).bind fun _ =>
      skipContinuation.bind fun _ => (eat _).bind fun _ =>
        ite ((h.arms _).bind fun _ => .pure _) (.pure _)

end Forward

theorem readersForward (fuel : Nat) : ReadersForward fuel := by
  induction fuel with
  | zero => constructor <;> intros <;> exact Forward.failure
  | succ fuel ih =>
      exact ⟨Forward.level_succ ih, Forward.tail_succ ih, Forward.suffix_succ ih,
        Forward.operand_succ ih, Forward.body_succ ih, Forward.items_succ ih,
        Forward.more_succ ih, Forward.arms_succ ih⟩

theorem Forward.flag : Forward parseFlag := by
  refine Forward.peek.bind fun _ => Forward.expectName.bind fun _ =>
    (Forward.eat _).bind fun _ => ?_
  refine Forward.ite ?_ ?_
  · exact Forward.fuelAhead.bind fun _ =>
      (((readersForward _).level _ _).map some).bind fun _ =>
        Forward.lastSpan.bind fun _ => Forward.pure _
  · exact (Forward.pure none).bind fun _ =>
      Forward.lastSpan.bind fun _ => Forward.pure _

theorem Forward.flags (fuel : Nat) : Forward (parseFlags fuel) := by
  induction fuel with
  | zero => exact Forward.pure []
  | succ fuel ih =>
      exact (Forward.eat _).bind fun _ =>
        Forward.ite (Forward.flag.bind fun _ => ih.bind fun _ => Forward.pure _)
          (Forward.pure _)

theorem Forward.statement : Forward parseStatement :=
  Forward.fuelAhead.bind fun _ => ((readersForward _).level _ _).bind fun _ =>
    Forward.get.bind fun _ => (Forward.flags _).bind fun _ => Forward.pure _

end Parse

/-- A statement that text can stand for. -/
structure Statement.Spelled (statement : Statement) : Prop where
  expr : statement.expr.Everywhere Expr.Spelled
  names : ∀ flag ∈ statement.flags, isName flag.name = true
  values : ∀ flag ∈ statement.flags, ∀ value ∈ flag.value,
    value.Everywhere Expr.Spelled

namespace Parse

open SceneQuiz.Expr (Everywhere Spelled)

theorem gives_readFlag {ls : List Lexeme} (hls : AllLawful ls) :
    Gives (fun flag : Flag => isName flag.name = true ∧
      ∀ value ∈ flag.value, Everywhere Spelled value) (readFlag ls) := by
  refine (Gives.passName hls).bind fun name ls hname hls => Gives.ite ?_ ?_
  · refine ((readersShape _).level _ _ _ hls.tail).bind fun value ls hvalue hls => ?_
    refine Gives.some ⟨hname, fun found hfound => ?_⟩ hls
    rw [← Option.mem_some_iff.mp hfound]
    exact hvalue
  · exact Gives.some ⟨hname, by simp⟩ hls

theorem gives_readFlags (fuel : Nat) {ls : List Lexeme} (hls : AllLawful ls) :
    Gives (fun flags : List Flag => ∀ flag ∈ flags, isName flag.name = true ∧
      ∀ value ∈ flag.value, Everywhere Spelled value) (readFlags fuel ls) := by
  induction fuel generalizing ls with
  | zero => exact Gives.some (by simp) hls
  | succ fuel ih =>
      unfold readFlags
      refine Gives.ite ?_ (Gives.some (by simp) hls)
      refine (gives_readFlag hls.tail).bind fun flag ls hflag hls => ?_
      refine (ih hls).bind fun flags ls hflags hls => ?_
      exact Gives.some (List.forall_mem_cons.mpr ⟨hflag, hflags⟩) hls

theorem gives_readStatement {ls : List Lexeme} (hls : AllLawful ls) :
    Gives Statement.Spelled (readStatement ls) := by
  refine ((readersShape _).level _ _ _ hls).bind fun expr ls hexpr hls => ?_
  refine (gives_readFlags _ hls).bind fun flags ls hflags hls => ?_
  exact Gives.some ⟨hexpr, fun flag hflag => (hflags flag hflag).1,
    fun flag hflag => (hflags flag hflag).2⟩ hls

/-- The tokens ahead are lawful. -/
def Lawful (cursor : Cursor) : Prop := AllLawful cursor.lexemes

theorem Lawful.suffix {cursor after : Cursor} (h : Lawful cursor)
    (hsuffix : after.rest <:+ cursor.rest) : Lawful after := by
  intro l hl
  obtain ⟨token, htoken, rfl⟩ := List.mem_map.mp hl
  exact h _ (List.mem_map_of_mem (hsuffix.subset htoken))

theorem spelled_of_parseStatement {cursor after : Cursor} {marked : MarkedStatement}
    (h : Lawful cursor) (hrun : parseStatement.run.run cursor = (some marked, after)) :
    marked.statement.Spelled := by
  have hagrees := parseStatement_agrees cursor
  cases hread : readStatement cursor.lexemes with
  | none =>
      rw [hread] at hagrees
      have hnone : (parseStatement.run.run cursor).1 = none := hagrees
      rw [hrun] at hnone
      cases hnone
  | some found =>
      rw [hread] at hagrees
      obtain ⟨statement, last, hsame, hview, -⟩ := hagrees
      cases hsame.symm.trans hrun
      rw [hview]
      exact (gives_readStatement h found hread).1

theorem dropTerminators_suffix (tokens : List Token) (last : Span) :
    (dropTerminators tokens last).1 <:+ tokens := by
  fun_induction dropTerminators tokens last with
  | case1 => exact List.suffix_refl _
  | case5 => exact List.suffix_refl _
  | _ token rest _ _ ih => exact ih.trans (List.suffix_cons token rest)

theorem dropStatement_suffix (tokens : List Token) (last : Span) :
    (dropStatement tokens last).1 <:+ tokens := by
  fun_induction dropStatement tokens last with
  | case1 => exact List.suffix_refl _
  | case2 => exact List.suffix_refl _
  | case6 token rest _ _ _ _ _ ih => exact ih.trans (List.suffix_cons token rest)
  | _ token rest => exact List.suffix_cons token rest

/-- The statements that are read come from lawful tokens, whatever happens
between them. -/
theorem spelled_of_parseStatements (fuel : Nat) {cursor : Cursor} (h : Lawful cursor) :
    ∀ marked ∈ (parseStatements fuel cursor).1, marked.statement.Spelled := by
  induction fuel generalizing cursor with
  | zero => exact nofun
  | succ fuel ih =>
      have hskipped : Lawful (skipTerminators cursor) :=
        h.suffix (dropTerminators_suffix _ _)
      unfold parseStatements
      dsimp only
      split
      · exact nofun
      · have hforward := Forward.statement (skipTerminators cursor)
        split
        · next after hrun =>
            rw [hrun] at hforward
            exact ih ((hskipped.suffix hforward).suffix (dropStatement_suffix _ _))
        · next marked after hrun =>
            rw [hrun] at hforward
            split
            · exact List.forall_mem_cons.mpr
                ⟨spelled_of_parseStatement hskipped hrun, ih (hskipped.suffix hforward)⟩
            · exact ih ((hskipped.suffix hforward).suffix (dropStatement_suffix _ _))

end Parse

/-- The statements that were read are such that text can stand for, whatever was
reported on the way. -/
theorem FragmentReading.spelled_fragment (source : String) :
    ∀ statement ∈ (readFragment source).fragment, statement.Spelled := by
  have hstart : Parse.Lawful (Parse.start source) := lexemes_lawful source
  intro statement hstatement
  obtain ⟨marked, hmarked, rfl⟩ := List.mem_map.mp hstatement
  exact Parse.spelled_of_parseStatements _ hstart marked hmarked

theorem Fragment.spelled_of_parse {source : String} {fragment : Fragment}
    (h : Fragment.parse source = .ok fragment) :
    ∀ statement ∈ fragment, statement.Spelled := by
  unfold Fragment.parse at h
  dsimp only at h
  split at h
  · cases h
    exact FragmentReading.spelled_fragment source
  · cases h

/-- A node that is put together well. -/
def Expr.WellFormed : Expr → Prop
  | .number text => LexesTo text [.number text]
  | .ident name | .call name _ => isName name = true
  | .index _ indices => 1 ≤ indices.length
  | .group items => 2 ≤ items.length
  | .cond branches _ => 1 ≤ branches.length
  | .forIn var _ _ | .forRange var _ _ _ _ => isName var = true
  | _ => True

/-- A statement whose expression and flags are put together well. -/
structure Statement.WellFormed (statement : Statement) : Prop where
  expr : statement.expr.Everywhere Expr.WellFormed
  names : ∀ flag ∈ statement.flags, isName flag.name = true
  values : ∀ flag ∈ statement.flags, ∀ value ∈ flag.value,
    value.Everywhere Expr.WellFormed

theorem Expr.wellFormed_of_spelled {e : Expr} (h : e.Spelled) : e.WellFormed := by
  cases e with
  | number text => exact (isNumeral_iff_lexesTo text).mp h
  | index _ items | cond items _ => exact List.length_pos_iff.mpr h
  | _ => exact h

theorem Statement.Spelled.wellFormed {statement : Statement} (h : statement.Spelled) :
    statement.WellFormed where
  expr := h.expr.mono fun _ => Expr.wellFormed_of_spelled
  names := h.names
  values flag hflag value hvalue :=
    (h.values flag hflag value hvalue).mono fun _ => Expr.wellFormed_of_spelled

/-- All that is read from a text is put together well: the one expression, if there
is one, and every statement that reading could recover. -/
theorem reading_wellFormed (source : String) :
    (∀ marked ∈ (readExpression source).value,
      marked.expr.Everywhere Expr.WellFormed) ∧
      ∀ statement ∈ (readFragment source).fragment, statement.WellFormed := by
  constructor
  · intro marked hmarked
    have hspelled := ExpressionReading.spelled_value source marked hmarked
    exact hspelled.mono fun _ => Expr.wellFormed_of_spelled
  · intro statement hstatement
    exact (FragmentReading.spelled_fragment source statement hstatement).wellFormed

/-- A text with a character that stands for nothing. -/
def strayText : String := "for k in [.5, f(2e3)[1]] do if (k, 7) = y then k ?"

theorem strayText_wellFormed :
    (∃ marked ∈ (readExpression strayText).value,
      marked.expr.Everywhere Expr.WellFormed) ∧
      (readExpression strayText).issues ≠ [] ∧
      (∃ statement ∈ (readFragment strayText).fragment, statement.WellFormed) ∧
      (readFragment strayText).issues ≠ [] := by
  have hread := reading_wellFormed strayText
  have hvalue : (readExpression strayText).value.isSome = true := by decide +kernel
  have hstatement : (readFragment strayText).fragment.head?.isSome = true := by
    decide +kernel
  obtain ⟨marked, hmarked⟩ := Option.isSome_iff_exists.mp hvalue
  obtain ⟨statement, hhead⟩ := Option.isSome_iff_exists.mp hstatement
  have hmem : statement ∈ (readFragment strayText).fragment := List.mem_of_mem_head? hhead
  exact ⟨⟨marked, hmarked, hread.1 marked hmarked⟩, by decide +kernel,
    ⟨statement, hmem, hread.2 statement hmem⟩, by decide +kernel⟩

end SceneQuiz
