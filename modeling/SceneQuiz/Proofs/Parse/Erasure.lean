import SceneQuiz.Proofs.Parse.Reader
/-!
Spans steer nothing.  From every cursor the parser and the reader reach the
same expression and leave the same lexemes, and a parser that succeeds has
reported nothing.  One rule for each step of the parser carries the agreement
from a step to what follows it.
-/

namespace SceneQuiz

/-- The lexemes ahead. -/
def Cursor.lexemes (cursor : Cursor) : List Lexeme := cursor.rest.map Token.lexeme

theorem Cursor.next_lexeme (cursor : Cursor) :
    cursor.next.lexeme = Parse.ahead cursor.lexemes := by
  rcases cursor with ⟨_ | ⟨token, rest⟩, last, issues⟩ <;> rfl

theorem Cursor.step_lexemes (cursor : Cursor) :
    cursor.step.lexemes = cursor.lexemes.tail := by
  rcases cursor with ⟨_ | ⟨token, rest⟩, last, issues⟩ <;> rfl

theorem Cursor.step_issues (cursor : Cursor) :
    cursor.step.issues = cursor.issues := by
  rcases cursor with ⟨_ | ⟨token, rest⟩, last, issues⟩ <;> rfl

end SceneQuiz

namespace SceneQuiz.Parse

variable {α β γ δ : Type}

/-- From `cursor`, the parser gives what the reader gave, seen through `view`:
it leaves the same lexemes and reports nothing, or both fail. -/
def Agrees (p : Parse α) (cursor : Cursor) (view : α → β) :
    Option (β × List Lexeme) → Prop
  | some found => ∃ a after, p.run.run cursor = (some a, after) ∧
      view a = found.1 ∧ after.lexemes = found.2 ∧
      after.issues = cursor.issues
  | none => (p.run.run cursor).1 = none

theorem run_bind (p : Parse α) (f : α → Parse β) (cursor : Cursor) :
    (p >>= f).run.run cursor =
      match p.run.run cursor with
      | (some a, after) => (f a).run.run after
      | (none, after) => (none, after) := by
  show (OptionT.run (p >>= f)).run cursor = _
  rw [OptionT.run_bind]
  simp only [Option.elimM, StateT.run_bind]
  rcases (p.run.run cursor) with ⟨_ | a, after⟩ <;> rfl

namespace Agrees

theorem pure (a : α) (cursor : Cursor) (view : α → β) :
    Agrees (Pure.pure a) cursor view (some (view a, cursor.lexemes)) :=
  ⟨a, cursor, rfl, rfl, rfl, rfl⟩

theorem bind {p : Parse α} {cursor : Cursor} {view : α → β}
    {found : Option (β × List Lexeme)} {f : α → Parse γ} {view' : γ → δ}
    {k : β × List Lexeme → Option (δ × List Lexeme)}
    (hp : Agrees p cursor view found)
    (hf : ∀ a (after : Cursor),
      Agrees (f a) after view' (k (view a, after.lexemes))) :
    Agrees (p >>= f) cursor view' (found >>= k) := by
  cases found with
  | none =>
      have hrun := run_bind p f cursor
      rcases hout : p.run.run cursor with ⟨_ | a, after⟩
      · rw [hout] at hrun
        show ((p >>= f).run.run cursor).1 = none
        rw [hrun]
      · have hnone : (p.run.run cursor).1 = none := hp
        rw [hout] at hnone
        cases hnone
  | some found =>
      obtain ⟨a, after, hout, ha, hlexemes, hissues⟩ := hp
      have hrun := run_bind p f cursor
      rw [hout] at hrun
      have hcontinued := hf a after
      rw [ha, hlexemes] at hcontinued
      show Agrees (p >>= f) cursor view' (k found)
      rcases hk : k found with _ | result
      · have hnone : ((f a).run.run after).1 = none := by
          rw [hk] at hcontinued
          exact hcontinued
        show ((p >>= f).run.run cursor).1 = none
        rw [hrun]
        exact hnone
      · rw [hk] at hcontinued
        obtain ⟨c, last, hlast, hc, hleft, hreported⟩ := hcontinued
        exact ⟨c, last, hrun.trans hlast, hc, hleft,
          hreported.trans hissues⟩

theorem map {p : Parse α} {cursor : Cursor} {view : α → β}
    {found : Option (β × List Lexeme)} (hp : Agrees p cursor view found)
    {g : α → γ} {view' : γ → δ} {g' : β → δ}
    (hg : ∀ a, view' (g a) = g' (view a)) :
    Agrees (g <$> p) cursor view' (found.map fun x => (g' x.1, x.2)) := by
  rw [map_eq_pure_bind, Option.map_eq_bind]
  refine hp.bind fun a after => ?_
  show Agrees _ _ _ (some (g' (view a), after.lexemes))
  rw [← hg a]
  exact pure (g a) after view'

/-- A step that succeeds hands the agreement on to what follows it. -/
theorem step {p : Parse α} {cursor after : Cursor} {a : α} {f : α → Parse γ}
    {view : γ → δ} {found : Option (δ × List Lexeme)}
    (hp : p.run.run cursor = (some a, after))
    (hissues : after.issues = cursor.issues)
    (hf : Agrees (f a) after view found) : Agrees (p >>= f) cursor view found := by
  have hrun := run_bind p f cursor
  rw [hp] at hrun
  rcases found with _ | found
  · show ((p >>= f).run.run cursor).1 = none
    rw [hrun]
    exact hf
  · obtain ⟨c, last, hlast, hc, hleft, hreported⟩ := hf
    exact ⟨c, last, hrun.trans hlast, hc, hleft, hreported.trans hissues⟩

section Steps

variable {cursor : Cursor} {view : γ → δ} {found : Option (δ × List Lexeme)}

theorem peekLexeme {f : Lexeme → Parse γ}
    (hf : Agrees (f (ahead cursor.lexemes)) cursor view found) :
    Agrees (Parse.peekLexeme >>= f) cursor view found := by
  refine step ?_ rfl hf
  rw [← Cursor.next_lexeme]
  rfl

theorem check {l : Lexeme} {f : Bool → Parse γ}
    (hf : Agrees (f (ahead cursor.lexemes == l)) cursor view found) :
    Agrees (Parse.check l >>= f) cursor view found := by
  refine step ?_ rfl hf
  rw [← Cursor.next_lexeme]
  rfl

theorem advance {f : Span → Parse γ}
    (hf : ∀ span, Agrees (f span) cursor.step view found) :
    Agrees (Parse.advance >>= f) cursor view found :=
  step rfl cursor.step_issues (hf _)

theorem lastSpan {f : Span → Parse γ}
    (hf : ∀ span, Agrees (f span) cursor view found) :
    Agrees (Parse.lastSpan >>= f) cursor view found :=
  step rfl rfl (hf _)

theorem eat {l : Lexeme} {f : Bool → Parse γ}
    (hyes : ahead cursor.lexemes = l → Agrees (f true) cursor.step view found)
    (hno : ahead cursor.lexemes ≠ l → Agrees (f false) cursor view found) :
    Agrees (Parse.eat l >>= f) cursor view found := by
  unfold Parse.eat
  rw [bind_assoc]
  refine check ?_
  by_cases hl : ahead cursor.lexemes = l
  · rw [if_pos (beq_iff_eq.mpr hl), bind_assoc]
    refine advance fun _ => ?_
    rw [pure_bind]
    exact hyes hl
  · rw [if_neg (fun hbeq => hl (beq_iff_eq.mp hbeq)), pure_bind]
    exact hno hl

theorem failAt (fault : CodeFault) (span : Span) :
    Agrees (Parse.failAt fault span) cursor view none := rfl

theorem failHere (fault : CodeFault) :
    Agrees (Parse.failHere fault) cursor view none := rfl

theorem expect {l : Lexeme} {f : Span → Parse γ}
    {k : List Lexeme → Option (δ × List Lexeme)}
    (hf : ∀ span, Agrees (f span) cursor.step view (k cursor.step.lexemes)) :
    Agrees (Parse.expect l >>= f) cursor view
      (pass? l cursor.lexemes >>= k) := by
  unfold Parse.expect
  rw [bind_assoc]
  refine peekLexeme ?_
  by_cases hl : ahead cursor.lexemes = l
  · rw [if_pos hl, pass?, if_pos hl, ← cursor.step_lexemes]
    exact advance hf
  · rw [if_neg hl, pass?, if_neg hl]
    rfl

theorem expectName {f : String → Parse γ}
    {k : String × List Lexeme → Option (δ × List Lexeme)}
    (hf : ∀ name, Agrees (f name) cursor.step view
      (k (name, cursor.step.lexemes))) :
    Agrees (Parse.expectName >>= f) cursor view
      (passName? cursor.lexemes >>= k) := by
  unfold Parse.expectName passName?
  rw [bind_assoc]
  refine peekLexeme ?_
  cases ahead cursor.lexemes with
  | ident name =>
      show Agrees ((Parse.advance >>= fun _ => Pure.pure name) >>= f) cursor view
        (k (name, cursor.lexemes.tail))
      rw [bind_assoc, ← cursor.step_lexemes]
      refine advance fun _ => ?_
      rw [pure_bind]
      exact hf name
  | _ => rfl

theorem skipContinuation {f : Unit → Parse γ}
    (hf : ∀ after : Cursor, after.lexemes = passContinuation cursor.lexemes →
      Agrees (f ()) after view found) :
    Agrees (Parse.skipContinuation >>= f) cursor view found := by
  have hsecond : cursor.lexemes.tail = cursor.step.lexemes :=
    cursor.step_lexemes.symm
  have hpeek : Parse.peekSecond.run.run cursor =
      (some (ahead cursor.lexemes.tail), cursor) := by
    rcases cursor with ⟨_ | ⟨token, _ | ⟨second, rest⟩⟩, last, issues⟩ <;> rfl
  unfold Parse.skipContinuation
  rw [bind_assoc]
  refine check ?_
  rw [bind_assoc]
  refine step hpeek rfl ?_
  by_cases hskip : ahead cursor.lexemes = .newline ∧
      (ahead cursor.lexemes.tail).continuesStatement
  · rw [if_pos (by simpa using hskip), bind_assoc]
    refine advance fun _ => ?_
    rw [pure_bind]
    exact hf _ (by rw [passContinuation, if_pos hskip, hsecond])
  · rw [if_neg (by simpa using hskip), pure_bind]
    exact hf _ (by rw [passContinuation, if_neg hskip])

end Steps

section Nodes

variable {cursor : Cursor}

theorem node {β : Type} {view : Marked → β} {a : Marked} {b : β}
    (hview : view a = b) :
    Agrees (Pure.pure a) cursor view (some (b, cursor.lexemes)) := by
  rw [← hview]
  exact pure a cursor view

theorem closeNode (expr : Expr) (start : Span) (parts : List Marked) :
    Agrees (Parse.closeNode expr start parts) cursor Marked.expr
      (some (expr, cursor.lexemes)) :=
  lastSpan fun _ => node rfl

theorem literal (expr : Expr) :
    Agrees (Parse.literal expr) cursor Marked.expr
      (some (expr, cursor.lexemes.tail)) := by
  rw [← cursor.step_lexemes]
  exact advance fun _ => node rfl

end Nodes

end Agrees

/-- With this much fuel every part of the parser agrees with its reader. -/
structure ReadersAgree (fuel : Nat) : Prop where
  level : ∀ nesting level (cursor : Cursor),
    Agrees (parseAt fuel nesting level) cursor Marked.expr
      (readAt fuel nesting level cursor.lexemes)
  tail : ∀ nesting level left (cursor : Cursor),
    Agrees (parseTail fuel nesting level left) cursor Marked.expr
      (readTail fuel nesting level left.expr cursor.lexemes)
  suffix : ∀ nesting target (cursor : Cursor),
    Agrees (parseSuffix fuel nesting target) cursor Marked.expr
      (readSuffix fuel nesting target.expr cursor.lexemes)
  operand : ∀ nesting (cursor : Cursor),
    Agrees (parseOperand fuel nesting) cursor Marked.expr
      (readOperand fuel nesting cursor.lexemes)
  body : ∀ nesting (cursor : Cursor),
    Agrees (parseBody fuel nesting) cursor Marked.expr
      (readBody fuel nesting cursor.lexemes)
  items : ∀ nesting close (cursor : Cursor),
    Agrees (parseItems fuel nesting close) cursor exprsOf
      (readItems fuel nesting close cursor.lexemes)
  more : ∀ nesting close (cursor : Cursor),
    Agrees (parseMore fuel nesting close) cursor exprsOf
      (readMore fuel nesting close cursor.lexemes)
  arms : ∀ nesting (cursor : Cursor),
    Agrees (parseArms fuel nesting) cursor
      (List.map fun arm => (arm.1.expr, arm.2.expr))
      (readArms fuel nesting cursor.lexemes)

namespace ReadersAgree

variable {fuel : Nat}

theorem level_succ (h : ReadersAgree fuel) (nesting : Nat) (level : Level)
    (cursor : Cursor) :
    Agrees (parseAt (fuel + 1) nesting level) cursor Marked.expr
      (readAt (fuel + 1) nesting level cursor.lexemes) := by
  unfold parseAt readAt
  cases level with
  | expression =>
      show Agrees (if nestingLimit ≤ nesting then _ else _) _ _
        (if nestingLimit ≤ nesting then _ else _)
      split
      · exact Agrees.failHere _
      · exact h.level _ _ _
  | assignment =>
      refine (h.level _ _ _).bind fun left after => Agrees.peekLexeme ?_
      dsimp only
      cases assignment? (ahead after.lexemes) with
      | none => exact Agrees.node rfl
      | some op =>
          rw [← after.step_lexemes]
          refine Agrees.advance fun _ => ?_
          exact (h.level _ _ _).bind fun right last => Agrees.node rfl
  | negation =>
      refine Agrees.check ?_
      by_cases hnot : ahead cursor.lexemes = .word .notWord
      · rw [if_pos (beq_iff_eq.mpr hnot), if_pos hnot, ← cursor.step_lexemes]
        refine Agrees.advance fun _ => ?_
        exact (h.level _ _ _).bind fun operand after => Agrees.node rfl
      · rw [if_neg (fun hbeq => hnot (beq_iff_eq.mp hbeq)), if_neg hnot]
        exact h.level _ _ _
  | comparison =>
      refine (h.level _ _ _).bind fun left after => Agrees.peekLexeme ?_
      dsimp only
      cases comparison? (ahead after.lexemes) with
      | none => exact Agrees.node rfl
      | some op =>
          rw [← after.step_lexemes]
          refine Agrees.advance fun _ => ?_
          refine (h.level _ _ _).bind fun right last => Agrees.peekLexeme ?_
          show Agrees _ _ _ (if (comparison? (ahead last.lexemes)).isSome then _
            else _)
          split
          · exact Agrees.failHere _
          · exact Agrees.node rfl
  | sign =>
      refine Agrees.peekLexeme ?_
      rw [← cursor.step_lexemes]
      cases ahead cursor.lexemes with
      | minus =>
          refine Agrees.advance fun _ => ?_
          exact (h.level _ _ _).bind fun operand after => Agrees.node rfl
      | plus => exact Agrees.advance fun _ => h.level _ _ _
      | _ => exact h.level _ _ _
  | power =>
      refine (h.level _ _ _).bind fun base after => Agrees.eat ?_ ?_
      · intro hcaret
        show Agrees _ _ _ (if ahead after.lexemes = .caret then _ else _)
        rw [if_pos hcaret, ← after.step_lexemes]
        exact (h.level _ _ _).bind fun exponent last => Agrees.node rfl
      · intro hcaret
        show Agrees _ _ _ (if ahead after.lexemes = .caret then _ else _)
        rw [if_neg hcaret]
        exact Agrees.node rfl
  | quotation =>
      refine Agrees.check ?_
      by_cases hquote : ahead cursor.lexemes = .quote
      · rw [if_pos (beq_iff_eq.mpr hquote), if_pos hquote, ← cursor.step_lexemes]
        refine Agrees.advance fun _ => ?_
        exact (h.level _ _ _).bind fun operand after => Agrees.node rfl
      · rw [if_neg (fun hbeq => hquote (beq_iff_eq.mp hbeq)), if_neg hquote]
        exact h.level _ _ _
  | suffix =>
      exact (h.level _ _ _).bind fun target after => h.suffix _ _ _
  | operand => exact h.operand _ _
  | disjunction | conjunction | sum | product =>
      exact (h.level _ _ _).bind fun left after => h.tail _ _ _ _

theorem tail_succ (h : ReadersAgree fuel) (nesting : Nat) (level : Level)
    (left : Marked) (cursor : Cursor) :
    Agrees (parseTail (fuel + 1) nesting level left) cursor Marked.expr
      (readTail (fuel + 1) nesting level left.expr cursor.lexemes) := by
  unfold parseTail readTail
  refine Agrees.peekLexeme ?_
  rw [← cursor.step_lexemes]
  cases level.operator? (ahead cursor.lexemes) with
  | none => exact Agrees.node rfl
  | some op =>
      refine Agrees.advance fun _ => ?_
      exact (h.level _ _ _).bind fun right after =>
        h.tail _ _ (Marked.binary op left right) _

theorem suffix_succ (h : ReadersAgree fuel) (nesting : Nat) (target : Marked)
    (cursor : Cursor) :
    Agrees (parseSuffix (fuel + 1) nesting target) cursor Marked.expr
      (readSuffix (fuel + 1) nesting target.expr cursor.lexemes) := by
  unfold parseSuffix readSuffix
  refine Agrees.peekLexeme ?_
  rw [← cursor.step_lexemes]
  cases ahead cursor.lexemes with
  | leftParen =>
      rcases target with ⟨expr, marks⟩
      cases expr with
      | ident name =>
          refine Agrees.advance fun _ => ?_
          refine (h.items _ _ _).bind fun args after => ?_
          exact Agrees.lastSpan fun _ => h.suffix _ (Marked.node _ _ _) _
      | _ => exact Agrees.node rfl
  | leftBracket =>
      refine Agrees.advance fun _ => ?_
      refine (h.items _ _ _).bind fun indices after => ?_
      cases indices with
      | nil => exact Agrees.lastSpan fun _ => Agrees.failAt _ _
      | cons first rest =>
          exact Agrees.lastSpan fun _ => h.suffix _ (Marked.node _ _ _) _
  | bang =>
      exact Agrees.advance fun _ => h.suffix _ (Marked.node _ _ _) _
  | _ => exact Agrees.node rfl

theorem body_succ (h : ReadersAgree fuel) (nesting : Nat) (cursor : Cursor) :
    Agrees (parseBody (fuel + 1) nesting) cursor Marked.expr
      (readBody (fuel + 1) nesting cursor.lexemes) := by
  unfold parseBody readBody
  refine Agrees.skipContinuation fun after hafter => ?_
  rw [← hafter]
  exact Agrees.expect fun _ => h.level _ _ _

theorem items_succ (h : ReadersAgree fuel) (nesting : Nat) (close : Lexeme)
    (cursor : Cursor) :
    Agrees (parseItems (fuel + 1) nesting close) cursor exprsOf
      (readItems (fuel + 1) nesting close cursor.lexemes) := by
  unfold parseItems readItems
  refine Agrees.eat ?_ ?_
  · intro hclose
    rw [if_pos hclose, ← cursor.step_lexemes]
    exact Agrees.pure [] _ exprsOf
  · intro hclose
    rw [if_neg hclose]
    exact h.more _ _ _

theorem more_succ (h : ReadersAgree fuel) (nesting : Nat) (close : Lexeme)
    (cursor : Cursor) :
    Agrees (parseMore (fuel + 1) nesting close) cursor exprsOf
      (readMore (fuel + 1) nesting close cursor.lexemes) := by
  unfold parseMore readMore
  refine (h.level _ _ _).bind fun item after => Agrees.eat ?_ ?_
  · intro hcomma
    show Agrees _ _ _ (if ahead after.lexemes = .comma then _ else _)
    rw [if_pos hcomma, ← after.step_lexemes]
    exact (h.more _ _ _).bind fun items last =>
      Agrees.pure (item :: items) last exprsOf
  · intro hcomma
    show Agrees _ _ _ (if ahead after.lexemes = .comma then _ else _)
    rw [if_neg hcomma]
    refine Agrees.eat ?_ ?_
    · intro hclose
      show Agrees _ _ _ (pass? close after.lexemes >>= _)
      rw [pass?, if_pos hclose, ← after.step_lexemes]
      exact Agrees.pure [item] _ exprsOf
    · intro hclose
      show Agrees _ _ _ (pass? close after.lexemes >>= _)
      rw [pass?, if_neg hclose]
      refine Agrees.peekLexeme ?_
      split <;> exact Agrees.failHere _

theorem arms_succ (h : ReadersAgree fuel) (nesting : Nat) (cursor : Cursor) :
    Agrees (parseArms (fuel + 1) nesting) cursor
      (List.map fun arm => (arm.1.expr, arm.2.expr))
      (readArms (fuel + 1) nesting cursor.lexemes) := by
  unfold parseArms readArms
  refine (h.level _ _ _).bind fun test after => ?_
  refine Agrees.skipContinuation fun atThen hthen => ?_
  show Agrees _ _ _ (pass? (.word .thenWord) (passContinuation after.lexemes) >>= _)
  rw [← hthen]
  refine Agrees.expect fun _ => ?_
  refine (h.level _ _ _).bind fun body last => ?_
  refine Agrees.skipContinuation fun atElse helse => ?_
  show Agrees _ _ _ (if ahead (passContinuation last.lexemes) = _ then _ else _)
  rw [← helse]
  refine Agrees.eat ?_ ?_
  · intro hword
    rw [if_pos hword, ← atElse.step_lexemes]
    exact (h.arms _ _).bind fun arms stop =>
      Agrees.pure ((test, body) :: arms) stop
        (List.map fun arm => (arm.1.expr, arm.2.expr))
  · intro hword
    rw [if_neg hword]
    exact Agrees.pure [(test, body)] atElse
      (List.map fun arm => (arm.1.expr, arm.2.expr))

/-- The part of a counting loop from `thru` on. -/
theorem rangeEnd (h : ReadersAgree fuel) (nesting : Nat) (start : Span)
    (var : String) (first : Marked) (step : Option Marked) (cursor : Cursor) :
    Agrees (do
        skipContinuation
        let _ ← expect (.word .thruWord)
        let last ← parseAt fuel nesting .disjunction
        let body ← parseBody fuel nesting
        closeNode
          (.forRange var first.expr (step.map Marked.expr) last.expr body.expr)
          start (first :: step.toList ++ [last, body]))
      cursor Marked.expr
      (do
        let thru ← pass? (.word .thruWord) (passContinuation cursor.lexemes)
        let last ← readAt fuel nesting .disjunction thru
        let body ← readBody fuel nesting last.2
        some (.forRange var first.expr (step.map Marked.expr) last.1 body.1,
          body.2)) := by
  refine Agrees.skipContinuation fun atThru hthru => ?_
  rw [← hthru]
  refine Agrees.expect fun _ => (h.level _ _ _).bind fun last after => ?_
  exact (h.body _ _).bind fun body stop => Agrees.closeNode _ _ _

theorem operand_succ (h : ReadersAgree fuel) (nesting : Nat) (cursor : Cursor) :
    Agrees (parseOperand (fuel + 1) nesting) cursor Marked.expr
      (readOperand (fuel + 1) nesting cursor.lexemes) := by
  unfold parseOperand readOperand
  refine Agrees.peekLexeme ?_
  cases ahead cursor.lexemes with
  | number text => exact Agrees.literal _
  | str text => exact Agrees.literal _
  | ident name => exact Agrees.literal _
  | leftParen =>
      rw [← cursor.step_lexemes]
      refine Agrees.advance fun _ => (h.items _ _ _).bind fun items after => ?_
      rcases items with _ | ⟨item, _ | ⟨second, rest⟩⟩
      · exact Agrees.lastSpan fun _ => Agrees.failAt _ _
      · exact Agrees.node rfl
      · exact Agrees.closeNode _ _ _
  | leftBracket | leftBrace =>
      rw [← cursor.step_lexemes]
      exact Agrees.advance fun _ => (h.items _ _ _).bind fun items after =>
        Agrees.closeNode _ _ _
  | word w =>
      cases w with
      | trueWord | falseWord => exact Agrees.literal _
      | ifWord =>
          rw [← cursor.step_lexemes]
          refine Agrees.advance fun _ => (h.arms _ _).bind fun arms after => ?_
          refine Agrees.eat ?_ ?_
          · intro helse
            show Agrees _ _ _ (if ahead after.lexemes = .word .elseWord then _
              else _)
            rw [if_pos helse, ← after.step_lexemes]
            exact (h.level _ _ _).bind fun otherwise last =>
              Agrees.closeNode _ _ _
          · intro helse
            show Agrees _ _ _ (if ahead after.lexemes = .word .elseWord then _
              else _)
            rw [if_neg helse]
            exact Agrees.closeNode _ _ _
      | forWord =>
          rw [← cursor.step_lexemes]
          refine Agrees.advance fun _ => Agrees.expectName fun var => ?_
          refine Agrees.eat ?_ ?_
          · intro hin
            show Agrees _ _ _ (if ahead cursor.step.step.lexemes =
              .word .inWord then _ else _)
            rw [if_pos hin, ← Cursor.step_lexemes]
            refine (h.level _ _ _).bind fun source after => ?_
            exact (h.body _ _).bind fun body last => Agrees.closeNode _ _ _
          · intro hin
            show Agrees _ _ _ (if ahead cursor.step.step.lexemes =
              .word .inWord then _ else _)
            rw [if_neg hin]
            refine Agrees.expect fun _ => ?_
            refine (h.level _ _ _).bind fun first after => ?_
            refine Agrees.skipContinuation fun atStep hstep => ?_
            refine Agrees.eat ?_ ?_
            · intro hword
              show Agrees _ _ _ (if ahead (passContinuation after.lexemes) =
                .word .stepWord then _ else _)
              rw [← hstep, if_pos hword, ← atStep.step_lexemes]
              have hread : Agrees (some <$> parseAt fuel nesting .disjunction)
                  atStep.step (Option.map Marked.expr) _ :=
                (h.level _ _ _).map fun _ => rfl
              exact hread.bind fun step last => h.rangeEnd _ _ _ _ step _
            · intro hword
              show Agrees _ _ _ (if ahead (passContinuation after.lexemes) =
                .word .stepWord then _ else _)
              rw [← hstep, if_neg hword]
              exact h.rangeEnd _ _ _ _ none _
      | _ => exact Agrees.failHere _
  | _ => exact Agrees.failHere _

end ReadersAgree

/-- Spans steer nothing: from every cursor and with any fuel, the parser and
the reader give the same expressions and leave the same lexemes. -/
theorem readersAgree (fuel : Nat) : ReadersAgree fuel := by
  induction fuel with
  | zero => constructor <;> intros <;> rfl
  | succ fuel ih =>
      exact ⟨ih.level_succ, ih.tail_succ, ih.suffix_succ, ih.operand_succ,
        ih.body_succ, ih.items_succ, ih.more_succ, ih.arms_succ⟩

theorem Agrees.fuelAhead {cursor : Cursor} {f : Nat → Parse γ} {view : γ → δ}
    {found : Option (δ × List Lexeme)}
    (hf : Agrees (f (16 * (cursor.lexemes.length + 2))) cursor view found) :
    Agrees (Parse.fuelAhead >>= f) cursor view found := by
  refine Agrees.step ?_ rfl hf
  rw [Cursor.lexemes, List.length_map]
  rfl

theorem Agrees.skipNewlines {cursor : Cursor} {f : Unit → Parse γ}
    {view : γ → δ} {found : Option (δ × List Lexeme)}
    (hf : ∀ after : Cursor, after.lexemes = passNewlines cursor.lexemes →
      Agrees (f ()) after view found) :
    Agrees (Parse.skipNewlines >>= f) cursor view found := by
  refine Agrees.step rfl rfl (hf _ ?_)
  rw [passNewlines, Cursor.lexemes, Cursor.lexemes, List.dropWhile_map]
  rfl

theorem parseSingle_agrees (cursor : Cursor) :
    Agrees parseSingle cursor Marked.expr (readWhole cursor.lexemes) := by
  unfold parseSingle readWhole
  refine Agrees.skipNewlines fun after hafter => ?_
  rw [← hafter]
  refine Agrees.check ?_
  by_cases hend : ahead after.lexemes = .endOfInput
  · rw [if_pos (beq_iff_eq.mpr hend), if_pos hend]
    refine Agrees.step rfl rfl ?_
    split <;> rfl
  · rw [if_neg (fun hbeq => hend (beq_iff_eq.mp hbeq)), if_neg hend]
    refine Agrees.fuelAhead ?_
    refine ((readersAgree _).level _ _ _).bind fun expr middle => ?_
    refine Agrees.skipNewlines fun last hlast => ?_
    show Agrees _ _ _ (if ahead (passNewlines middle.lexemes) = _ then
      some (_, passNewlines middle.lexemes) else _)
    rw [← hlast]
    refine Agrees.peekLexeme ?_
    cases ahead last.lexemes with
    | endOfInput => exact Agrees.node rfl
    | _ => exact Agrees.failHere _

theorem parseFlag_agrees (cursor : Cursor) :
    Agrees parseFlag cursor Prod.fst (readFlag cursor.lexemes) := by
  unfold parseFlag readFlag
  refine Agrees.step rfl rfl ?_
  refine Agrees.expectName fun name => Agrees.eat ?_ ?_
  · intro hequal
    show Agrees _ _ _ (if ahead cursor.step.lexemes = .equal then _ else _)
    rw [if_pos hequal, ← Cursor.step_lexemes]
    refine Agrees.fuelAhead ?_
    rw [bind_map_left]
    refine ((readersAgree _).level _ _ _).bind fun value after => ?_
    exact Agrees.lastSpan fun _ =>
      Agrees.pure (Flag.mk name (some value.expr), _) _ Prod.fst
  · intro hequal
    show Agrees _ _ _ (if ahead cursor.step.lexemes = .equal then _ else _)
    rw [if_neg hequal]
    exact Agrees.lastSpan fun _ => Agrees.pure (Flag.mk name none, _) _ Prod.fst

theorem parseFlags_agrees (fuel : Nat) (cursor : Cursor) :
    Agrees (parseFlags fuel) cursor (List.map Prod.fst)
      (readFlags fuel cursor.lexemes) := by
  induction fuel generalizing cursor with
  | zero => exact Agrees.pure [] cursor (List.map Prod.fst)
  | succ fuel ih =>
      unfold parseFlags readFlags
      refine Agrees.eat ?_ ?_
      · intro hcomma
        rw [if_pos hcomma, ← cursor.step_lexemes]
        refine (parseFlag_agrees _).bind fun flag after => ?_
        exact (ih after).bind fun flags last =>
          Agrees.pure (flag :: flags) last (List.map Prod.fst)
      · intro hcomma
        rw [if_neg hcomma]
        exact Agrees.pure [] cursor (List.map Prod.fst)

theorem parseStatement_agrees (cursor : Cursor) :
    Agrees parseStatement cursor MarkedStatement.statement
      (readStatement cursor.lexemes) := by
  unfold parseStatement readStatement
  refine Agrees.fuelAhead ?_
  refine ((readersAgree _).level _ _ _).bind fun expr after => ?_
  have hlength : after.rest.length = after.lexemes.length :=
    (List.length_map _).symm
  refine Agrees.step rfl rfl ?_
  show Agrees (parseFlags after.rest.length >>= _) _ _ _
  rw [hlength]
  refine (parseFlags_agrees _ _).bind fun flags last => ?_
  exact Agrees.pure (MarkedStatement.mk _ _ _ _) last MarkedStatement.statement

end SceneQuiz.Parse

namespace SceneQuiz

/-- The lexemes of a text. -/
def lexemes (source : String) : List Lexeme :=
  (lex source).tokens.map Token.lexeme

/-- A text holds an expression exactly if its tokens are without fault and the
reader finds the expression in its lexemes. -/
theorem Expr.parse_eq_ok_iff (source : String) (e : Expr) :
    Expr.parse source = .ok e ↔ (lex source).issues = [] ∧
      ∃ rest, Parse.readWhole (lexemes source) = some (e, rest) := by
  have hagrees := Parse.parseSingle_agrees (Parse.start source)
  change Parse.Agrees Parse.parseSingle (Parse.start source) Marked.expr
    (Parse.readWhole (lexemes source)) at hagrees
  unfold Expr.parse readExpression
  rcases hread : Parse.readWhole (lexemes source) with _ | found
  · rw [hread] at hagrees
    have hvalue : (Parse.parseSingle.run.run (Parse.start source)).1 = none :=
      hagrees
    simp only [hvalue]
    simp
  · rw [hread] at hagrees
    obtain ⟨marked, after, hrun, hmarked, -, hissues⟩ := hagrees
    have hlexed : after.issues = (lex source).issues := hissues
    simp only [hrun, hlexed, hmarked]
    rcases hempty : (lex source).issues with _ | ⟨issue, issues⟩
    · simp [Prod.ext_iff]
    · simp

end SceneQuiz
