import SceneQuiz.Proofs.Parse.Consumption
/-!
Two texts that are read alike.  A relation between lexemes steers the readers if
related lexemes go on alike wherever a reader makes a choice; whatever a reader finds
in the first it then finds in the second, more fuel changes nothing, and what is left
is related again.  So what comes after a statement does not change how it is read: a
semicolon and more text may stand in the place of the end of the input.
-/

namespace SceneQuiz

/-- A lexeme that no operand starts with and no operand or operator goes on with. -/
def Lexeme.stops : Lexeme → Bool
  | .semicolon | .newline | .endOfInput => true
  | l => l.continuesStatement

theorem Lexeme.not_stops_of_closes {l : Lexeme} (h : l.closes = true) : l.stops = false := by
  cases l <;> first | rfl | cases h

namespace Parse

theorem assignment?_of_stops {l : Lexeme} (h : l.stops = true) : assignment? l = none := by
  cases l <;> first | rfl | cases h

theorem comparison?_of_stops {l : Lexeme} (h : l.stops = true) : comparison? l = none := by
  cases l <;> first | rfl | cases h

theorem operator?_of_stops (level : Level) {l : Lexeme} (h : l.stops = true) :
    level.operator? l = none := by
  cases l with
  | word w => cases w <;> first | (cases level <;> rfl) | cases h
  | _ => first | (cases level <;> rfl) | cases h

/-- What a test finds a use for does not stop, if the test finds none for what does. -/
theorem not_stops_of_some {α : Type} {f : Lexeme → Option α} {l : Lexeme} {a : α}
    (hf : ∀ l, l.stops = true → f l = none) (h : f l = some a) : l.stops = false := by
  cases hstops : l.stops with
  | false => rfl
  | true =>
      rw [hf l hstops] at h
      cases h

section Stops

variable {ls : List Lexeme} (hstops : (ahead ls).stops = true) (fuel nesting : Nat)
include hstops

theorem readAt_sign_of_stops :
    readAt (fuel + 1) nesting .sign ls = readAt fuel nesting .power ls := by
  rw [readAt]
  generalize ahead ls = l at hstops
  cases l <;> first | rfl | cases hstops

theorem readSuffix_of_stops (target : Expr) :
    readSuffix (fuel + 1) nesting target ls = some (target, ls) := by
  unfold readSuffix
  generalize ahead ls = l at hstops
  cases l <;> first | rfl | cases hstops

theorem readOperand_of_stops : readOperand (fuel + 1) nesting ls = none := by
  rw [readOperand]
  generalize ahead ls = l at hstops
  cases l with
  | word w => cases w <;> first | rfl | cases hstops
  | _ => first | rfl | cases hstops

end Stops

variable {R S : List Lexeme → List Lexeme → Prop} {ls ls' : List Lexeme}

/-- This lexeme is ahead in both or in neither, and both go on after it. -/
structure Meets (R : List Lexeme → List Lexeme → Prop) (l : Lexeme) (ls ls' : List Lexeme) :
    Prop where
  iff : ahead ls' = l ↔ ahead ls = l
  tail : ahead ls = l → R ls.tail ls'.tail

/-- Both are past a line break that the words of a construct may follow. -/
structure Passed (R : List Lexeme → List Lexeme → Prop) (ls ls' : List Lexeme) : Prop where
  rel : R ls ls'
  word : ∀ {w : Word}, w ≠ .inWord → Meets R (.word w) ls ls'

/-- Both are past the name of a loop. -/
structure Named (R : List Lexeme → List Lexeme → Prop) (ls ls' : List Lexeme) : Prop where
  rel : R ls ls'
  loop : Meets R (.word .inWord) ls ls'

/-- Related lexemes go on alike wherever a reader makes a choice. -/
structure Steers (R : List Lexeme → List Lexeme → Prop) : Prop where
  agree : ∀ {ls ls' : List Lexeme}, R ls ls' →
    ahead ls' = ahead ls ∨ (ahead ls).stops = true ∧ (ahead ls').stops = true
  tail : ∀ {ls ls' : List Lexeme}, R ls ls' → (ahead ls).stops = false → R ls.tail ls'.tail
  passed : ∀ {ls ls' : List Lexeme}, R ls ls' →
    Passed R (passContinuation ls) (passContinuation ls')
  named : ∀ {ls ls' : List Lexeme} {name : String}, R ls ls' → ahead ls = .ident name →
    Named R ls.tail ls'.tail

namespace Steers

theorem meets (hR : Steers R) (hls : R ls ls') {l : Lexeme} (hl : l.stops = false) :
    Meets R l ls ls' := by
  refine ⟨?_, ?_⟩
  · rcases hR.agree hls with hsame | ⟨hstops, hstops'⟩
    · rw [hsame]
    · constructor
      · rintro rfl
        rw [hl] at hstops'
        cases hstops'
      · rintro rfl
        rw [hl] at hstops
        cases hstops
  · rintro rfl
    exact hR.tail hls hl

/-- A test that takes whatever stops for the same decides the same. -/
theorem test (hR : Steers R) (hls : R ls ls') {α : Type} {a : α} (f : Lexeme → α)
    (hf : ∀ l, l.stops = true → f l = a) : f (ahead ls') = f (ahead ls) := by
  rcases hR.agree hls with hsame | ⟨hstops, hstops'⟩
  · rw [hsame]
  · rw [hf _ hstops, hf _ hstops']

end Steers

/-- Whatever the first reader finds the second finds as well, and what they leave is
related. -/
def Kept {α : Type} (R : List Lexeme → List Lexeme → Prop)
    (found found' : Option (α × List Lexeme)) : Prop :=
  ∀ result, found = some result → ∃ rest, found' = some (result.1, rest) ∧ R result.2 rest

namespace Kept

variable {α β : Type} {found found' : Option (α × List Lexeme)}

theorem none : Kept R (none : Option (α × List Lexeme)) found' := nofun

theorem done (a : α) (h : R ls ls') : Kept R (some (a, ls)) (some (a, ls')) := by
  rintro result ⟨⟩
  exact ⟨ls', rfl, h⟩

theorem bindFound {k k' : α × List Lexeme → Option (β × List Lexeme)}
    (hfound : Kept S found found')
    (hk : ∀ a ls ls', found = some (a, ls) → S ls ls' → Kept R (k (a, ls)) (k' (a, ls'))) :
    Kept R (found >>= k) (found' >>= k') := by
  intro result hresult
  obtain ⟨first, hfirst, hsecond⟩ := Option.bind_eq_some_iff.mp hresult
  obtain ⟨rest, hrest, hrelated⟩ := hfound first hfirst
  rw [hrest]
  exact hk first.1 first.2 rest hfirst hrelated result hsecond

theorem bind {k k' : α × List Lexeme → Option (β × List Lexeme)}
    (hfound : Kept S found found')
    (hk : ∀ a ls ls', S ls ls' → Kept R (k (a, ls)) (k' (a, ls'))) :
    Kept R (found >>= k) (found' >>= k') :=
  hfound.bindFound fun a ls ls' _ hls => hk a ls ls' hls

theorem map {f : α → β} (h : Kept R found found') :
    Kept R (found.map fun x => (f x.1, x.2)) (found'.map fun x => (f x.1, x.2)) := by
  rw [Option.map_eq_bind, Option.map_eq_bind]
  exact h.bind fun a ls ls' hls => done (f a) hls

/-- A choice by the lexeme ahead. -/
theorem choice {l : Lexeme} {yes yes' no no' : Option (α × List Lexeme)}
    (hmeets : Meets S l ls ls') (hyes : S ls.tail ls'.tail → Kept R yes yes')
    (hno : Kept R no no') :
    Kept R (if ahead ls = l then yes else no) (if ahead ls' = l then yes' else no') := by
  by_cases hahead : ahead ls = l
  · rw [if_pos hahead, if_pos (hmeets.iff.mpr hahead)]
    exact hyes (hmeets.tail hahead)
  · rw [if_neg hahead, if_neg (mt hmeets.iff.mp hahead)]
    exact hno

/-- A choice that both make the same way. -/
theorem ite {p : Prop} [Decidable p] {yes yes' no no' : Option (α × List Lexeme)}
    (hyes : Kept R yes yes') (hno : Kept R no no') :
    Kept R (if p then yes else no) (if p then yes' else no') := by
  split
  · exact hyes
  · exact hno

theorem pass {wanted : Lexeme} (hmeets : Meets S wanted ls ls')
    {k k' : List Lexeme → Option (β × List Lexeme)}
    (hk : ∀ ls ls', S ls ls' → Kept R (k ls) (k' ls')) :
    Kept R (pass? wanted ls >>= k) (pass? wanted ls' >>= k') := by
  unfold pass?
  by_cases hahead : ahead ls = wanted
  · rw [if_pos hahead, if_pos (hmeets.iff.mpr hahead)]
    exact hk _ _ (hmeets.tail hahead)
  · rw [if_neg hahead]
    exact none

theorem passName (hR : Steers R) (hls : R ls ls') :
    Kept (Named R) (passName? ls) (passName? ls') := by
  intro result hresult
  unfold passName? at hresult
  split at hresult
  · next name hahead =>
      have hsame : ahead ls' = .ident name := (hR.meets hls rfl).iff.mpr hahead
      cases hresult
      refine ⟨ls'.tail, ?_, hR.named hls hahead⟩
      rw [passName?, hsame]
  · cases hresult

end Kept

/-- What every reader finds with one fuel in the first it finds with the other fuel in
the second. -/
structure ReadersKeep (R : List Lexeme → List Lexeme → Prop) (fuel fuel' : Nat) : Prop where
  level : ∀ {ls ls' : List Lexeme} nesting level, R ls ls' →
    Kept R (readAt fuel nesting level ls) (readAt fuel' nesting level ls')
  tail : ∀ {ls ls' : List Lexeme} nesting level left, R ls ls' →
    Kept R (readTail fuel nesting level left ls) (readTail fuel' nesting level left ls')
  suffix : ∀ {ls ls' : List Lexeme} nesting target, R ls ls' →
    Kept R (readSuffix fuel nesting target ls) (readSuffix fuel' nesting target ls')
  operand : ∀ {ls ls' : List Lexeme} nesting, R ls ls' →
    Kept R (readOperand fuel nesting ls) (readOperand fuel' nesting ls')
  body : ∀ {ls ls' : List Lexeme} nesting, R ls ls' →
    Kept R (readBody fuel nesting ls) (readBody fuel' nesting ls')
  items : ∀ {ls ls' : List Lexeme} nesting {close : Lexeme}, close.closes = true → R ls ls' →
    Kept R (readItems fuel nesting close ls) (readItems fuel' nesting close ls')
  more : ∀ {ls ls' : List Lexeme} nesting {close : Lexeme}, close.closes = true → R ls ls' →
    Kept R (readMore fuel nesting close ls) (readMore fuel' nesting close ls')
  arms : ∀ {ls ls' : List Lexeme} nesting, R ls ls' →
    Kept (Passed R) (readArms fuel nesting ls) (readArms fuel' nesting ls')

namespace ReadersKeep

variable {fuel fuel' : Nat}

theorem level_succ (hR : Steers R) (h : ReadersKeep R fuel fuel') (nesting : Nat)
    (level : Level) (hls : R ls ls') :
    Kept R (readAt (fuel + 1) nesting level ls) (readAt (fuel' + 1) nesting level ls') := by
  cases level with
  | expression =>
      rw [readAt, readAt]
      exact .ite .none (h.level _ _ hls)
  | assignment =>
      rw [readAt, readAt]
      refine (h.level _ _ hls).bind fun left ls ls' hls => ?_
      dsimp only
      rw [hR.test hls assignment? fun _ => assignment?_of_stops]
      split
      · exact .done _ hls
      · next op hop =>
          have hrest := hR.tail hls (not_stops_of_some (fun _ => assignment?_of_stops) hop)
          exact (h.level _ _ hrest).bind fun right _ _ hls => .done _ hls
  | negation =>
      rw [readAt, readAt]
      refine .choice (hR.meets hls rfl) (fun hrest => ?_) (h.level _ _ hls)
      exact (h.level _ _ hrest).bind fun operand _ _ hls => .done _ hls
  | comparison =>
      rw [readAt, readAt]
      refine (h.level _ _ hls).bind fun left ls ls' hls => ?_
      dsimp only
      rw [hR.test hls comparison? fun _ => comparison?_of_stops]
      split
      · exact .done _ hls
      · next op hop =>
          have hrest := hR.tail hls (not_stops_of_some (fun _ => comparison?_of_stops) hop)
          refine (h.level _ _ hrest).bind fun right ls ls' hls => ?_
          dsimp only
          rw [hR.test hls comparison? fun _ => comparison?_of_stops]
          exact .ite .none (.done _ hls)
  | sign =>
      rcases hR.agree hls with hsame | ⟨hstops, hstops'⟩
      · have hrest := hR.tail hls
        rw [readAt, readAt, hsame]
        cases hahead : ahead ls with
        | minus =>
            rw [hahead] at hrest
            exact (h.level _ _ (hrest rfl)).bind fun operand _ _ hls => .done _ hls
        | plus =>
            rw [hahead] at hrest
            exact h.level _ _ (hrest rfl)
        | _ => exact h.level _ _ hls
      · rw [readAt_sign_of_stops hstops, readAt_sign_of_stops hstops']
        exact h.level _ _ hls
  | power =>
      rw [readAt, readAt]
      refine (h.level _ _ hls).bind fun base ls ls' hls => ?_
      refine .choice (hR.meets hls rfl) (fun hrest => ?_) (.done _ hls)
      exact (h.level _ _ hrest).bind fun exponent _ _ hls => .done _ hls
  | quotation =>
      rw [readAt, readAt]
      refine .choice (hR.meets hls rfl) (fun hrest => ?_) (h.level _ _ hls)
      exact (h.level _ _ hrest).bind fun operand _ _ hls => .done _ hls
  | suffix =>
      rw [readAt, readAt]
      exact (h.level _ _ hls).bind fun target _ _ hls => h.suffix _ _ hls
  | operand => exact h.operand _ hls
  | disjunction | conjunction | sum | product =>
      rw [readAt_left rfl, readAt_left rfl]
      exact (h.level _ _ hls).bind fun left _ _ hls => h.tail _ _ _ hls

theorem tail_succ (hR : Steers R) (h : ReadersKeep R fuel fuel') (nesting : Nat) (level : Level)
    (left : Expr) (hls : R ls ls') :
    Kept R (readTail (fuel + 1) nesting level left ls)
      (readTail (fuel' + 1) nesting level left ls') := by
  rw [readTail, readTail, hR.test hls level.operator? fun _ => operator?_of_stops level]
  split
  · exact .done _ hls
  · next op hop =>
      have hrest := hR.tail hls (not_stops_of_some (fun _ => operator?_of_stops level) hop)
      exact (h.level _ _ hrest).bind fun right _ _ hls => h.tail _ _ _ hls

theorem suffix_succ (hR : Steers R) (h : ReadersKeep R fuel fuel') (nesting : Nat)
    (target : Expr) (hls : R ls ls') :
    Kept R (readSuffix (fuel + 1) nesting target ls)
      (readSuffix (fuel' + 1) nesting target ls') := by
  rcases hR.agree hls with hsame | ⟨hstops, hstops'⟩
  · have hrest := hR.tail hls
    unfold readSuffix
    rw [hsame]
    cases hahead : ahead ls with
    | leftParen =>
        rw [hahead] at hrest
        cases target with
        | ident name =>
            exact (h.items _ rfl (hrest rfl)).bind fun args _ _ hls => h.suffix _ _ hls
        | _ => exact .done _ hls
    | leftBracket =>
        rw [hahead] at hrest
        exact (h.items _ rfl (hrest rfl)).bind fun indices _ _ hls =>
          .ite .none (h.suffix _ _ hls)
    | bang =>
        rw [hahead] at hrest
        exact h.suffix _ _ (hrest rfl)
    | _ => exact .done _ hls
  · rw [readSuffix_of_stops hstops, readSuffix_of_stops hstops']
    exact .done _ hls

/-- The part of a counting loop from `thru` on. -/
theorem rangeEnd (hR : Steers R) (h : ReadersKeep R fuel fuel') (nesting : Nat) (var : String)
    (first : Expr) (step : Option Expr) (hls : R ls ls') :
    Kept R
      (do
        let thru ← pass? (.word .thruWord) (Parse.passContinuation ls)
        let last ← readAt fuel nesting .disjunction thru
        let body ← readBody fuel nesting last.2
        some (Expr.forRange var first step last.1 body.1, body.2))
      (do
        let thru ← pass? (.word .thruWord) (Parse.passContinuation ls')
        let last ← readAt fuel' nesting .disjunction thru
        let body ← readBody fuel' nesting last.2
        some (Expr.forRange var first step last.1 body.1, body.2)) := by
  refine .pass ((hR.passed hls).word (by decide)) fun thru _ hthru => ?_
  exact (h.level _ _ hthru).bind fun last _ _ hls =>
    (h.body _ hls).bind fun body _ _ hls => .done _ hls

theorem operand_succ (hR : Steers R) (h : ReadersKeep R fuel fuel') (nesting : Nat)
    (hls : R ls ls') :
    Kept R (readOperand (fuel + 1) nesting ls) (readOperand (fuel' + 1) nesting ls') := by
  rcases hR.agree hls with hsame | ⟨hstops, -⟩
  · have hrest := hR.tail hls
    rw [readOperand, readOperand, hsame]
    cases hahead : ahead ls with
    | number | str | ident =>
        rw [hahead] at hrest
        exact .done _ (hrest rfl)
    | leftParen =>
        rw [hahead] at hrest
        exact (h.items _ rfl (hrest rfl)).bind fun items _ _ hls => .ite .none (.done _ hls)
    | leftBracket | leftBrace =>
        rw [hahead] at hrest
        exact (h.items _ rfl (hrest rfl)).bind fun items _ _ hls => .done _ hls
    | word w =>
        rw [hahead] at hrest
        cases w with
        | trueWord | falseWord => exact .done _ (hrest rfl)
        | ifWord =>
            refine (h.arms _ (hrest rfl)).bind fun arms ls ls' hpassed => ?_
            refine .choice (hpassed.word (by decide)) (fun hrest => ?_) (.done _ hpassed.rel)
            exact (h.level _ _ hrest).bind fun otherwise _ _ hls => .done _ hls
        | forWord =>
            refine (Kept.passName hR (hrest rfl)).bind fun var ls ls' hnamed => ?_
            refine .choice hnamed.loop (fun hrest => ?_) ?_
            · exact (h.level _ _ hrest).bind fun source _ _ hls =>
                (h.body _ hls).bind fun body _ _ hls => .done _ hls
            · refine .pass (hR.meets hnamed.rel rfl) fun colon _ hcolon => ?_
              refine (h.level _ _ hcolon).bind fun first ls ls' hls => ?_
              refine .choice ((hR.passed hls).word (by decide)) (fun hrest => ?_) ?_
              · exact (h.level _ _ hrest).map.bind fun step _ _ hls =>
                  h.rangeEnd hR _ _ _ _ hls
              · exact h.rangeEnd hR _ _ _ none (hR.passed hls).rel
        | _ => exact .none
    | _ => exact .none
  · rw [readOperand_of_stops hstops]
    exact .none

theorem body_succ (hR : Steers R) (h : ReadersKeep R fuel fuel') (nesting : Nat)
    (hls : R ls ls') :
    Kept R (readBody (fuel + 1) nesting ls) (readBody (fuel' + 1) nesting ls') := by
  rw [readBody, readBody]
  exact .pass ((hR.passed hls).word (by decide)) fun _ _ hbody => h.level _ _ hbody

theorem items_succ (hR : Steers R) (h : ReadersKeep R fuel fuel') (nesting : Nat)
    {close : Lexeme} (hclose : close.closes = true) (hls : R ls ls') :
    Kept R (readItems (fuel + 1) nesting close ls)
      (readItems (fuel' + 1) nesting close ls') := by
  rw [readItems, readItems]
  exact .choice (hR.meets hls (Lexeme.not_stops_of_closes hclose))
    (fun hrest => .done _ hrest) (h.more _ hclose hls)

theorem more_succ (hR : Steers R) (h : ReadersKeep R fuel fuel') (nesting : Nat)
    {close : Lexeme} (hclose : close.closes = true) (hls : R ls ls') :
    Kept R (readMore (fuel + 1) nesting close ls)
      (readMore (fuel' + 1) nesting close ls') := by
  rw [readMore, readMore]
  refine (h.level _ _ hls).bind fun item ls ls' hls => ?_
  refine .choice (hR.meets hls rfl) (fun hrest => ?_) ?_
  · exact (h.more _ hclose hrest).bind fun items _ _ hls => .done _ hls
  · exact .pass (hR.meets hls (Lexeme.not_stops_of_closes hclose)) fun _ _ hls => .done _ hls

theorem arms_succ (hR : Steers R) (h : ReadersKeep R fuel fuel') (nesting : Nat)
    (hls : R ls ls') :
    Kept (Passed R) (readArms (fuel + 1) nesting ls) (readArms (fuel' + 1) nesting ls') := by
  rw [readArms, readArms]
  refine (h.level _ _ hls).bind fun test ls ls' hls => ?_
  refine .pass ((hR.passed hls).word (by decide)) fun _ _ hbody => ?_
  refine (h.level _ _ hbody).bind fun body ls ls' hls => ?_
  refine .choice ((hR.passed hls).word (by decide)) (fun hrest => ?_) (.done _ (hR.passed hls))
  exact (h.arms _ hrest).bind fun arms _ _ hls => .done _ hls

end ReadersKeep

/-- A relation that steers the readers is kept by all of them. -/
theorem Steers.readers (hR : Steers R) {fuel fuel' : Nat} (h : fuel ≤ fuel') :
    ReadersKeep R fuel fuel' := by
  induction fuel generalizing fuel' with
  | zero => constructor <;> intros <;> exact .none
  | succ fuel ih =>
      cases fuel' with
      | zero => exact absurd h (Nat.not_succ_le_zero fuel)
      | succ fuel' =>
          have ih := ih (Nat.le_of_succ_le_succ h)
          exact ⟨ih.level_succ hR, ih.tail_succ hR, ih.suffix_succ hR, ih.operand_succ hR,
            ih.body_succ hR, ih.items_succ hR, ih.more_succ hR, ih.arms_succ hR⟩

/-- The same lexemes up to the end of the input, where the second goes on with a
semicolon and `beyond`. -/
inductive Continued (beyond : List Lexeme) : List Lexeme → List Lexeme → Prop
  | stop : Continued beyond [.endOfInput] (.semicolon :: beyond)
  | cons {l : Lexeme} {ls ls' : List Lexeme} : l ≠ .endOfInput → Continued beyond ls ls' →
      Continued beyond (l :: ls) (l :: ls')

variable {beyond : List Lexeme}

namespace Continued

/-- A test that takes the end and a semicolon for the same decides the same. -/
theorem test (h : Continued beyond ls ls') {α : Type} (f : Lexeme → α)
    (hf : f .endOfInput = f .semicolon) : f (ahead ls') = f (ahead ls) := by
  cases h with
  | stop => exact hf.symm
  | cons => rfl

theorem meets (h : Continued beyond ls ls') {l : Lexeme} (hend : l ≠ .endOfInput)
    (hsemicolon : l ≠ .semicolon) : Meets (Continued beyond) l ls ls' := by
  cases h with
  | stop => exact ⟨iff_of_false hsemicolon.symm hend.symm, fun hl => absurd hl hend.symm⟩
  | cons _ hrest => exact ⟨Iff.rfl, fun _ => hrest⟩

theorem passContinuation (h : Continued beyond ls ls') :
    Continued beyond (passContinuation ls) (passContinuation ls') := by
  have hbreak := h.meets (l := .newline) nofun nofun
  have hskip : (ahead ls' = .newline ∧ (ahead ls'.tail).continuesStatement = true) ↔
      (ahead ls = .newline ∧ (ahead ls.tail).continuesStatement = true) := by
    rw [hbreak.iff]
    refine and_congr_right fun hnewline => ?_
    rw [(hbreak.tail hnewline).test Lexeme.continuesStatement rfl]
  unfold Parse.passContinuation
  by_cases hnewline : ahead ls = .newline ∧ (ahead ls.tail).continuesStatement = true
  · rw [if_pos hnewline, if_pos (hskip.mpr hnewline)]
    exact hbreak.tail hnewline.1
  · rw [if_neg hnewline, if_neg (mt hskip.mp hnewline)]
    exact h

theorem length_le (h : Continued beyond ls ls') : ls.length ≤ ls'.length := by
  induction h with
  | stop => exact Nat.succ_le_succ (Nat.zero_le _)
  | cons _ _ ih => exact Nat.succ_le_succ ih

end Continued

/-- No reader looks at what comes after the part that it reads. -/
theorem steers_continued (beyond : List Lexeme) : Steers (Continued beyond) where
  agree h := by
    cases h with
    | stop => exact .inr ⟨rfl, rfl⟩
    | cons => exact .inl rfl
  tail h hgoes := by
    cases h with
    | stop => cases hgoes
    | cons _ hrest => exact hrest
  passed h := ⟨h.passContinuation, fun _ => h.passContinuation.meets nofun nofun⟩
  named h hname := by
    cases h with
    | stop => cases hname
    | cons _ hrest => exact ⟨hrest, hrest.meets nofun nofun⟩

theorem kept_readFlag (hls : Continued beyond ls ls') :
    Kept (Continued beyond) (readFlag ls) (readFlag ls') := by
  have hR := steers_continued beyond
  refine (Kept.passName hR hls).bind fun name ls ls' hnamed =>
    .choice (hR.meets hnamed.rel rfl) (fun hrest => ?_) (.done _ hnamed.rel)
  have hfuel : 16 * (ls.tail.length + 2) ≤ 16 * (ls'.tail.length + 2) :=
    Nat.mul_le_mul_left 16 (Nat.add_le_add_right hrest.length_le 2)
  exact ((hR.readers hfuel).level _ _ hrest).bind fun value _ _ hls => .done _ hls

/-- Each flag takes up a lexeme, so the fuel lasts for all of them. -/
theorem kept_readFlags {fuel fuel' : Nat} (hfuel : fuel ≤ fuel') (hls : Continued beyond ls ls')
    (hlength : ls.length ≤ fuel) :
    Kept (Continued beyond) (readFlags fuel ls) (readFlags fuel' ls') := by
  induction fuel generalizing fuel' ls ls' with
  | zero => cases hls <;> exact absurd hlength (Nat.not_succ_le_zero _)
  | succ fuel ih =>
      cases fuel' with
      | zero => exact absurd hfuel (Nat.not_succ_le_zero fuel)
      | succ fuel' =>
          rw [readFlags, readFlags]
          have hcomma := hls.meets (l := .comma) (by decide) (by decide)
          refine .choice hcomma (fun hrest => ?_) (.done _ hls)
          refine (kept_readFlag hrest).bindFound fun flag left left' hflag hleft => ?_
          have hshorter := (takes_readFlag _ _ hflag).shorter
          have hflags := ih (Nat.le_of_succ_le_succ hfuel) hleft (by simp at hshorter; omega)
          exact hflags.bind fun flags _ _ hls => .done _ hls

/-- A statement is read the same, whatever comes after the semicolon that ends
it. -/
theorem kept_readStatement (hls : Continued beyond ls ls') :
    Kept (Continued beyond) (readStatement ls) (readStatement ls') := by
  have hfuel : 16 * (ls.length + 2) ≤ 16 * (ls'.length + 2) :=
    Nat.mul_le_mul_left 16 (Nat.add_le_add_right hls.length_le 2)
  have hreaders := (steers_continued beyond).readers hfuel
  refine (hreaders.level _ _ hls).bind fun expr left left' hleft => ?_
  exact (kept_readFlags hleft.length_le hleft (Nat.le_refl _)).bind fun flags _ _ hls =>
    .done _ hls

end Parse

end SceneQuiz
