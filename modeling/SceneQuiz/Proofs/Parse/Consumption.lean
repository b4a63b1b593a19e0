import SceneQuiz.Proofs.Parse.Reader
/-!
What a reader takes.  An expression takes up at least one lexeme, and every
bracket that it opens it also closes, so after it the text is as deep in
brackets as before.
-/

namespace SceneQuiz

/-- The bracket depth after a lexeme. -/
def Lexeme.depthAfter (depth : Nat) : Lexeme → Nat
  | .leftParen | .leftBracket | .leftBrace => depth + 1
  | .rightParen | .rightBracket | .rightBrace => depth - 1
  | _ => depth

/-- The bracket depth after several lexemes. -/
def depthAfter (depth : Nat) (ls : List Lexeme) : Nat := ls.foldl Lexeme.depthAfter depth

namespace Lexeme

/-- A lexeme that is there and neither opens nor closes a bracket. -/
def isLevel : Lexeme → Bool
  | .leftParen | .leftBracket | .leftBrace | .rightParen | .rightBracket | .rightBrace
  | .endOfInput => false
  | _ => true

def opens : Lexeme → Bool
  | .leftParen | .leftBracket | .leftBrace => true
  | _ => false

def closes : Lexeme → Bool
  | .rightParen | .rightBracket | .rightBrace => true
  | _ => false

theorem ne_endOfInput_of_closes {l : Lexeme} (h : l.closes = true) : l ≠ .endOfInput := by
  rintro rfl
  cases h

theorem depthAfter_of_isLevel {l : Lexeme} (h : l.isLevel = true) (depth : Nat) :
    l.depthAfter depth = depth := by
  cases l <;> first | rfl | cases h

theorem depthAfter_of_opens {l : Lexeme} (h : l.opens = true) (depth : Nat) :
    l.depthAfter depth = depth + 1 := by
  cases l <;> first | rfl | cases h

theorem depthAfter_of_closes {l : Lexeme} (h : l.closes = true) (depth : Nat) :
    l.depthAfter depth = depth - 1 := by
  cases l <;> first | rfl | cases h

end Lexeme

namespace Parse

theorem cons_tail_of_ahead {ls : List Lexeme} {l : Lexeme} (h : ahead ls = l)
    (hl : l ≠ .endOfInput) : l :: ls.tail = ls := by
  cases ls with
  | nil => exact absurd h.symm hl
  | cons first rest => rw [← h, ahead_cons, List.tail_cons]

theorem ne_end_of_isLevel {l : Lexeme} (h : l.isLevel = true) : l ≠ .endOfInput := by
  rintro rfl
  cases h

theorem isLevel_of_operator? {level : Level} {l : Lexeme} {op : BinOp}
    (h : level.operator? l = some op) : l.isLevel = true := by
  cases l <;> first | rfl | (cases level <;> cases h)

theorem isLevel_of_assignment? {l : Lexeme} {op : BinOp} (h : assignment? l = some op) :
    l.isLevel = true := by
  cases l <;> first | rfl | cases h

theorem isLevel_of_comparison? {l : Lexeme} {op : BinOp} (h : comparison? l = some op) :
    l.isLevel = true := by
  cases l <;> first | rfl | cases h

/-- From `ls` to `rest` at least `count` lexemes are taken, which close what they
open and `opened` brackets besides. -/
structure Taken (count opened : Nat) (ls rest : List Lexeme) : Prop where
  shorter : rest.length + count ≤ ls.length
  depth : ∀ depth, depthAfter (depth + opened) ls = depthAfter depth rest

theorem Taken.trans {count one two : Nat} {ls middle rest : List Lexeme}
    (hone : Taken count one ls middle) (htwo : Taken 0 two middle rest) :
    Taken count (two + one) ls rest := by
  obtain ⟨hshort, hdepth⟩ := hone
  obtain ⟨hshorter, hdepths⟩ := htwo
  refine ⟨by omega, fun depth => ?_⟩
  rw [← Nat.add_assoc, hdepth, hdepths]

/-- Whatever a reader finds, it takes lexemes for it. -/
def Takes {α : Type} (count opened : Nat) (ls : List Lexeme)
    (found : Option (α × List Lexeme)) : Prop :=
  ∀ result, found = some result → Taken count opened ls result.2

namespace Takes

variable {α β : Type} {count opened : Nat} {ls : List Lexeme}
  {found : Option (α × List Lexeme)}

theorem none : Takes count opened ls (none : Option (α × List Lexeme)) := nofun

theorem done (a : α) (ls : List Lexeme) : Takes 0 0 ls (some (a, ls)) := by
  rintro result ⟨⟩
  exact ⟨Nat.le_refl _, fun _ => rfl⟩

theorem weaken (h : Takes count opened ls found) : Takes 0 opened ls found :=
  fun result hresult => ⟨Nat.le_of_add_right_le (h result hresult).shorter,
    (h result hresult).depth⟩

theorem bind {k : α × List Lexeme → Option (β × List Lexeme)}
    (hfound : Takes count 0 ls found) (hk : ∀ a rest, Takes 0 opened rest (k (a, rest))) :
    Takes count opened ls (found >>= k) := by
  intro result hresult
  obtain ⟨first, hfirst, hsecond⟩ := Option.bind_eq_some_iff.mp hresult
  exact (hfound first hfirst).trans (hk first.1 first.2 result hsecond)

/-- Items that close a bracket, and what follows it. -/
theorem bindClosed {k : α × List Lexeme → Option (β × List Lexeme)}
    (hfound : Takes count 1 ls found) (hk : ∀ a rest, Takes 0 0 rest (k (a, rest))) :
    Takes count 1 ls (found >>= k) := by
  intro result hresult
  obtain ⟨first, hfirst, hsecond⟩ := Option.bind_eq_some_iff.mp hresult
  exact (hfound first hfirst).trans (hk first.1 first.2 result hsecond)

theorem ite {p : Prop} [Decidable p] {one two : Option (α × List Lexeme)}
    (hone : p → Takes count opened ls one) (htwo : ¬ p → Takes count opened ls two) :
    Takes count opened ls (if p then one else two) := by
  split
  · next h => exact hone h
  · next h => exact htwo h

theorem map {f : α × List Lexeme → β × List Lexeme} (hf : ∀ result, (f result).2 = result.2)
    (h : Takes count opened ls found) : Takes count opened ls (found.map f) := by
  intro result hresult
  obtain ⟨first, hfirst, rfl⟩ := Option.map_eq_some_iff.mp hresult
  rw [hf]
  exact h first hfirst

/-- A lexeme that is no bracket. -/
theorem step {l : Lexeme} (hahead : ahead ls = l) (hl : l.isLevel = true)
    (h : Takes 0 opened ls.tail found) : Takes 1 opened ls found := by
  intro result hresult
  obtain ⟨hshorter, hdepth⟩ := h result hresult
  have hcons := cons_tail_of_ahead hahead (ne_end_of_isLevel hl)
  rw [← hcons]
  refine ⟨Nat.succ_le_succ hshorter, fun depth => ?_⟩
  rw [depthAfter, List.foldl_cons, Lexeme.depthAfter_of_isLevel hl]
  exact hdepth depth

/-- A lexeme that opens a bracket, which is closed again. -/
theorem opening {l : Lexeme} (hahead : ahead ls = l) (hl : l.opens = true)
    (h : Takes 0 1 ls.tail found) : Takes 1 0 ls found := by
  intro result hresult
  obtain ⟨hshorter, hdepth⟩ := h result hresult
  have hcons := cons_tail_of_ahead hahead (by rintro rfl; cases hl)
  rw [← hcons]
  refine ⟨Nat.succ_le_succ hshorter, fun depth => ?_⟩
  rw [depthAfter, List.foldl_cons, Lexeme.depthAfter_of_opens hl]
  exact hdepth depth

theorem closing {l : Lexeme} (hahead : ahead ls = l) (hl : l.closes = true) (a : α) :
    Takes 1 1 ls (some (a, ls.tail)) := by
  rintro result ⟨⟩
  have hcons := cons_tail_of_ahead hahead (Lexeme.ne_endOfInput_of_closes hl)
  refine ⟨Nat.le_of_eq (congrArg List.length hcons), fun depth => ?_⟩
  rw [← hcons, depthAfter, List.foldl_cons, Lexeme.depthAfter_of_closes hl, Nat.add_sub_cancel]
  rfl

theorem pass {wanted : Lexeme} (hwanted : wanted.isLevel = true)
    {k : List Lexeme → Option (β × List Lexeme)} (hk : ∀ rest, Takes 0 opened rest (k rest)) :
    Takes 1 opened ls (pass? wanted ls >>= k) := by
  unfold pass?
  split
  · next h => exact step h hwanted (hk _)
  · exact none

theorem passName (ls : List Lexeme) : Takes 1 0 ls (passName? ls) := by
  unfold passName?
  split
  · next name hname => exact step hname rfl (done name _)
  · exact none

theorem passContinuation (h : Takes 0 opened (passContinuation ls) found) :
    Takes 0 opened ls found := by
  unfold Parse.passContinuation at h
  split at h
  · next hskip => exact (step hskip.1 rfl h).weaken
  · exact h

end Takes

/-- With this much fuel every reader takes up what it reads. -/
structure ReadersTake (fuel : Nat) : Prop where
  level : ∀ nesting level ls, Takes 1 0 ls (readAt fuel nesting level ls)
  tail : ∀ nesting level left ls, Takes 0 0 ls (readTail fuel nesting level left ls)
  suffix : ∀ nesting target ls, Takes 0 0 ls (readSuffix fuel nesting target ls)
  operand : ∀ nesting ls, Takes 1 0 ls (readOperand fuel nesting ls)
  body : ∀ nesting ls, Takes 0 0 ls (readBody fuel nesting ls)
  items : ∀ nesting (close : Lexeme) ls, close.closes = true →
    Takes 0 1 ls (readItems fuel nesting close ls)
  more : ∀ nesting (close : Lexeme) ls, close.closes = true →
    Takes 0 1 ls (readMore fuel nesting close ls)
  arms : ∀ nesting ls, Takes 1 0 ls (readArms fuel nesting ls)

namespace ReadersTake

variable {fuel : Nat}

theorem level_succ (h : ReadersTake fuel) (nesting : Nat) (level : Level) (ls : List Lexeme) :
    Takes 1 0 ls (readAt (fuel + 1) nesting level ls) := by
  cases level with
  | expression =>
      rw [readAt]
      exact .ite (fun _ => .none) fun _ => h.level _ _ _
  | assignment =>
      rw [readAt]
      refine (h.level _ _ _).bind fun left ls => ?_
      dsimp only
      split
      · exact .done _ _
      · next op hop =>
          refine .weaken (.step rfl (isLevel_of_assignment? hop) ?_)
          exact .bind (h.level _ _ _).weaken fun right ls => .done _ _
  | negation =>
      rw [readAt]
      refine .ite (fun hword => .step hword rfl ?_) fun _ => h.level _ _ _
      exact .bind (h.level _ _ _).weaken fun operand ls => .done _ _
  | comparison =>
      rw [readAt]
      refine (h.level _ _ _).bind fun left ls => ?_
      dsimp only
      split
      · exact .done _ _
      · next op hop =>
          refine .weaken (.step rfl (isLevel_of_comparison? hop) ?_)
          exact .bind (h.level _ _ _).weaken fun right ls =>
            .ite (fun _ => .none) fun _ => .done _ _
  | sign =>
      rw [readAt]
      split
      · next hminus =>
          refine .step hminus rfl ?_
          exact .bind (h.level _ _ _).weaken fun operand ls => .done _ _
      · next hplus => exact .step hplus rfl (h.level _ _ _).weaken
      · exact h.level _ _ _
  | power =>
      rw [readAt]
      refine (h.level _ _ _).bind fun base ls => .ite (fun hcaret => ?_) fun _ => .done _ _
      refine .weaken (.step hcaret rfl ?_)
      exact .bind (h.level _ _ _).weaken fun exponent ls => .done _ _
  | quotation =>
      rw [readAt]
      refine .ite (fun hquote => .step hquote rfl ?_) fun _ => h.level _ _ _
      exact .bind (h.level _ _ _).weaken fun operand ls => .done _ _
  | suffix =>
      rw [readAt]
      exact (h.level _ _ _).bind fun target ls => h.suffix _ _ _
  | operand => exact h.operand _ _
  | disjunction | conjunction | sum | product =>
      rw [readAt_left rfl]
      exact (h.level _ _ _).bind fun left ls => h.tail _ _ _ _

theorem tail_succ (h : ReadersTake fuel) (nesting : Nat) (level : Level) (left : Expr)
    (ls : List Lexeme) : Takes 0 0 ls (readTail (fuel + 1) nesting level left ls) := by
  rw [readTail]
  split
  · exact .done _ _
  · next op hop =>
      refine .weaken (.step rfl (isLevel_of_operator? hop) ?_)
      exact .bind (h.level _ _ _).weaken fun right ls => h.tail _ _ _ _

theorem suffix_succ (h : ReadersTake fuel) (nesting : Nat) (target : Expr)
    (ls : List Lexeme) : Takes 0 0 ls (readSuffix (fuel + 1) nesting target ls) := by
  unfold readSuffix
  split
  · next hparen =>
      split
      · refine .weaken (.opening hparen rfl ?_)
        exact .bindClosed (h.items _ _ _ rfl) fun args ls => h.suffix _ _ _
      · exact .done _ _
  · next hbracket =>
      refine .weaken (.opening hbracket rfl ?_)
      exact .bindClosed (h.items _ _ _ rfl) fun indices ls =>
        .ite (fun _ => .none) fun _ => h.suffix _ _ _
  · next hbang => exact .weaken (.step hbang rfl (h.suffix _ _ _))
  · exact .done _ _

/-- The part of a counting loop from `thru` on. -/
theorem rangeEnd (h : ReadersTake fuel) (nesting : Nat) (var : String) (first : Expr)
    (step : Option Expr) (ls : List Lexeme) :
    Takes 0 0 ls (do
      let thru ← pass? (.word .thruWord) (Parse.passContinuation ls)
      let last ← readAt fuel nesting .disjunction thru
      let body ← readBody fuel nesting last.2
      some (Expr.forRange var first step last.1 body.1, body.2)) := by
  refine .passContinuation (.weaken (.pass rfl fun thru => ?_))
  exact .bind (h.level _ _ _).weaken fun last ls =>
    .bind (h.body _ _) fun body ls => .done _ _

theorem operand_succ (h : ReadersTake fuel) (nesting : Nat) (ls : List Lexeme) :
    Takes 1 0 ls (readOperand (fuel + 1) nesting ls) := by
  unfold readOperand
  split
  · next hahead => exact .step hahead rfl (.done _ _)
  · next hahead => exact .step hahead rfl (.done _ _)
  · next hahead => exact .step hahead rfl (.done _ _)
  · next hahead => exact .step hahead rfl (.done _ _)
  · next hahead => exact .step hahead rfl (.done _ _)
  · next hahead =>
      refine .opening hahead rfl (.bindClosed (h.items _ _ _ rfl) fun items ls => ?_)
      exact .ite (fun _ => .none) fun _ => .done _ _
  · next hahead =>
      exact .opening hahead rfl (.bindClosed (h.items _ _ _ rfl) fun items ls => .done _ _)
  · next hahead =>
      exact .opening hahead rfl (.bindClosed (h.items _ _ _ rfl) fun items ls => .done _ _)
  · next hahead =>
      refine .step hahead rfl (.bind (h.arms _ _).weaken fun arms ls => ?_)
      refine .ite (fun helse => .weaken (.step helse rfl ?_)) fun _ => .done _ _
      exact .bind (h.level _ _ _).weaken fun otherwise ls => .done _ _
  · next hahead =>
      refine .step hahead rfl (.bind (Takes.passName _).weaken fun var ls => .ite ?_ ?_)
      · intro hin
        refine .weaken (.step hin rfl ?_)
        exact .bind (h.level _ _ _).weaken fun source ls =>
          .bind (h.body _ _) fun body ls => .done _ _
      · intro _
        refine .weaken (.pass rfl fun colon => .bind (h.level _ _ _).weaken fun first ls => ?_)
        refine .passContinuation (.ite (fun hword => .weaken (.step hword rfl ?_)) fun _ => ?_)
        · exact .bind (.map (fun _ => rfl) (h.level _ _ _).weaken) fun step ls =>
            h.rangeEnd _ _ _ _ _
        · exact h.rangeEnd _ _ _ none _
  · exact .none

theorem body_succ (h : ReadersTake fuel) (nesting : Nat) (ls : List Lexeme) :
    Takes 0 0 ls (readBody (fuel + 1) nesting ls) := by
  rw [readBody]
  exact .passContinuation (.weaken (.pass rfl fun body => (h.level _ _ _).weaken))

theorem items_succ (h : ReadersTake fuel) (nesting : Nat) (close : Lexeme) (ls : List Lexeme)
    (hclose : close.closes = true) : Takes 0 1 ls (readItems (fuel + 1) nesting close ls) := by
  rw [readItems]
  exact .ite (fun hahead => .weaken (.closing hahead hclose _)) fun _ => h.more _ _ _ hclose

theorem more_succ (h : ReadersTake fuel) (nesting : Nat) (close : Lexeme) (ls : List Lexeme)
    (hclose : close.closes = true) : Takes 0 1 ls (readMore (fuel + 1) nesting close ls) := by
  rw [readMore]
  refine .bind (h.level _ _ _).weaken fun item ls => .ite ?_ ?_
  · intro hcomma
    refine .weaken (.step hcomma rfl ?_)
    exact .bindClosed (h.more _ _ _ hclose) fun items ls => .done _ _
  · intro _
    dsimp only
    unfold pass?
    split
    · next hahead => exact .weaken (.closing hahead hclose _)
    · exact .none

theorem arms_succ (h : ReadersTake fuel) (nesting : Nat) (ls : List Lexeme) :
    Takes 1 0 ls (readArms (fuel + 1) nesting ls) := by
  rw [readArms]
  refine (h.level _ _ _).bind fun test ls => ?_
  refine .passContinuation (.weaken (.pass rfl fun body => ?_))
  refine .bind (h.level _ _ _).weaken fun body ls => ?_
  refine .passContinuation (.ite (fun hword => .weaken (.step hword rfl ?_)) fun _ => .done _ _)
  exact .bind (h.arms _ _).weaken fun arms ls => .done _ _

end ReadersTake

/-- Every reader takes up what it reads, and closes the brackets that it opens. -/
theorem readersTake (fuel : Nat) : ReadersTake fuel := by
  induction fuel with
  | zero => constructor <;> intros <;> exact .none
  | succ fuel ih =>
      exact ⟨ih.level_succ, ih.tail_succ, ih.suffix_succ, ih.operand_succ,
        ih.body_succ, ih.items_succ, ih.more_succ, ih.arms_succ⟩

theorem takes_readFlag (ls : List Lexeme) : Takes 1 0 ls (readFlag ls) := by
  refine (Takes.passName ls).bind fun name ls => .ite (fun hequal => ?_) fun _ => .done _ _
  refine .weaken (.step hequal rfl ?_)
  exact .bind ((readersTake _).level _ _ _).weaken fun value ls => .done _ _

theorem takes_readFlags (fuel : Nat) (ls : List Lexeme) : Takes 0 0 ls (readFlags fuel ls) := by
  induction fuel generalizing ls with
  | zero => exact .done _ _
  | succ fuel ih =>
      rw [readFlags]
      refine .ite (fun hcomma => .weaken (.step hcomma rfl ?_)) fun _ => .done _ _
      exact .bind (takes_readFlag _).weaken fun flag ls =>
        .bind (ih _) fun flags ls => .done _ _

/-- A statement takes up at least one lexeme and closes the brackets it opens. -/
theorem takes_readStatement (ls : List Lexeme) : Takes 1 0 ls (readStatement ls) :=
  ((readersTake _).level _ _ _).bind fun _ _ => .bind (takes_readFlags _ _) fun _ _ => .done _ _

end Parse

end SceneQuiz
