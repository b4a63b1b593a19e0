import SceneQuiz.Proofs.Token.Scanning
/-!
What the parser builds.  The names and numbers of an expression that was read
come from the tokens of its text, its groups hold at least two items, and its
indices and conditionals are not empty.
-/

namespace SceneQuiz

/-- A node that text can stand for. -/
def Expr.Spelled : Expr → Prop
  | .number text => isNumeral text = true
  | .ident name | .call name _ => isName name = true
  | .index _ indices => indices ≠ []
  | .group items => 2 ≤ items.length
  | .cond branches _ => branches ≠ []
  | .forIn var _ _ | .forRange var _ _ _ _ => isName var = true
  | _ => True

namespace Parse

open SceneQuiz.Expr (Everywhere Spelled)

def AllLawful (ls : List Lexeme) : Prop := ∀ l ∈ ls, l.Lawful

theorem AllLawful.tail {ls : List Lexeme} (h : AllLawful ls) :
    AllLawful ls.tail :=
  fun l hl => h l (List.mem_of_mem_tail hl)

theorem AllLawful.ahead {ls : List Lexeme} (h : AllLawful ls) :
    (ahead ls).Lawful := by
  cases ls with
  | nil => trivial
  | cons l ls => exact h l List.mem_cons_self

theorem AllLawful.passContinuation {ls : List Lexeme} (h : AllLawful ls) :
    AllLawful (passContinuation ls) := by
  unfold Parse.passContinuation
  split
  · exact h.tail
  · exact h

/-- What a reader finds has the property, and it leaves lawful lexemes. -/
def Gives {α : Type} (P : α → Prop) (found : Option (α × List Lexeme)) : Prop :=
  ∀ result, found = some result → P result.1 ∧ AllLawful result.2

namespace Gives

variable {α β : Type} {P : α → Prop} {Q : β → Prop}

theorem none : Gives P none := nofun

theorem some {a : α} {ls : List Lexeme} (ha : P a) (hls : AllLawful ls) :
    Gives P (some (a, ls)) := by
  intro result hresult
  rw [← Option.some.inj hresult]
  exact ⟨ha, hls⟩

theorem bind {found : Option (α × List Lexeme)}
    {k : α × List Lexeme → Option (β × List Lexeme)} (hfound : Gives P found)
    (hk : ∀ a ls, P a → AllLawful ls → Gives Q (k (a, ls))) :
    Gives Q (found >>= k) := by
  cases found with
  | none => exact none
  | some result =>
      obtain ⟨ha, hls⟩ := hfound result rfl
      exact hk result.1 result.2 ha hls

theorem ite {p : Prop} [Decidable p] {one two : Option (α × List Lexeme)}
    (hone : Gives P one) (htwo : Gives P two) :
    Gives P (if p then one else two) := by
  split
  · exact hone
  · exact htwo

theorem pass {wanted : Lexeme} {ls : List Lexeme} (hls : AllLawful ls)
    {k : List Lexeme → Option (β × List Lexeme)}
    (hk : ∀ ls, AllLawful ls → Gives Q (k ls)) :
    Gives Q (pass? wanted ls >>= k) := by
  unfold pass?
  split
  · exact hk _ hls.tail
  · exact none

theorem passName {ls : List Lexeme} (hls : AllLawful ls) :
    Gives (fun name => isName name = true) (passName? ls) := by
  have hahead := hls.ahead
  unfold passName?
  split
  · rename_i name hname
    rw [hname] at hahead
    exact some hahead hls.tail
  · exact none

end Gives

/-- With this much fuel every reader builds nodes that text can stand for. -/
structure ReadersShape (fuel : Nat) : Prop where
  level : ∀ nesting level ls, AllLawful ls →
    Gives (Everywhere Spelled) (readAt fuel nesting level ls)
  tail : ∀ nesting level left ls, Everywhere Spelled left → AllLawful ls →
    Gives (Everywhere Spelled) (readTail fuel nesting level left ls)
  suffix : ∀ nesting target ls, Everywhere Spelled target → AllLawful ls →
    Gives (Everywhere Spelled) (readSuffix fuel nesting target ls)
  operand : ∀ nesting ls, AllLawful ls →
    Gives (Everywhere Spelled) (readOperand fuel nesting ls)
  body : ∀ nesting ls, AllLawful ls →
    Gives (Everywhere Spelled) (readBody fuel nesting ls)
  items : ∀ nesting close ls, AllLawful ls →
    Gives (fun items => ∀ item ∈ items, Everywhere Spelled item)
      (readItems fuel nesting close ls)
  more : ∀ nesting close ls, AllLawful ls →
    Gives (fun items => ∀ item ∈ items, Everywhere Spelled item)
      (readMore fuel nesting close ls)
  arms : ∀ nesting ls, AllLawful ls →
    Gives (fun arms : List (Expr × Expr) => arms ≠ [] ∧ ∀ arm ∈ arms,
      Everywhere Spelled arm.1 ∧ Everywhere Spelled arm.2)
      (readArms fuel nesting ls)

namespace ReadersShape

variable {fuel : Nat}

theorem level_succ (h : ReadersShape fuel) (nesting : Nat) (level : Level)
    (ls : List Lexeme) (hls : AllLawful ls) :
    Gives (Everywhere Spelled) (readAt (fuel + 1) nesting level ls) := by
  cases level with
  | expression =>
      rw [readAt]
      exact Gives.none.ite (h.level _ _ _ hls)
  | assignment =>
      rw [readAt]
      refine (h.level _ _ _ hls).bind fun left ls hleft hls => ?_
      dsimp only
      cases assignment? (ahead ls) with
      | none => exact Gives.some hleft hls
      | some op =>
          refine (h.level _ _ _ hls.tail).bind fun right ls hright hls => ?_
          exact Gives.some (.node trivial (by simp [Expr.children, hleft, hright]))
            hls
  | negation =>
      rw [readAt]
      refine Gives.ite ?_ (h.level _ _ _ hls)
      refine (h.level _ _ _ hls.tail).bind fun operand ls hoperand hls => ?_
      exact Gives.some (.node trivial (by simp [Expr.children, hoperand])) hls
  | comparison =>
      rw [readAt]
      refine (h.level _ _ _ hls).bind fun left ls hleft hls => ?_
      dsimp only
      cases comparison? (ahead ls) with
      | none => exact Gives.some hleft hls
      | some op =>
          refine (h.level _ _ _ hls.tail).bind fun right ls hright hls => ?_
          refine Gives.none.ite (Gives.some (.node trivial ?_) hls)
          simp [Expr.children, hleft, hright]
  | sign =>
      rw [readAt]
      split
      · refine (h.level _ _ _ hls.tail).bind fun operand ls hoperand hls => ?_
        exact Gives.some (.node trivial (by simp [Expr.children, hoperand])) hls
      · exact h.level _ _ _ hls.tail
      · exact h.level _ _ _ hls
  | power =>
      rw [readAt]
      refine (h.level _ _ _ hls).bind fun base ls hbase hls => ?_
      refine Gives.ite ?_ (Gives.some hbase hls)
      refine (h.level _ _ _ hls.tail).bind fun exponent ls hexponent hls => ?_
      exact Gives.some
        (.node trivial (by simp [Expr.children, hbase, hexponent])) hls
  | quotation =>
      rw [readAt]
      refine Gives.ite ?_ (h.level _ _ _ hls)
      refine (h.level _ _ _ hls.tail).bind fun operand ls hoperand hls => ?_
      exact Gives.some (.node trivial (by simp [Expr.children, hoperand])) hls
  | suffix =>
      rw [readAt]
      exact (h.level _ _ _ hls).bind fun target ls htarget hls =>
        h.suffix _ _ _ htarget hls
  | operand => exact h.operand _ _ hls
  | disjunction | conjunction | sum | product =>
      rw [readAt_left rfl]
      exact (h.level _ _ _ hls).bind fun left ls hleft hls =>
        h.tail _ _ _ _ hleft hls

theorem tail_succ (h : ReadersShape fuel) (nesting : Nat) (level : Level)
    (left : Expr) (ls : List Lexeme) (hleft : Everywhere Spelled left)
    (hls : AllLawful ls) :
    Gives (Everywhere Spelled) (readTail (fuel + 1) nesting level left ls) := by
  rw [readTail]
  cases level.operator? (ahead ls) with
  | none => exact Gives.some hleft hls
  | some op =>
      refine (h.level _ _ _ hls.tail).bind fun right ls hright hls => ?_
      exact h.tail _ _ _ _
        (.node trivial (by simp [Expr.children, hleft, hright])) hls

theorem suffix_succ (h : ReadersShape fuel) (nesting : Nat) (target : Expr)
    (ls : List Lexeme) (htarget : Everywhere Spelled target)
    (hls : AllLawful ls) :
    Gives (Everywhere Spelled) (readSuffix (fuel + 1) nesting target ls) := by
  rw [readSuffix.eq_def]
  dsimp only
  split
  · split
    · rename_i name
      have hname : isName name = true := htarget.here
      refine (h.items _ _ _ hls.tail).bind fun args ls hargs hls => ?_
      exact h.suffix _ _ _ (.node hname hargs) hls
    · exact Gives.some htarget hls
  · refine (h.items _ _ _ hls.tail).bind fun indices ls hindices hls => ?_
    show Gives _ (if indices.isEmpty then none
      else readSuffix fuel nesting (.index target indices) ls)
    rcases indices with _ | ⟨first, indices⟩
    · exact Gives.none
    · refine h.suffix _ _ _ (.node (List.cons_ne_nil _ _) ?_) hls
      intro part hpart
      rcases List.mem_cons.mp hpart with rfl | hpart
      · exact htarget
      · exact hindices part hpart
  · exact h.suffix _ _ _ (.node trivial (by simp [Expr.children, htarget]))
      hls.tail
  · exact Gives.some htarget hls

theorem body_succ (h : ReadersShape fuel) (nesting : Nat) (ls : List Lexeme)
    (hls : AllLawful ls) :
    Gives (Everywhere Spelled) (readBody (fuel + 1) nesting ls) := by
  rw [readBody]
  exact Gives.pass hls.passContinuation fun ls hls => h.level _ _ _ hls

theorem items_succ (h : ReadersShape fuel) (nesting : Nat) (close : Lexeme)
    (ls : List Lexeme) (hls : AllLawful ls) :
    Gives (fun items => ∀ item ∈ items, Everywhere Spelled item)
      (readItems (fuel + 1) nesting close ls) := by
  rw [readItems]
  exact Gives.ite (Gives.some nofun hls.tail) (h.more _ _ _ hls)

theorem more_succ (h : ReadersShape fuel) (nesting : Nat) (close : Lexeme)
    (ls : List Lexeme) (hls : AllLawful ls) :
    Gives (fun items => ∀ item ∈ items, Everywhere Spelled item)
      (readMore (fuel + 1) nesting close ls) := by
  rw [readMore]
  refine (h.level _ _ _ hls).bind fun item ls hitem hls => Gives.ite ?_ ?_
  · refine (h.more _ _ _ hls.tail).bind fun items ls hitems hls => ?_
    exact Gives.some (List.forall_mem_cons.mpr ⟨hitem, hitems⟩) hls
  · refine Gives.pass hls fun ls hls => Gives.some ?_ hls
    exact List.forall_mem_cons.mpr ⟨hitem, nofun⟩

theorem arms_succ (h : ReadersShape fuel) (nesting : Nat) (ls : List Lexeme)
    (hls : AllLawful ls) :
    Gives (fun arms : List (Expr × Expr) => arms ≠ [] ∧ ∀ arm ∈ arms,
      Everywhere Spelled arm.1 ∧ Everywhere Spelled arm.2)
      (readArms (fuel + 1) nesting ls) := by
  rw [readArms]
  refine (h.level _ _ _ hls).bind fun test ls htest hls => ?_
  refine Gives.pass hls.passContinuation fun ls hls => ?_
  refine (h.level _ _ _ hls).bind fun body ls hbody hls => ?_
  refine Gives.ite ?_ ?_
  · refine (h.arms _ _ hls.passContinuation.tail).bind fun arms ls harms hls => ?_
    exact Gives.some ⟨List.cons_ne_nil _ _,
      List.forall_mem_cons.mpr ⟨⟨htest, hbody⟩, harms.2⟩⟩ hls
  · exact Gives.some ⟨List.cons_ne_nil _ _,
      List.forall_mem_cons.mpr ⟨⟨htest, hbody⟩, nofun⟩⟩ hls.passContinuation

/-- Parentheses around items leave one item as it is and group several. -/
theorem regroup_spelled {items : List Expr} (hne : items ≠ [])
    (hitems : ∀ item ∈ items, Everywhere Spelled item) :
    Everywhere Spelled (regroup items) := by
  rcases items with _ | ⟨first, _ | ⟨second, items⟩⟩
  · exact absurd rfl hne
  · exact hitems first List.mem_cons_self
  · refine .node ?_ hitems
    show 2 ≤ (first :: second :: items).length
    simp

/-- A loop after its opening word. -/
theorem loop_succ (h : ReadersShape fuel) (nesting : Nat) (var : String)
    (hvar : isName var = true) (ls : List Lexeme) (hls : AllLawful ls) :
    Gives (Everywhere Spelled) (if ahead ls = .word .inWord then (do
        let source ← readAt fuel nesting .disjunction ls.tail
        let body ← readBody fuel nesting source.2
        some (.forIn var source.1 body.1, body.2))
      else (do
        let colon ← pass? .colon ls
        let first ← readAt fuel nesting .disjunction colon
        let step ←
          if ahead (Parse.passContinuation first.2) = .word .stepWord then
            (readAt fuel nesting .disjunction
              (Parse.passContinuation first.2).tail).map
                fun step => (some step.1, step.2)
          else some (none, Parse.passContinuation first.2)
        let thru ← pass? (.word .thruWord) (Parse.passContinuation step.2)
        let last ← readAt fuel nesting .disjunction thru
        let body ← readBody fuel nesting last.2
        some (.forRange var first.1 step.1 last.1 body.1, body.2))) := by
  refine Gives.ite ?_ ?_
  · refine (h.level _ _ _ hls.tail).bind fun source ls hsource hls => ?_
    refine (h.body _ _ hls).bind fun body ls hbody hls => ?_
    exact Gives.some (.node hvar (by simp [Expr.children, hsource, hbody])) hls
  · refine Gives.pass hls fun ls hls => ?_
    refine (h.level _ _ _ hls).bind fun first ls hfirst hls => ?_
    have hend : ∀ (step : Option Expr) ls,
        (∀ e ∈ step, Everywhere Spelled e) → AllLawful ls →
        Gives (Everywhere Spelled) (do
          let thru ← pass? (.word .thruWord) (Parse.passContinuation ls)
          let last ← readAt fuel nesting .disjunction thru
          let body ← readBody fuel nesting last.2
          some (Expr.forRange var first step last.1 body.1, body.2)) := by
      intro step ls hstep hls
      refine Gives.pass hls.passContinuation fun ls hls => ?_
      refine (h.level _ _ _ hls).bind fun last ls hlast hls => ?_
      refine (h.body _ _ hls).bind fun body ls hbody hls => ?_
      exact Gives.some (.node hvar (Expr.forall_children_forRange.mpr
        ⟨hfirst, hstep, hlast, hbody⟩)) hls
    refine Gives.ite ?_ (hend none _ (by simp) hls.passContinuation)
    have hread := h.level nesting .disjunction _ hls.passContinuation.tail
    have hstep : Gives (fun step : Option Expr =>
        ∀ e ∈ step, Everywhere Spelled e)
        ((readAt fuel nesting .disjunction
          (Parse.passContinuation ls).tail).map
            fun step => (some step.1, step.2)) := by
      intro result hresult
      obtain ⟨found, hfound, rfl⟩ := Option.map_eq_some_iff.mp hresult
      refine ⟨fun e he => ?_, (hread found hfound).2⟩
      rw [← Option.mem_some_iff.mp he]
      exact (hread found hfound).1
    exact hstep.bind hend

theorem operand_succ (h : ReadersShape fuel) (nesting : Nat) (ls : List Lexeme)
    (hls : AllLawful ls) :
    Gives (Everywhere Spelled) (readOperand (fuel + 1) nesting ls) := by
  have hahead := hls.ahead
  rw [readOperand]
  split
  · rename_i text htext
    rw [htext] at hahead
    exact Gives.some (.leaf hahead rfl) hls.tail
  · exact Gives.some (.leaf trivial rfl) hls.tail
  · exact Gives.some (.leaf trivial rfl) hls.tail
  · exact Gives.some (.leaf trivial rfl) hls.tail
  · rename_i name hname
    rw [hname] at hahead
    exact Gives.some (.leaf hahead rfl) hls.tail
  · refine (h.items _ _ _ hls.tail).bind fun items ls hitems hls => ?_
    show Gives _ (if items.isEmpty then none else some (regroup items, ls))
    rcases items with _ | ⟨first, items⟩
    · exact Gives.none
    · exact Gives.some (regroup_spelled (List.cons_ne_nil _ _) hitems) hls
  · refine (h.items _ _ _ hls.tail).bind fun items ls hitems hls => ?_
    exact Gives.some (.node trivial hitems) hls
  · refine (h.items _ _ _ hls.tail).bind fun items ls hitems hls => ?_
    exact Gives.some (.node trivial hitems) hls
  · refine (h.arms _ _ hls.tail).bind fun arms ls harms hls => Gives.ite ?_ ?_
    · refine (h.level _ _ _ hls.tail).bind fun body ls hbody hls => ?_
      exact Gives.some (.node harms.1 (Expr.forall_children_cond.mpr
        ⟨harms.2, by simpa using hbody⟩)) hls
    · exact Gives.some (.node harms.1 (Expr.forall_children_cond.mpr
        ⟨harms.2, by simp⟩)) hls
  · exact (Gives.passName hls.tail).bind fun var ls hvar hls =>
      h.loop_succ nesting var hvar ls hls
  · exact Gives.none

end ReadersShape

theorem readersShape (fuel : Nat) : ReadersShape fuel := by
  induction fuel with
  | zero => constructor <;> intros <;> exact Gives.none
  | succ fuel ih =>
      exact ⟨ih.level_succ, ih.tail_succ, ih.suffix_succ, ih.operand_succ,
        ih.body_succ, ih.items_succ, ih.more_succ, ih.arms_succ⟩

theorem gives_readWhole {ls : List Lexeme} (hls : AllLawful ls) :
    Gives (Everywhere Spelled) (readWhole ls) := by
  have hpassed : ∀ {ls : List Lexeme}, AllLawful ls → AllLawful (passNewlines ls) :=
    fun hls l hl => hls l (List.dropWhile_subset _ hl)
  refine Gives.none.ite ?_
  refine ((readersShape _).level _ _ _ (hpassed hls)).bind fun e ls he hls => ?_
  exact (Gives.some he (hpassed hls)).ite Gives.none

end Parse

/-- Every node of an expression that was read is one that text can stand for, also
if some token was at fault. -/
theorem ExpressionReading.spelled_value (source : String) :
    ∀ marked ∈ (readExpression source).value, marked.expr.Everywhere Expr.Spelled := by
  have hgives := Parse.gives_readWhole (lexemes_lawful source)
  have hagrees : Parse.Agrees Parse.parseSingle (Parse.start source) Marked.expr
      (Parse.readWhole (lexemes source)) := Parse.parseSingle_agrees (Parse.start source)
  intro marked hmarked
  have hvalue : (Parse.parseSingle.run.run (Parse.start source)).1 = some marked := hmarked
  cases hread : Parse.readWhole (lexemes source) with
  | none =>
      rw [hread] at hagrees
      cases hagrees.symm.trans hvalue
  | some found =>
      rw [hread] at hagrees
      obtain ⟨other, after, hrun, hexpr, -, -⟩ := hagrees
      rw [hrun] at hvalue
      rw [← Option.some.inj hvalue, hexpr]
      exact (hgives found hread).1

theorem Expr.spelled_of_parse {source : String} {e : Expr}
    (h : Expr.parse source = .ok e) : e.Everywhere Expr.Spelled := by
  obtain ⟨-, rest, hread⟩ := (Expr.parse_eq_ok_iff source e).mp h
  exact (Parse.gives_readWhole (lexemes_lawful source) _ hread).1

end SceneQuiz
