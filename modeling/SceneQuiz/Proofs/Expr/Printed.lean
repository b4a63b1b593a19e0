import SceneQuiz.Expr.Printer
import SceneQuiz.Proofs.Parse.Shape
import SceneQuiz.Proofs.Parse.Spelled
/-!
The tree of a printed text.  The parentheses that the printer adds are groups of
one item in it.  A suffix that the printer puts behind a quote without
parentheses belongs to what is quoted, as it does for the reader.
-/

namespace SceneQuiz

namespace Expr

def isQuote : Expr → Bool
  | .quote _ => true
  | _ => false

/-- Attach a suffix to what it follows. -/
def suffixed (suffix : Expr → Expr) : Expr → Expr
  | .quote operand => .quote (suffixed suffix operand)
  | e => suffix e

/-- The tree of a part, between parentheses where its text is. -/
def enclosed (e : Expr) (least : Nat) (tree : Expr) : Expr :=
  if e.binding < least then .group [tree] else tree

/-- The tree of an operand after a sign or an operator. -/
def enclosedRight (e : Expr) (least : Nat) (tree : Expr) : Expr :=
  if e.isNegation then .group [tree] else e.enclosed least tree

end Expr

mutual

/-- The tree of the printed text of an expression. -/
@[simp] def Expr.printed (e : Expr) : Expr :=
  match e with
  | .call name args => .call name (Expr.printedItems args)
  | .index target indices =>
      Expr.suffixed (fun target => .index target (Expr.printedItems indices))
        (target.enclosed Binding.suffix target.printed)
  | .list items => .list (Expr.printedItems items)
  | .set items => .set (Expr.printedItems items)
  | .group items => .group (Expr.printedItems items)
  | .neg operand => .neg (operand.enclosedRight Binding.neg operand.printed)
  | .not operand => .not (operand.enclosed Binding.not operand.printed)
  | .quote operand => .quote (operand.enclosed Binding.quote operand.printed)
  | .factorial operand =>
      Expr.suffixed .factorial (operand.enclosed Binding.suffix operand.printed)
  | .binary op left right =>
      .binary op (left.enclosed (Expr.operandBindings op).1 left.printed)
        (right.enclosedRight (Expr.operandBindings op).2 right.printed)
  | .cond branches otherwise =>
      .cond (Expr.printedBranches branches)
        (match otherwise with
          | some body => some body.printed
          | none => none)
  | .forIn var source body =>
      .forIn var (source.enclosed (Binding.control + 1) source.printed)
        body.printed
  | .forRange var first step last body =>
      .forRange var (first.enclosed (Binding.control + 1) first.printed)
        (match step with
          | some step => some (step.enclosed (Binding.control + 1) step.printed)
          | none => none)
        (last.enclosed (Binding.control + 1) last.printed) body.printed
  | e => e
termination_by structural e

@[simp] def Expr.printedItems (items : List Expr) : List Expr :=
  match items with
  | [] => []
  | e :: rest => e.printed :: Expr.printedItems rest
termination_by structural items

@[simp] def Expr.printedBranches (branches : List (Expr × Expr)) :
    List (Expr × Expr) :=
  match branches with
  | [] => []
  | (test, body) :: rest =>
      (test.enclosed (Binding.control + 1) test.printed,
        body.enclosed (Binding.control + 1) body.printed) ::
          Expr.printedBranches rest
termination_by structural branches

end

namespace Expr

open Parse

theorem printedItems_eq_map (items : List Expr) :
    printedItems items = items.map printed := by
  induction items with
  | nil => rfl
  | cons item items ih => rw [printedItems, ih, List.map_cons]

theorem printedBranches_eq_map (branches : List (Expr × Expr)) :
    printedBranches branches = branches.map fun branch =>
      (branch.1.enclosed (Binding.control + 1) branch.1.printed,
        branch.2.enclosed (Binding.control + 1) branch.2.printed) := by
  induction branches with
  | nil => rfl
  | cons branch branches ih => rw [printedBranches, ih, List.map_cons]

theorem printed_cond (branches : List (Expr × Expr)) (otherwise : Option Expr) :
    (cond branches otherwise).printed =
      .cond (printedBranches branches) (otherwise.map printed) := by
  cases otherwise <;> rfl

theorem printed_forRange (var : String) (first : Expr) (step : Option Expr)
    (last body : Expr) :
    (forRange var first step last body).printed =
      .forRange var (first.enclosed (Binding.control + 1) first.printed)
        (step.map fun e => e.enclosed (Binding.control + 1) e.printed)
        (last.enclosed (Binding.control + 1) last.printed) body.printed := by
  cases step <;> rfl

theorem suffixed_of_not_quote {suffix : Expr → Expr} {e : Expr}
    (he : e.isQuote = false) : suffixed suffix e = suffix e := by
  cases e with
  | quote operand => cases he
  | _ => rfl

/-- Printing keeps the level of an expression, except that it can open a
suffix behind a quote. -/
theorem printed_level (e : Expr) :
    e.printed.level = e.level ∨
      e.printed.level = .quotation ∧ e.level = .suffix := by
  have hsuffixed : ∀ (suffix : Expr → Expr) (target : Expr),
      (suffixed suffix target).level = .quotation ∨
        suffixed suffix target = suffix target := by
    intro suffix target
    cases target with
    | quote operand => exact .inl rfl
    | _ => exact .inr rfl
  cases e with
  | index target indices =>
      rw [printed]
      rcases hsuffixed (fun target => .index target (printedItems indices))
        (target.enclosed Binding.suffix target.printed) with hlevel | heq
      · exact .inr ⟨hlevel, rfl⟩
      · rw [heq]
        exact .inl rfl
  | factorial operand =>
      rw [printed]
      rcases hsuffixed .factorial
        (operand.enclosed Binding.suffix operand.printed) with hlevel | heq
      · exact .inr ⟨hlevel, rfl⟩
      · rw [heq]
        exact .inl rfl
  | cond branches otherwise =>
      rw [printed_cond]
      exact .inl rfl
  | forRange var first step last body =>
      rw [printed_forRange]
      exact .inl rfl
  | _ => exact .inl rfl

theorem printed_isControl (e : Expr) : e.printed.isControl = e.isControl := by
  have hsuffixed : ∀ (suffix : Expr → Expr) (target : Expr),
      (∀ e, (suffix e).isControl = false) →
      (suffixed suffix target).isControl = false := by
    intro suffix target hsuffix
    cases target with
    | quote operand => rfl
    | _ => exact hsuffix _
  cases e with
  | index target indices =>
      rw [printed]
      exact hsuffixed _ _ fun _ => rfl
  | factorial operand =>
      rw [printed]
      exact hsuffixed _ _ fun _ => rfl
  | cond branches otherwise => rw [printed_cond]; rfl
  | forRange var first step last body => rw [printed_forRange]; rfl
  | _ => rfl

end Expr

namespace Parse

/-- The least binding strength that only expressions of a level have. -/
def Level.least : Level → Nat
  | .expression | .assignment => Binding.control + 1
  | .disjunction => Binding.assignment + 1
  | .conjunction => Binding.or + 1
  | .negation => Binding.and + 1
  | .comparison => Binding.not + 1
  | .sum => Binding.relational + 1
  | .product => Binding.additive + 1
  | .sign => Binding.multiplicative + 1
  | .power => Binding.neg + 1
  | .quotation => Binding.power + 1
  | .suffix | .operand => Binding.atom + 1

end Parse

namespace Expr

open Parse

/-- The binding strengths, levels and reaches that constructs have. -/
def kinds : List (Nat × Level × Bool) :=
  [(Binding.atom, .operand, false), (Binding.atom, .suffix, false),
    (Binding.suffix, .suffix, false), (Binding.quote, .quotation, false),
    (Binding.power, .power, false), (Binding.neg, .sign, false),
    (Binding.multiplicative, .product, false), (Binding.additive, .sum, false),
    (Binding.relational, .comparison, false), (Binding.not, .negation, false),
    (Binding.and, .conjunction, false), (Binding.or, .disjunction, false),
    (Binding.assignment, .assignment, false), (Binding.control, .operand, true)]

theorem kind_mem (e : Expr) : (e.binding, e.level, e.isControl) ∈ kinds := by
  cases e with
  | binary op left right =>
      cases op <;>
        simp [kinds, binding, level, isControl, BinOp.binding, BinOp.level]
  | _ => simp [kinds, binding, level, isControl]

/-- Quotes bind more tightly than suffixes for the printer and less tightly for
the reader, so that strength decides the level only up to quotes. -/
theorem kind_fits {kind : Nat × Level × Bool} (hkind : kind ∈ kinds)
    {level : Level} (h : level.least ≤ kind.1) :
    level.rank ≤ kind.2.1.rank ∧ level.rank ≤ Level.quotation.rank ∧
      kind.2.2 = false := by
  revert kind
  cases level <;> decide

theorem fitsAt_of_binding {e : Expr} {level : Level}
    (h : level.least ≤ e.binding) : e.printed.FitsAt level := by
  obtain ⟨hrank, hquotation, hcontrol⟩ := kind_fits e.kind_mem h
  refine ⟨?_, by rw [printed_isControl]; exact hcontrol⟩
  rcases e.printed_level with hlevel | ⟨hlevel, -⟩
  · rw [hlevel]
    exact hrank
  · rw [hlevel]
    exact hquotation

theorem fitsAt_group (level : Level) (items : List Expr) :
    (group items).FitsAt level :=
  ⟨level_rank_le level, rfl⟩

theorem fitsAt_enclosed (e : Expr) {level : Level} {least : Nat}
    (h : level.least ≤ least) : (e.enclosed least e.printed).FitsAt level := by
  unfold enclosed
  split
  · exact fitsAt_group level _
  · exact fitsAt_of_binding (by omega)

theorem fitsAt_enclosedRight (e : Expr) {level : Level} {least : Nat}
    (h : level.least ≤ least) :
    (e.enclosedRight least e.printed).FitsAt level := by
  unfold enclosedRight
  split
  · exact fitsAt_group level _
  · exact fitsAt_enclosed e h

theorem fits_group_one {tree : Expr} (h : Everywhere Fits tree) :
    Everywhere Fits (group [tree]) :=
  .node (List.cons_ne_nil _ _) (by simp [children, h])

theorem fits_enclosed (e : Expr) (least : Nat) {tree : Expr}
    (h : Everywhere Fits tree) : Everywhere Fits (e.enclosed least tree) := by
  unfold enclosed
  split
  · exact fits_group_one h
  · exact h

theorem fits_enclosedRight (e : Expr) (least : Nat) {tree : Expr}
    (h : Everywhere Fits tree) : Everywhere Fits (e.enclosedRight least tree) := by
  unfold enclosedRight
  split
  · exact fits_group_one h
  · exact fits_enclosed e least h

theorem isQuote_of_level {e : Expr} (h : e.level = .quotation) :
    e.isQuote = true := by
  cases e with
  | quote operand => rfl
  | binary op left right => cases op <;> cases h
  | _ => cases h

/-- A suffix behind quotes fits where it is attached. -/
theorem fits_suffixed {suffix : Expr → Expr}
    (hsuffix : ∀ target, Everywhere Fits target → target.FitsAt .suffix →
      Everywhere Fits (suffix target) ∧ (suffix target).FitsAt .quotation)
    {target : Expr} (htarget : Everywhere Fits target)
    (hfits : target.FitsAt .quotation) :
    Everywhere Fits (suffixed suffix target) ∧
      (suffixed suffix target).FitsAt .quotation := by
  induction target using ofParts with
  | hstep target ih =>
      cases hquote : target.isQuote with
      | false =>
          have hsuffixFits : target.FitsAt .suffix := by
            refine ⟨?_, hfits.2⟩
            have hrank : 11 ≤ target.level.rank := hfits.1
            have hne : target.level.rank ≠ 11 := by
              intro hlevel
              have := isQuote_of_level
                (rank_injective (hlevel : _ = Level.quotation.rank))
              simp [hquote] at this
            show 12 ≤ target.level.rank
            omega
          rw [suffixed_of_not_quote hquote]
          exact hsuffix target htarget hsuffixFits
      | true =>
          cases target with
          | quote operand =>
              have hoperand : operand ∈ (quote operand).children := by
                simp [children]
              obtain ⟨heverywhere, hfits'⟩ := ih operand hoperand
                (htarget.inside hoperand) htarget.here
              rw [suffixed]
              exact ⟨.node hfits' (by simp [children, heverywhere]),
                ⟨Nat.le_refl _, rfl⟩⟩
          | _ => cases hquote

theorem operandLevels_least (op : BinOp) :
    op.operandLevels.1.least ≤ (operandBindings op).1 ∧
      op.operandLevels.2.least ≤ (operandBindings op).2 := by
  cases op <;> decide

theorem fits_printedItems {items : List Expr}
    (hitems : ∀ item ∈ items, Everywhere Fits item.printed) :
    ∀ item ∈ printedItems items, Everywhere Fits item := by
  intro item hitem
  rw [printedItems_eq_map] at hitem
  obtain ⟨part, hpart, rfl⟩ := List.mem_map.mp hitem
  exact hitems part hpart

theorem fits_printed_index {target : Expr} {indices : List Expr}
    (hne : indices ≠ []) (htarget : Everywhere Fits target.printed)
    (hindices : ∀ e ∈ indices, Everywhere Fits e.printed) :
    Everywhere Fits (index target indices).printed := by
  rw [printed]
  refine (fits_suffixed ?_ (fits_enclosed target _ htarget)
    (fitsAt_enclosed target (by decide))).1
  intro tree htree hfits
  refine ⟨.node ⟨hfits, ?_⟩ (forall_children_index.mpr
    ⟨htree, fits_printedItems hindices⟩), ⟨show 11 ≤ 12 by decide, rfl⟩⟩
  rw [printedItems_eq_map]
  simpa using hne

theorem fits_printed_factorial {operand : Expr}
    (hoperand : Everywhere Fits operand.printed) :
    Everywhere Fits (factorial operand).printed := by
  rw [printed]
  refine (fits_suffixed ?_ (fits_enclosed operand _ hoperand)
    (fitsAt_enclosed operand (by decide))).1
  intro tree htree hfits
  exact ⟨.node hfits ((forall_children_one rfl).mpr htree),
    ⟨show 11 ≤ 12 by decide, rfl⟩⟩

theorem fits_printed_cond {branches : List (Expr × Expr)}
    {otherwise : Option Expr} (hne : branches ≠ [])
    (hbranches : ∀ branch ∈ branches, Everywhere Fits branch.1.printed ∧
      Everywhere Fits branch.2.printed)
    (hotherwise : ∀ body ∈ otherwise, Everywhere Fits body.printed) :
    Everywhere Fits (cond branches otherwise).printed := by
  rw [printed_cond, printedBranches_eq_map]
  refine .node ⟨by simpa using hne, ?_⟩ (forall_children_cond.mpr ⟨?_, ?_⟩)
  · intro branch hbranch
    obtain ⟨part, -, rfl⟩ := List.mem_map.mp hbranch
    exact ⟨fitsAt_enclosed _ (by decide), fitsAt_enclosed _ (by decide)⟩
  · intro branch hbranch
    obtain ⟨part, hmem, rfl⟩ := List.mem_map.mp hbranch
    exact ⟨fits_enclosed _ _ (hbranches part hmem).1,
      fits_enclosed _ _ (hbranches part hmem).2⟩
  · intro body hbody
    obtain ⟨part, hmem, rfl⟩ := Option.map_eq_some_iff.mp hbody
    exact hotherwise part hmem

theorem fits_printed_forRange {var : String} {first : Expr}
    {step : Option Expr} {last body : Expr}
    (hfirst : Everywhere Fits first.printed)
    (hstep : ∀ e ∈ step, Everywhere Fits e.printed)
    (hlast : Everywhere Fits last.printed)
    (hbody : Everywhere Fits body.printed) :
    Everywhere Fits (forRange var first step last body).printed := by
  rw [printed_forRange]
  refine .node ⟨fitsAt_enclosed first (by decide), ?_,
    fitsAt_enclosed last (by decide)⟩ (forall_children_forRange.mpr
      ⟨fits_enclosed first _ hfirst, ?_, fits_enclosed last _ hlast, hbody⟩)
  · intro tree htree
    obtain ⟨part, -, rfl⟩ := Option.map_eq_some_iff.mp htree
    exact fitsAt_enclosed part (by decide)
  · intro tree htree
    obtain ⟨part, hmem, rfl⟩ := Option.map_eq_some_iff.mp htree
    exact fits_enclosed part _ (hstep part hmem)

/-- The parts of a printed text stand where the grammar reads them. -/
theorem fits_printed {e : Expr} (he : Everywhere Spelled e) :
    Everywhere Fits e.printed := by
  induction e using ofParts with
  | hstep e ih =>
      have hnode := he.here
      have hpart : ∀ part ∈ e.children, Everywhere Fits part.printed :=
        fun part hpart => ih part hpart (he.inside hpart)
      cases e with
      | number text | str text | bool value | ident name =>
          exact .leaf trivial rfl
      | call name args =>
          exact .node trivial (fits_printedItems hpart)
      | list items => exact .node trivial (fits_printedItems hpart)
      | set items => exact .node trivial (fits_printedItems hpart)
      | group items =>
          refine .node ?_ (fits_printedItems hpart)
          rintro hnil
          rw [printedItems_eq_map, List.map_eq_nil_iff] at hnil
          rw [hnil] at hnode
          exact absurd hnode (by simp [Spelled])
      | index target indices =>
          obtain ⟨htarget, hindices⟩ := forall_children_index.mp hpart
          exact fits_printed_index hnode htarget hindices
      | factorial operand =>
          exact fits_printed_factorial (hpart operand List.mem_cons_self)
      | neg operand =>
          have hoperand := (forall_children_one rfl).mp hpart
          rw [printed]
          exact .node (fitsAt_enclosedRight operand (by decide))
            ((forall_children_one rfl).mpr (fits_enclosedRight operand _ hoperand))
      | not operand =>
          have hoperand := (forall_children_one rfl).mp hpart
          rw [printed]
          exact .node (fitsAt_enclosed operand (by decide))
            ((forall_children_one rfl).mpr (fits_enclosed operand _ hoperand))
      | quote operand =>
          have hoperand := (forall_children_one rfl).mp hpart
          rw [printed]
          exact .node (fitsAt_enclosed operand (by decide))
            ((forall_children_one rfl).mpr (fits_enclosed operand _ hoperand))
      | binary op left right =>
          obtain ⟨hleft, hright⟩ := (forall_children_two rfl).mp hpart
          have hlevels := operandLevels_least op
          rw [printed]
          exact .node ⟨fitsAt_enclosed left hlevels.1,
            fitsAt_enclosedRight right hlevels.2⟩ ((forall_children_two rfl).mpr
              ⟨fits_enclosed left _ hleft, fits_enclosedRight right _ hright⟩)
      | cond branches otherwise =>
          obtain ⟨hbranches, hotherwise⟩ := forall_children_cond.mp hpart
          exact fits_printed_cond hnode hbranches hotherwise
      | forIn var source body =>
          obtain ⟨hsource, hbody⟩ := (forall_children_two rfl).mp hpart
          rw [printed]
          exact .node (fitsAt_enclosed source (by decide))
            ((forall_children_two rfl).mpr
              ⟨fits_enclosed source _ hsource, hbody⟩)
      | forRange var first step last body =>
          obtain ⟨hfirst, hstep, hlast, hbody⟩ :=
            forall_children_forRange.mp hpart
          exact fits_printed_forRange hfirst hstep hlast hbody

end Expr

end SceneQuiz
