import SceneQuiz.Proofs.Expr.PrintedText
/-!
Printing and reading back.  Reading the text of an expression gives the
expression back exactly if no suffix stands behind a quote, no head of a loop is
an assignment, and the text does not nest too deeply.
-/

namespace SceneQuiz

mutual

/-- How many expressions stand around the innermost part of a text: the items
between brackets, the tests and the bodies each stand one deeper. -/
@[simp] def Expr.depth (e : Expr) : Nat :=
  match e with
  | .call _ items | .list items | .set items | .group items =>
      Expr.depthItems items
  | .index target indices => max target.depth (Expr.depthItems indices)
  | .neg operand | .not operand | .quote operand | .factorial operand =>
      operand.depth
  | .binary _ left right => max left.depth right.depth
  | .cond branches otherwise =>
      max (Expr.depthBranches branches)
        (match otherwise with
          | some body => body.depth + 1
          | none => 0)
  | .forIn _ source body => max source.depth (body.depth + 1)
  | .forRange _ first step last body =>
      max first.depth (max
        (match step with
          | some step => step.depth
          | none => 0)
        (max last.depth (body.depth + 1)))
  | _ => 0
termination_by structural e

@[simp] def Expr.depthItems (items : List Expr) : Nat :=
  match items with
  | [] => 0
  | e :: rest => max (e.depth + 1) (Expr.depthItems rest)
termination_by structural items

@[simp] def Expr.depthBranches (branches : List (Expr × Expr)) : Nat :=
  match branches with
  | [] => 0
  | (test, body) :: rest =>
      max (test.depth + 1) (max (body.depth + 1) (Expr.depthBranches rest))
termination_by structural branches

end

namespace Expr

open Parse

/-- How deep reading the text of an expression goes. -/
def nesting (e : Expr) : Nat := e.printed.depth + 1

def isAssignment : Expr → Bool
  | .binary .assign _ _ | .binary .define _ _ => true
  | _ => false

/-- A node that its text keeps: no suffix is put behind a quote, and no head of
a loop is an assignment. -/
def Faithful : Expr → Prop
  | .index target _ => target.isQuote = false
  | .factorial operand => operand.isQuote = false
  | .forIn _ source _ => source.isAssignment = false
  | .forRange _ first step last _ => first.isAssignment = false ∧
      (∀ e ∈ step, e.isAssignment = false) ∧ last.isAssignment = false
  | _ => True

/-- Every node is one that text can stand for and that its text keeps. -/
def Printable (e : Expr) : Prop :=
  Everywhere Spelled e ∧ Everywhere Faithful e

/-- Reading `tree` gives `e` back exactly if the text of `e` keeps its nodes and
there is room for the depth of `tree`. -/
def Recovers (tree e : Expr) : Prop :=
  ∀ nesting ≤ nestingLimit, tree.reading nesting = some e ↔
    Everywhere Faithful e ∧ nesting + tree.depth ≤ nestingLimit

theorem deeper_eq_some {α : Type} {nesting : Nat} {k : Nat → Option α} {a : α} :
    deeper nesting k = some a ↔ nesting < nestingLimit ∧ k (nesting + 1) = some a := by
  unfold deeper
  split
  · rename_i hlimit
    exact ⟨nofun, fun h => absurd h.1 (by omega)⟩
  · rename_i hlimit
    exact ⟨fun h => ⟨by omega, h⟩, fun h => h.2⟩

/-- A part that is read one deeper. -/
theorem Recovers.deeper {tree e : Expr} (h : Recovers tree e) (nesting : Nat) :
    (deeper nesting fun nesting => tree.reading nesting) = some e ↔
      Everywhere Faithful e ∧ nesting + (tree.depth + 1) ≤ nestingLimit := by
  rw [deeper_eq_some]
  constructor
  · rintro ⟨hlimit, hread⟩
    obtain ⟨hfaithful, hdepth⟩ := (h _ hlimit).mp hread
    exact ⟨hfaithful, by omega⟩
  · rintro ⟨hfaithful, hdepth⟩
    exact ⟨by omega, (h _ (by omega)).mpr ⟨hfaithful, by omega⟩⟩

theorem Recovers.parenthesized {tree e : Expr} (h : Recovers tree e) :
    Recovers (group [tree]) e := by
  intro nesting _
  have hread : (group [tree]).reading nesting =
      Parse.deeper nesting fun nesting => tree.reading nesting := by
    rw [reading, readingItems]
    cases Parse.deeper nesting fun nesting => tree.reading nesting <;> rfl
  have hdepth : (group [tree]).depth = tree.depth + 1 := by
    simp [depth, depthItems]
  rw [hread, hdepth]
  exact h.deeper nesting

theorem Recovers.enclosed {e : Expr} (h : Recovers e.printed e) (least : Nat) :
    Recovers (e.enclosed least e.printed) e := by
  unfold Expr.enclosed
  split
  · exact h.parenthesized
  · exact h

theorem Recovers.enclosedRight {e : Expr} (h : Recovers e.printed e)
    (least : Nat) : Recovers (e.enclosedRight least e.printed) e := by
  unfold Expr.enclosedRight
  split
  · exact h.parenthesized
  · exact h.enclosed least

/-- Room for two parts is room for the deeper one. -/
theorem room_max {p q : Prop} {nesting one two limit : Nat} :
    (p ∧ nesting + one ≤ limit) ∧ (q ∧ nesting + two ≤ limit) ↔
      (p ∧ q) ∧ nesting + max one two ≤ limit := by
  constructor
  · rintro ⟨⟨hp, hone⟩, hq, htwo⟩
    exact ⟨⟨hp, hq⟩, by omega⟩
  · rintro ⟨⟨hp, hq⟩, hmax⟩
    exact ⟨⟨hp, by omega⟩, hq, by omega⟩

theorem readingItems_printed {items : List Expr}
    (hitems : ∀ item ∈ items, Recovers item.printed item) {nesting : Nat}
    (hnesting : nesting ≤ nestingLimit) :
    readingItems nesting (printedItems items) = some items ↔
      (∀ item ∈ items, Everywhere Faithful item) ∧
        nesting + depthItems (printedItems items) ≤ nestingLimit := by
  induction items with
  | nil => simp [printedItems, readingItems, depthItems, hnesting]
  | cons item items ih =>
      have hitem := (hitems item List.mem_cons_self).deeper nesting
      have hmore := ih fun other hother =>
        hitems other (List.mem_cons_of_mem _ hother)
      have hsplit : readingItems nesting (printedItems (item :: items)) =
          some (item :: items) ↔
            (Parse.deeper nesting fun nesting => item.printed.reading nesting) =
                some item ∧
              readingItems nesting (printedItems items) = some items := by
        simp [printedItems, readingItems, Option.bind_eq_some_iff]
      rw [hsplit, hitem, hmore, room_max, printedItems, depthItems,
        List.forall_mem_cons]

theorem regroup_of_two {items : List Expr} (h : 2 ≤ items.length) :
    regroup items = group items := by
  rcases items with _ | ⟨first, _ | ⟨second, items⟩⟩
  · cases h
  · exact absurd h (by simp)
  · rfl

theorem readingBranches_printed {branches : List (Expr × Expr)}
    (hbranches : ∀ branch ∈ branches, Recovers branch.1.printed branch.1 ∧
      Recovers branch.2.printed branch.2) {nesting : Nat}
    (hnesting : nesting ≤ nestingLimit) :
    readingBranches nesting (printedBranches branches) = some branches ↔
      (∀ branch ∈ branches, Everywhere Faithful branch.1 ∧
        Everywhere Faithful branch.2) ∧
        nesting + depthBranches (printedBranches branches) ≤ nestingLimit := by
  induction branches with
  | nil => simp [printedBranches, readingBranches, depthBranches, hnesting]
  | cons branch branches ih =>
      obtain ⟨test, body⟩ := branch
      obtain ⟨htest, hbody⟩ := hbranches (test, body) List.mem_cons_self
      have hone := (Recovers.enclosed htest (Binding.control + 1)).deeper nesting
      have htwo := (Recovers.enclosed hbody (Binding.control + 1)).deeper nesting
      have hmore := ih fun other hother =>
        hbranches other (List.mem_cons_of_mem _ hother)
      have hsplit : readingBranches nesting (printedBranches ((test, body) ::
          branches)) = some ((test, body) :: branches) ↔
            ((Parse.deeper nesting fun nesting => (test.enclosed
              (Binding.control + 1) test.printed).reading nesting) = some test ∧
            (Parse.deeper nesting fun nesting => (body.enclosed
              (Binding.control + 1) body.printed).reading nesting) = some body) ∧
              readingBranches nesting (printedBranches branches) =
                some branches := by
        simp only [printedBranches, readingBranches, Option.bind_eq_bind,
          Option.bind_eq_some_iff, Option.some.injEq, List.cons.injEq,
          Prod.mk.injEq]
        constructor
        · rintro ⟨_, hfirst, _, hsecond, _, hrest, ⟨rfl, rfl⟩, rfl⟩
          exact ⟨⟨hfirst, hsecond⟩, hrest⟩
        · rintro ⟨⟨hfirst, hsecond⟩, hrest⟩
          exact ⟨_, hfirst, _, hsecond, _, hrest, ⟨rfl, rfl⟩, rfl⟩
      rw [hsplit, hone, htwo, hmore, room_max, room_max, printedBranches,
        depthBranches, List.forall_mem_cons, Nat.max_assoc]

theorem enclosed_isQuote {e : Expr} (h : e.printed.isQuote = e.isQuote) :
    (e.enclosed Binding.suffix e.printed).isQuote = e.isQuote := by
  unfold enclosed
  split
  · rename_i hloose
    cases e with
    | quote operand => exact absurd hloose (show ¬ 85 < 80 by decide)
    | _ => rfl
  · exact h

/-- Where the text keeps every node, only quotes are printed as quotes. -/
theorem printed_isQuote {e : Expr} (he : Everywhere Faithful e) :
    e.printed.isQuote = e.isQuote := by
  induction e using ofParts with
  | hstep e ih =>
      have hpart : ∀ part ∈ e.children, part.printed.isQuote = part.isQuote :=
        fun part hpart => ih part hpart (he.inside hpart)
      have hnode := he.here
      cases e with
      | index target indices =>
          have htarget := enclosed_isQuote (hpart target List.mem_cons_self)
          rw [printed, suffixed_of_not_quote (htarget.trans hnode)]
          rfl
      | factorial operand =>
          have hoperand := enclosed_isQuote (hpart operand List.mem_cons_self)
          rw [printed, suffixed_of_not_quote (hoperand.trans hnode)]
          rfl
      | cond branches otherwise =>
          rw [printed_cond]
          rfl
      | forRange var first step last body =>
          rw [printed_forRange]
          rfl
      | _ => rfl

/-- A suffix stands behind its target exactly if the target is no quote. -/
theorem recovers_suffixed {suffix : Expr → Expr} {target e : Expr}
    (hchildren : target ∈ e.children)
    (hfaithful : e.Faithful → target.isQuote = false)
    (hquote : e.isQuote = false)
    (h : target.isQuote = false →
      Recovers (suffix (target.enclosed Binding.suffix target.printed)) e) :
    Recovers (suffixed suffix (target.enclosed Binding.suffix target.printed))
      e := by
  cases htree : (target.enclosed Binding.suffix target.printed).isQuote with
  | false =>
      rw [suffixed_of_not_quote htree]
      apply h
      cases target with
      | quote operand => cases htree
      | _ => rfl
  | true =>
      intro nesting _
      constructor
      · intro hread
        generalize target.enclosed Binding.suffix target.printed = tree at *
        cases tree with
        | quote operand =>
            rw [suffixed, reading, Option.bind_eq_bind,
              Option.bind_eq_some_iff] at hread
            obtain ⟨found, -, hfound⟩ := hread
            rw [← Option.some.inj hfound] at hquote
            cases hquote
        | _ => cases htree
      · rintro ⟨heverywhere, -⟩
        have htarget := enclosed_isQuote
          (printed_isQuote (heverywhere.inside hchildren))
        rw [htree, hfaithful heverywhere.here] at htarget
        cases htarget

theorem level_eq_assignment {e : Expr} :
    e.level = .assignment ↔ e.isAssignment = true := by
  cases e with
  | binary op left right => cases op <;> simp [level, BinOp.level, isAssignment]
  | _ => simp [level, isAssignment]

theorem enclosed_level_assignment (e : Expr) :
    (e.enclosed (Binding.control + 1) e.printed).level = .assignment ↔
      e.isAssignment = true := by
  unfold enclosed
  split
  · rename_i hloose
    refine ⟨nofun, fun hassignment => ?_⟩
    cases e with
    | binary op left right =>
        cases op with
        | assign | define => exact absurd hloose (show ¬ 10 < 6 by decide)
        | _ => cases hassignment
    | _ => cases hassignment
  · rw [← level_eq_assignment]
    rcases e.printed_level with hlevel | ⟨hprinted, hlevel⟩
    · rw [hlevel]
    · rw [hprinted, hlevel]
      decide

theorem recovers_header {e : Expr} (h : Recovers e.printed e) {nesting : Nat}
    (hnesting : nesting ≤ nestingLimit) :
    (e.enclosed (Binding.control + 1) e.printed).asHeader
        ((e.enclosed (Binding.control + 1) e.printed).reading nesting) = some e ↔
      (Everywhere Faithful e ∧ e.isAssignment = false) ∧ nesting +
        (e.enclosed (Binding.control + 1) e.printed).depth ≤ nestingLimit := by
  unfold asHeader
  split
  · rename_i hlevel
    rw [(enclosed_level_assignment e).mp hlevel]
    simp
  · rename_i hlevel
    have hassignment : e.isAssignment = false := by
      rw [← Bool.not_eq_true]
      exact fun htrue => hlevel ((enclosed_level_assignment e).mpr htrue)
    rw [h.enclosed (Binding.control + 1) nesting hnesting]
    simp [hassignment]

/-- A node with one operand. -/
theorem recovers_one {make : Expr → Expr} {tree operand : Expr}
    (h : Recovers tree operand)
    (hread : ∀ nesting, (make tree).reading nesting = some (make operand) ↔
      tree.reading nesting = some operand)
    (hdepth : (make tree).depth = tree.depth)
    (hchildren : (make operand).children = [operand])
    (hnode : (make operand).Faithful) : Recovers (make tree) (make operand) := by
  intro nesting hnesting
  have hparts : Everywhere Faithful (make operand) ↔ Everywhere Faithful operand := by
    rw [everywhere_iff, forall_children_one hchildren, and_iff_right hnode]
  rw [hread, hdepth, h nesting hnesting, hparts]

/-- A node whose parts are the items between its brackets. -/
theorem recovers_items {make : List Expr → Expr} {items : List Expr}
    (hitems : ∀ item ∈ items, Recovers item.printed item)
    (hread : ∀ nesting, (make (printedItems items)).reading nesting =
      some (make items) ↔
        readingItems nesting (printedItems items) = some items)
    (hdepth : (make (printedItems items)).depth = depthItems (printedItems items))
    (hchildren : (make items).children = items)
    (hnode : (make items).Faithful) :
    Recovers (make (printedItems items)) (make items) := by
  intro nesting hnesting
  rw [hread, hdepth, readingItems_printed hitems hnesting, everywhere_iff,
    hchildren, and_iff_right hnode]

theorem recovers_cond {branches : List (Expr × Expr)} {otherwise : Option Expr}
    (hbranches : ∀ branch ∈ branches, Recovers branch.1.printed branch.1 ∧
      Recovers branch.2.printed branch.2)
    (hotherwise : ∀ body ∈ otherwise, Recovers body.printed body) :
    Recovers (cond branches otherwise).printed (cond branches otherwise) := by
  intro nesting hnesting
  have hone := readingBranches_printed hbranches hnesting
  have hparts : Everywhere Faithful (cond branches otherwise) ↔
      (∀ branch ∈ branches, Everywhere Faithful branch.1 ∧
        Everywhere Faithful branch.2) ∧
        ∀ body ∈ otherwise, Everywhere Faithful body := by
    rw [everywhere_iff, forall_children_cond]
    exact and_iff_right trivial
  cases otherwise with
  | none =>
      have hsplit : (cond branches none).printed.reading nesting =
          some (cond branches none) ↔
            readingBranches nesting (printedBranches branches) =
              some branches := by
        simp [printed, reading, Option.bind_eq_some_iff]
      rw [hsplit, hone, hparts, printed, depth, Nat.max_zero]
      simp
  | some body =>
      have htwo := (hotherwise body rfl).deeper nesting
      have hsplit : (cond branches (some body)).printed.reading nesting =
          some (cond branches (some body)) ↔
            readingBranches nesting (printedBranches branches) =
                some branches ∧
              (Parse.deeper nesting fun nesting =>
                body.printed.reading nesting) = some body := by
        simp [printed, reading, Option.bind_eq_some_iff]
      rw [hsplit, hone, htwo, room_max, hparts, printed, depth]
      simp

theorem recovers_forIn {var : String} {source body : Expr}
    (hsource : Recovers source.printed source)
    (hbody : Recovers body.printed body) :
    Recovers (forIn var source body).printed (forIn var source body) := by
  intro nesting hnesting
  have hsplit : (forIn var source body).printed.reading nesting =
      some (forIn var source body) ↔
        (source.enclosed (Binding.control + 1) source.printed).asHeader
            ((source.enclosed (Binding.control + 1) source.printed).reading
              nesting) = some source ∧
          (Parse.deeper nesting fun nesting =>
            body.printed.reading nesting) = some body := by
    simp [printed, reading, Option.bind_eq_some_iff]
  have hparts : Everywhere Faithful (forIn var source body) ↔
      (Everywhere Faithful source ∧ source.isAssignment = false) ∧
        Everywhere Faithful body := by
    rw [everywhere_iff, forall_children_two rfl, Faithful]
    constructor
    · rintro ⟨hnode, hsource, hbody⟩
      exact ⟨⟨hsource, hnode⟩, hbody⟩
    · rintro ⟨⟨hsource, hnode⟩, hbody⟩
      exact ⟨hnode, hsource, hbody⟩
  rw [hsplit, recovers_header hsource hnesting, hbody.deeper, room_max, hparts,
    printed, depth]

/-- What reading the step of a loop gives, if it has one. -/
def readingStep (nesting : Nat) : Option Expr → Option (Option Expr)
  | some tree => (tree.asHeader (tree.reading nesting)).map some
  | none => some none

theorem recovers_step {step : Option Expr}
    (hstep : ∀ e ∈ step, Recovers e.printed e) {nesting : Nat}
    (hnesting : nesting ≤ nestingLimit) :
    readingStep nesting (step.map fun e =>
        e.enclosed (Binding.control + 1) e.printed) = some step ↔
      (∀ e ∈ step, Everywhere Faithful e ∧ e.isAssignment = false) ∧ nesting +
        (step.elim 0 fun e =>
          (e.enclosed (Binding.control + 1) e.printed).depth) ≤ nestingLimit := by
  cases step with
  | none => simp [readingStep, hnesting]
  | some e =>
      have he := recovers_header (hstep e rfl) hnesting
      simp [readingStep, he]

theorem reading_forRange (nesting : Nat) (var : String) (first : Expr)
    (step : Option Expr) (last body : Expr) :
    (forRange var first step last body).reading nesting = (do
      let first ← first.asHeader (first.reading nesting)
      let step ← readingStep nesting step
      let last ← last.asHeader (last.reading nesting)
      let body ← Parse.deeper nesting fun nesting => body.reading nesting
      some (.forRange var first step last body)) := by
  cases step <;> rfl

theorem recovers_forRange {var : String} {first : Expr} {step : Option Expr}
    {last body : Expr} (hfirst : Recovers first.printed first)
    (hstep : ∀ e ∈ step, Recovers e.printed e)
    (hlast : Recovers last.printed last) (hbody : Recovers body.printed body) :
    Recovers (forRange var first step last body).printed
      (forRange var first step last body) := by
  intro nesting hnesting
  have hsplit : (forRange var first step last body).printed.reading nesting =
      some (forRange var first step last body) ↔
        (first.enclosed (Binding.control + 1) first.printed).asHeader
            ((first.enclosed (Binding.control + 1) first.printed).reading
              nesting) = some first ∧
          readingStep nesting (step.map fun e =>
            e.enclosed (Binding.control + 1) e.printed) = some step ∧
          (last.enclosed (Binding.control + 1) last.printed).asHeader
            ((last.enclosed (Binding.control + 1) last.printed).reading
              nesting) = some last ∧
          (Parse.deeper nesting fun nesting =>
            body.printed.reading nesting) = some body := by
    rw [printed_forRange, reading_forRange]
    simp only [Option.bind_eq_bind, Option.bind_eq_some_iff, Option.some.injEq,
      forRange.injEq]
    constructor
    · rintro ⟨_, hone, _, htwo, _, hthree, _, hfour, -, rfl, rfl, rfl, rfl⟩
      exact ⟨hone, htwo, hthree, hfour⟩
    · rintro ⟨hone, htwo, hthree, hfour⟩
      exact ⟨_, hone, _, htwo, _, hthree, _, hfour, trivial, rfl, rfl, rfl, rfl⟩
  have hparts : Everywhere Faithful (forRange var first step last body) ↔
      (Everywhere Faithful first ∧ first.isAssignment = false) ∧
        (∀ e ∈ step, Everywhere Faithful e ∧ e.isAssignment = false) ∧
        (Everywhere Faithful last ∧ last.isAssignment = false) ∧
          Everywhere Faithful body := by
    rw [everywhere_iff, forall_children_forRange, Faithful]
    constructor
    · rintro ⟨⟨hone, htwo, hthree⟩, hfirst, hstep, hlast, hbody⟩
      exact ⟨⟨hfirst, hone⟩, fun e he => ⟨hstep e he, htwo e he⟩,
        ⟨hlast, hthree⟩, hbody⟩
    · rintro ⟨hfirst, hstep, hlast, hbody⟩
      exact ⟨⟨hfirst.2, fun e he => (hstep e he).2, hlast.2⟩, hfirst.1,
        fun e he => (hstep e he).1, hlast.1, hbody⟩
  have hdepth : (forRange var first step last body).printed.depth =
      max (first.enclosed (Binding.control + 1) first.printed).depth (max
        (step.elim 0 fun e => (e.enclosed (Binding.control + 1) e.printed).depth)
        (max (last.enclosed (Binding.control + 1) last.printed).depth
          (body.printed.depth + 1))) := by
    rw [printed_forRange]
    cases step <;> rfl
  rw [hsplit, recovers_header hfirst hnesting, recovers_step hstep hnesting,
    recovers_header hlast hnesting, hbody.deeper, room_max, room_max, room_max,
    hparts, hdepth]

/-- One item alone would be given back without its parentheses. -/
theorem recovers_group {items : List Expr} (hlength : 2 ≤ items.length)
    (hitems : ∀ item ∈ items, Recovers item.printed item) :
    Recovers (group items).printed (group items) := by
  refine recovers_items hitems (fun nesting => ?_) (by rw [depth]) rfl trivial
  rw [reading, Option.bind_eq_bind, Option.bind_eq_some_iff]
  constructor
  · rintro ⟨found, hfound, hgroup⟩
    have hfoundLength := readingItems_length hfound
    rw [printedItems_eq_map, List.length_map] at hfoundLength
    rw [regroup_of_two (hfoundLength ▸ hlength), Option.some.injEq,
      group.injEq] at hgroup
    rw [hfound, hgroup]
  · intro hfound
    exact ⟨items, hfound, by rw [regroup_of_two hlength]⟩

theorem recovers_index {target : Expr} {indices : List Expr}
    (htarget : Recovers target.printed target)
    (hindices : ∀ e ∈ indices, Recovers e.printed e) :
    Recovers (index target indices).printed (index target indices) := by
  rw [printed]
  refine recovers_suffixed List.mem_cons_self id rfl
    fun hquote nesting hnesting => ?_
  have hsplit : (index (target.enclosed Binding.suffix target.printed)
      (printedItems indices)).reading nesting = some (index target indices) ↔
        (target.enclosed Binding.suffix target.printed).reading nesting =
          some target ∧
        readingItems nesting (printedItems indices) = some indices := by
    simp [reading, Option.bind_eq_some_iff]
  have hparts : Everywhere Faithful (index target indices) ↔
      Everywhere Faithful target ∧
        ∀ part ∈ indices, Everywhere Faithful part := by
    rw [everywhere_iff, forall_children_index]
    exact and_iff_right hquote
  rw [hsplit, htarget.enclosed _ nesting hnesting,
    readingItems_printed hindices hnesting, room_max, hparts, depth]

theorem recovers_binary {op : BinOp} {left right : Expr}
    (hleft : Recovers left.printed left)
    (hright : Recovers right.printed right) :
    Recovers (binary op left right).printed (binary op left right) := by
  intro nesting hnesting
  have hsplit : (binary op left right).printed.reading nesting =
      some (binary op left right) ↔
        (left.enclosed (operandBindings op).1 left.printed).reading nesting =
          some left ∧
        (right.enclosedRight (operandBindings op).2 right.printed).reading
          nesting = some right := by
    simp [printed, reading, Option.bind_eq_some_iff]
  have hparts : Everywhere Faithful (binary op left right) ↔
      Everywhere Faithful left ∧ Everywhere Faithful right := by
    rw [everywhere_iff, forall_children_two rfl]
    exact and_iff_right trivial
  rw [hsplit, hleft.enclosed _ nesting hnesting,
    hright.enclosedRight _ nesting hnesting, room_max, hparts, printed, depth]

theorem recovers {e : Expr} (he : Everywhere Spelled e) :
    Recovers e.printed e := by
  induction e using ofParts with
  | hstep e ih =>
      have hpart : ∀ part ∈ e.children, Recovers part.printed part :=
        fun part hpart => ih part hpart (he.inside hpart)
      have hspelled := he.here
      cases e with
      | number text | str text | bool value | ident name =>
          intro nesting hnesting
          rw [everywhere_iff]
          simp [printed, reading, Faithful, children, depth, hnesting]
      | call name args =>
          exact recovers_items hpart (by simp [reading, Option.bind_eq_some_iff])
            (by rw [depth]) rfl trivial
      | list items =>
          exact recovers_items hpart (by simp [reading, Option.bind_eq_some_iff])
            (by rw [depth]) rfl trivial
      | set items =>
          exact recovers_items hpart (by simp [reading, Option.bind_eq_some_iff])
            (by rw [depth]) rfl trivial
      | group items => exact recovers_group hspelled hpart
      | index target indices =>
          obtain ⟨htarget, hindices⟩ := forall_children_index.mp hpart
          exact recovers_index htarget hindices
      | neg operand =>
          refine recovers_one ((hpart operand List.mem_cons_self).enclosedRight _)
            (by simp [reading, Option.bind_eq_some_iff]) (by rw [depth]) rfl trivial
      | not operand =>
          refine recovers_one ((hpart operand List.mem_cons_self).enclosed _)
            (by simp [reading, Option.bind_eq_some_iff]) (by rw [depth]) rfl trivial
      | quote operand =>
          refine recovers_one ((hpart operand List.mem_cons_self).enclosed _)
            (by simp [reading, Option.bind_eq_some_iff]) (by rw [depth]) rfl trivial
      | factorial operand =>
          rw [printed]
          refine recovers_suffixed List.mem_cons_self id rfl fun hquote => ?_
          exact recovers_one ((hpart operand List.mem_cons_self).enclosed _)
            (by simp [reading, Option.bind_eq_some_iff]) (by rw [depth]) rfl hquote
      | binary op left right =>
          exact recovers_binary (hpart left (by simp [children]))
            (hpart right (by simp [children]))
      | cond branches otherwise =>
          obtain ⟨hbranches, hotherwise⟩ := forall_children_cond.mp hpart
          exact recovers_cond hbranches hotherwise
      | forIn var source body =>
          exact recovers_forIn (hpart source (by simp [children]))
            (hpart body (by simp [children]))
      | forRange var first step last body =>
          obtain ⟨hfirst, hstep, hlast, hbody⟩ :=
            forall_children_forRange.mp hpart
          exact recovers_forRange hfirst hstep hlast hbody

/-- A text with the lexemes of the printed tree of an expression is read as that
expression exactly if it keeps the nodes and does not nest too deeply. -/
theorem parse_eq_ok_iff_of_prints {source : String} {e : Expr} (he : Everywhere Spelled e)
    (h : Prints source e.printed) :
    Expr.parse source = .ok e ↔ Everywhere Faithful e ∧ e.nesting ≤ nestingLimit := by
  obtain ⟨hissues, hlexemes⟩ := lex_of_scans (h.scans [] ends_nil)
  have hread := readWhole_spell (fits_printed he)
  have hdepth : e.nesting = 0 + (e.printed.depth + 1) := (Nat.zero_add _).symm
  rw [parse_eq_ok_iff, hlexemes, hread, and_iff_right hissues, hdepth,
    ← (recovers he).deeper 0]
  constructor
  · rintro ⟨rest, hrest⟩
    obtain ⟨found, hfound, heq⟩ := Option.map_eq_some_iff.mp hrest
    cases heq
    exact hfound
  · intro hfound
    exact ⟨[.endOfInput], by rw [hfound]; rfl⟩

/-- The text of an expression that text can stand for is read as that
expression exactly if it keeps the nodes and does not nest too deeply. -/
theorem parse_print_eq_ok_iff {e : Expr} (he : Everywhere Spelled e) :
    Expr.parse e.print = .ok e ↔
      Everywhere Faithful e ∧ e.nesting ≤ nestingLimit :=
  parse_eq_ok_iff_of_prints he (prints he)

theorem parse_print_of_printable {e : Expr} (he : e.Printable)
    (hnesting : e.nesting ≤ nestingLimit) : Expr.parse e.print = .ok e :=
  (parse_print_eq_ok_iff he.1).mpr ⟨he.2, hnesting⟩

/-- An expression that was read is read again from its text exactly if the text
keeps the nodes and does not nest too deeply. -/
theorem reparse_eq_ok_iff {source : String} {e : Expr}
    (h : Expr.parse source = .ok e) :
    Expr.parse e.print = .ok e ↔
      Everywhere Faithful e ∧ e.nesting ≤ nestingLimit :=
  parse_print_eq_ok_iff (spelled_of_parse h)

/-- A product with a sign in it, which is printed with parentheses. -/
def signedProduct : Expr := .binary .mul (.ident "a") (.neg (.ident "b"))

theorem signedProduct_reparse_iff :
    Expr.parse "a*-b" = .ok signedProduct ∧
      (Expr.parse signedProduct.print = .ok signedProduct ↔
        Everywhere Faithful signedProduct ∧
          signedProduct.nesting ≤ nestingLimit) :=
  have hparse : Expr.parse "a*-b" = .ok signedProduct := by rfl
  ⟨hparse, reparse_eq_ok_iff hparse⟩

/-- An index behind a quote in parentheses, which are not printed. -/
def quotedTarget : Expr := .index (.quote (.ident "x")) [.number "1"]

/-- The parentheses are lost, and the text is read as a quoted index. -/
theorem quotedTarget_reparsed :
    Expr.parse "('x)[1]" = .ok quotedTarget ∧ quotedTarget.print = "'x[1]" ∧
      Expr.parse quotedTarget.print ≠ .ok quotedTarget := by
  have hagain : Expr.parse quotedTarget.print =
      .ok (.quote (.index (.ident "x") [.number "1"])) := by rfl
  refine ⟨by rfl, by rfl, ?_⟩
  rw [hagain]
  exact nofun

end Expr

end SceneQuiz
