import SceneQuiz.Proofs.Template.Discreet
import SceneQuiz.Proofs.Template.LoopValue
/-!
The values of blocks, by the cases of the block.  Merging takes the items of a
tagged list apart that stands inside another, so what is said of the code of a
block is said of the code as a whole and of each part it may be taken into.
-/

namespace SceneQuiz

/-- What the value of a block is: a text, or else rendered. -/
def Value.IsShown (isFlat inside : Bool) (value : Value) : Prop :=
  if isFlat then value.IsText else value.Renders inside

theorem Value.IsText.isShown {isFlat inside : Bool} {value : Value} (h : value.IsText) :
    value.IsShown isFlat inside := by
  unfold IsShown
  split
  · exact h
  · exact h.renders

namespace Value.IsShown

variable {isFlat outer inside : Bool} {value : Value}

theorem renders (h : value.IsShown isFlat inside) : value.Renders inside := by
  unfold IsShown at h
  split at h
  · exact h.renders
  · exact h

/-- What is flat around a block needs a flat block. -/
theorem around (h : value.IsShown isFlat inside) (hflat : outer = true → isFlat = true) :
    value.IsShown outer inside := by
  unfold IsShown
  split
  · next houter =>
      rw [hflat houter] at h
      exact h
  · exact h.renders

end Value.IsShown

namespace Expr

variable {limit : Nat} {good fine : Value → Prop}

theorem Obeys.shows {e : Expr} (h : e.Obeys .discreet visible) : e.Shows fun _ => True :=
  ⟨h, h.keeps (Set.Subset.refl _)⟩

/-- Merged code that has good values once it is folded, as a whole and part by
part. -/
structure Suits (limit : Nat) (good : Value → Prop) (e : Expr) : Prop where
  obeys : e.Obeys .discreet visible
  unnamed : ∀ name, e ≠ .ident name
  whole : (e.foldConcats limit).Shows good
  parts : ∀ part ∈ e.rootParts, (part.foldConcats limit).Shows good

namespace Suits

theorem mono {e : Expr} (h : e.Suits limit good) (himp : ∀ value, good value → fine value) :
    e.Suits limit fine :=
  ⟨h.obeys, h.unnamed, h.whole.mono himp, fun part hpart => (h.parts part hpart).mono himp⟩

/-- What is no list is not taken apart. -/
theorem of_plain {e : Expr} (hobeys : e.Obeys .discreet visible)
    (hplain : e.isDeclarative = false) (hwhole : (e.foldConcats limit).Shows good) :
    e.Suits limit good := by
  have hparts : e.rootParts = [e] := by
    apply Concat.rootParts_other
    rintro items rfl
    cases hplain
  refine ⟨hobeys, ?_, hwhole, by simpa [hparts] using hwhole⟩
  rintro name rfl
  cases hplain

theorem text {e : Expr} (hobeys : e.Obeys .discreet visible)
    (htext : Concat.yieldsText e = true) : e.Suits limit Value.IsText := by
  apply of_plain hobeys
  · cases e <;> first | rfl | cases htext
  · apply shows_text hobeys.foldConcats
    rwa [yieldsText_foldConcats]

theorem localized (names : List String) {e : Expr} (h : e.Suits limit good) :
    (Emit.localized names e).Suits limit good := by
  cases names with
  | nil => exact h
  | cons name rest =>
      apply of_plain
      · exact (Emit.shows_localized (name :: rest) h.obeys.shows).obeys
      · rfl
      · rw [(Emit.partwise_foldConcats limit).localized]
        exact Emit.shows_localized _ h.whole

/-- A tagged list takes in what lists inside it are taken apart into. -/
theorem root {inside : Bool} {items : List Expr}
    (h : ∀ e ∈ items, e.Suits limit (Value.Renders inside)) :
    (Expr.list (.str rootTag :: Concat.rootItems items)).Suits limit (Value.Renders inside) := by
  have hitems : ∀ part ∈ Concat.rootItems items,
      (part.foldConcats limit).Shows (Value.Renders inside) := by
    intro part hpart
    rcases Concat.mem_mergeTexts hpart with hmem | ⟨text, rfl⟩
    · rw [Concat.rootPartsOfAll_eq] at hmem
      obtain ⟨e, he, hpart⟩ := List.mem_flatMap.mp hmem
      exact (h e he).parts part hpart
    · exact (shows_str text).mono fun _ htext => htext.renders
  have hcomposed := composed_obeys Policy.discreet visible
  constructor
  · have htagged := hcomposed.tagged
      (List.forall_mem_cons.mpr ⟨obeys_str rootTag, fun e he => (h e he).obeys⟩)
    exact htagged
  · exact nofun
  · rw [foldConcats_eq]
    exact shows_root (List.forall_mem_map.mpr hitems)
  · rw [Concat.rootParts_root, Concat.rootPartsOfAll_rootItems]
    exact hitems

end Suits

end Expr

namespace Emit

open SceneQuiz.Expr

variable {limit : Nat} {good : Value → Prop}

theorem suits_injection {injection : Injection}
    (h : injection.expr.Obeys .discreet visible) :
    (Emit.injection injection).Suits limit Value.IsText := by
  apply Suits.of_plain (shows_injection h).obeys
  · obtain ⟨mode, expr, key, flag, mathMode⟩ := injection
    cases mode <;> cases key <;> cases flag <;> rfl
  · rw [(partwise_foldConcats limit).injection]
    exact shows_injection h.foldConcats

theorem suits_definitions {pairs : List (String × Expr)}
    (h : ∀ pair ∈ pairs, pair.1 ∈ visible ∧ pair.2.Obeys .discreet visible) :
    (definitions pairs).Suits limit Value.IsText := by
  apply Suits.of_plain (shows_definitions h).obeys
  · cases pairs <;> rfl
  · rw [(partwise_foldConcats limit).definitions]
    apply shows_definitions
    exact List.forall_mem_map.mpr fun pair hpair => ⟨(h pair hpair).1, (h pair hpair).2.foldConcats⟩

theorem suits_conditional {branches : List (Expr × Expr)} {otherwise : Expr}
    (h : ∀ branch ∈ branches, branch.1.Obeys .discreet visible ∧ branch.2.Suits limit good)
    (hotherwise : otherwise.Suits limit good) :
    (conditional branches otherwise).Suits limit good := by
  cases branches with
  | nil => exact hotherwise
  | cons branch rest =>
      apply Suits.of_plain
      · have hany : ∀ other ∈ branch :: rest, other.1.Obeys .discreet visible ∧
            other.2.Shows fun _ => True :=
          fun other hother => ⟨(h other hother).1, (h other hother).2.obeys.shows⟩
        exact (shows_conditional hany hotherwise.obeys.shows).obeys
      · rfl
      · rw [(partwise_foldConcats limit).conditional]
        apply shows_conditional _ hotherwise.whole
        exact List.forall_mem_map.mpr fun branch hbranch =>
          ⟨(h branch hbranch).1.foldConcats, (h branch hbranch).2.whole⟩

theorem suits_container (blocks : List Block) {isFlat inside : Bool} {parts : List Expr}
    (h : ∀ e ∈ parts, e.Suits limit (Value.IsShown isFlat inside)) :
    (localized (definedNames blocks)
      (if isFlat then Concat.concatenation parts
        else .list (.str rootTag :: Concat.rootItems parts))).Suits limit
      (Value.IsShown isFlat inside) := by
  apply Suits.localized
  cases isFlat with
  | true =>
      have hcomposed := composed_obeys Policy.discreet visible
      exact Suits.text (hcomposed.concatenation fun e he => (h e he).obeys)
        (yieldsText_concatenation parts)
  | false => exact Suits.root h

theorem suits_loop {n : Nat} {iterators : List (String × Expr)} {isFlat inside : Bool}
    {body : Expr}
    (h : ∀ iterator ∈ iterators, iterator.1 ∈ visible ∧ iterator.2.Obeys .discreet visible)
    (hbody : body.Suits limit (Value.IsShown isFlat inside)) :
    (loop n iterators isFlat body).Suits limit (Value.IsShown isFlat inside) := by
  have hfolded : ∀ iterator ∈ iterators.map fun iterator =>
      (iterator.1, iterator.2.foldConcats limit),
      iterator.1 ∈ visible ∧ iterator.2.Obeys .discreet visible :=
    List.forall_mem_map.mpr fun iterator hmem =>
      ⟨(h iterator hmem).1, (h iterator hmem).2.foldConcats⟩
  apply Suits.of_plain
  · exact obeys_loop isFlat (fun iterator hmem => (h iterator hmem).2) hbody.obeys
  · rfl
  · rw [(partwise_foldConcats limit).loop]
    cases isFlat with
    | true =>
        exact shows_flatLoop (fun iterator hmem => (hfolded iterator hmem).2) hbody.whole.obeys
    | false => exact shows_renderedLoop hfolded hbody.whole

/-- A marker: a list that is never taken apart. -/
theorem suits_marker {tag : String} (htag : tag ≠ rootTag) {items : List Expr}
    (hitems : ∀ e ∈ items, e.Obeys .discreet visible)
    (h : (Expr.list (.str tag :: items.map (Expr.foldConcats limit))).Shows good) :
    (Expr.list (.str tag :: items)).Suits limit good := by
  have hwhole : ((Expr.list (.str tag :: items)).foldConcats limit).Shows good := by
    rw [foldConcats_eq]
    exact h
  have hparts : (Expr.list (.str tag :: items)).rootParts = [.list (.str tag :: items)] := by
    apply Concat.rootParts_other
    rintro others heq
    cases heq
    exact htag rfl
  refine ⟨.node trivial ?_, nofun, hwhole, by simpa [hparts] using hwhole⟩
  exact List.forall_mem_cons.mpr ⟨obeys_str tag, hitems⟩

end Emit

/-- Merging leaves a marker a marker. -/
theorem Emit.mergedForm_marker (expand : String → Except TemplateIssue Expr) {tag : String}
    (htag : tag ≠ rootTag) (items : List Expr) :
    (Expr.list (.str tag :: items)).mergedForm expand =
      .list (.str tag :: items.map (Expr.mergedForm expand)) := by
  apply (partwise_mergedForm expand).list
  rintro e heq
  cases heq
  exact fun hroot => htag (Expr.str.inj hroot)

mutual

/-- The code of a block suits the block, by its cases, if what the author wrote
is discreet in normal form. -/
theorem Block.suits_mergedForm {expand : String → Except TemplateIssue Expr} (limit : Nat)
    (loops : Nat) {inside : Bool} (block : Block) (hplaced : block.isPlaced inside = true)
    (hauthored : ∀ e ∈ block.authored, (e.mergedForm expand).Obeys .discreet Expr.visible)
    (hbinders : ∀ name ∈ block.binders, name ∈ Expr.visible) :
    ((block.codeAfter loops).mergedForm expand).Suits limit
      (Value.IsShown block.isFlat inside) :=
  have hmerged := Emit.partwise_mergedForm expand
  match block with
  | .container items => by
      rw [Block.codeAfter, Emit.mergedForm_container]
      apply Emit.suits_container
      exact List.forall_mem_map.mpr
        (Block.suits_mergedAll limit loops items hplaced hauthored hbinders)
  | .text content => Expr.Suits.text (Expr.obeys_str content) rfl
  | .inject injection => by
      rw [Block.codeAfter, hmerged.injection]
      exact Emit.suits_injection (hauthored _ List.mem_cons_self)
  | .define pairs => by
      rw [Block.codeAfter, hmerged.definitions]
      apply Emit.suits_definitions
      refine List.forall_mem_map.mpr fun pair hpair => ?_
      exact ⟨hbinders pair.1 (List.mem_map_of_mem hpair),
        hauthored pair.2 (List.mem_map_of_mem hpair)⟩
  | .cond branches otherwise => by
      unfold Block.authored at hauthored
      unfold Block.binders at hbinders
      unfold Block.isPlaced at hplaced
      rw [List.forall_mem_append] at hauthored hbinders
      rw [Bool.and_eq_true] at hplaced
      have hcode := Block.suits_mergedBranches limit loops branches hplaced.1 hauthored.1 hbinders.1
      unfold Block.codeAfter
      rw [hmerged.conditional]
      apply Emit.suits_conditional
      · refine List.forall_mem_map.mpr fun branch hbranch => ?_
        refine ⟨(hcode branch hbranch).1, (hcode branch hbranch).2.mono fun _ hshown => ?_⟩
        apply hshown.around
        intro hflat
        unfold Block.isFlat at hflat
        exact (Bool.and_eq_true_iff.mp hflat).1
      · cases otherwise with
        | some body =>
            apply (Block.suits_mergedForm limit _ body hplaced.2 hauthored.2 hbinders.2).mono
            refine fun _ hshown => hshown.around fun hflat => ?_
            exact (Bool.and_eq_true_iff.mp hflat).2
        | none =>
            apply (Expr.Suits.text (Expr.obeys_str "") rfl).mono
            exact fun _ htext => htext.isShown
  | .foreach iterators body => by
      rw [Block.authored, List.forall_mem_append] at hauthored
      rw [Block.binders, List.forall_mem_append] at hbinders
      rw [Block.codeAfter, hmerged.loop]
      apply Emit.suits_loop
      · refine List.forall_mem_map.mpr fun iterator hmem => ?_
        exact ⟨hbinders.1 iterator.1 (List.mem_map_of_mem hmem),
          hauthored.1 iterator.2 (List.mem_map_of_mem hmem)⟩
      · exact Block.suits_mergedForm limit _ body hplaced hauthored.2 hbinders.2
  | .indexing style start body => by
      rw [Block.authored, List.forall_mem_cons] at hauthored
      have hbody : ((body.codeAfter loops).mergedForm expand).Suits limit
          (Value.IsShown body.isFlat true) :=
        Block.suits_mergedForm limit _ body hplaced hauthored.2 hbinders
      rw [Block.codeAfter, Emit.mergedForm_marker expand (by decide)]
      apply Emit.suits_marker (by decide)
      · simp only [List.map_cons, List.forall_mem_cons]
        exact ⟨Expr.obeys_str _, hauthored.1, hbody.obeys, List.forall_mem_nil _⟩
      · exact Expr.shows_marker hauthored.1.foldConcats hbody.whole fun first last hlast =>
          Value.renders_indexing style first hlast.renders
  | .index => by
      rw [Block.isPlaced] at hplaced
      subst hplaced
      exact Emit.suits_marker (by decide) (List.forall_mem_nil _) Expr.shows_index
  | .reveal input value body => by
      rw [Block.authored, List.forall_mem_cons] at hauthored
      have hbody : ((body.codeAfter loops).mergedForm expand).Suits limit
          (Value.IsShown body.isFlat inside) :=
        Block.suits_mergedForm limit _ body hplaced hauthored.2 hbinders
      rw [Block.codeAfter, Emit.mergedForm_marker expand (by decide)]
      apply Emit.suits_marker (by decide)
      · simp only [List.map_cons, List.forall_mem_cons]
        exact ⟨Expr.obeys_str _, hauthored.1, hbody.obeys, List.forall_mem_nil _⟩
      · exact Expr.shows_marker hauthored.1.foldConcats hbody.whole fun first last hlast =>
          Value.renders_reveal input first hlast.renders
  | .lang codes body => by
      have hbody : ((body.codeAfter loops).mergedForm expand).Suits limit
          (Value.IsShown body.isFlat inside) :=
        Block.suits_mergedForm limit _ body hplaced hauthored hbinders
      rw [Block.codeAfter, Emit.mergedForm_marker expand (by decide)]
      apply Emit.suits_marker (by decide)
      · simp only [List.map_cons, List.forall_mem_cons]
        exact ⟨Expr.obeys_str _, hbody.obeys, List.forall_mem_nil _⟩
      · exact Expr.shows_wrapper hbody.whole fun last hlast =>
          Value.renders_lang _ hlast.renders
termination_by structural block

theorem Block.suits_mergedAll {expand : String → Except TemplateIssue Expr} (limit : Nat)
    (loops : Nat) {inside : Bool} (blocks : List Block)
    (hplaced : Block.allPlaced inside blocks = true)
    (hauthored : ∀ e ∈ Block.authoredOfAll blocks,
      (e.mergedForm expand).Obeys .discreet Expr.visible)
    (hbinders : ∀ name ∈ Block.bindersOfAll blocks, name ∈ Expr.visible) :
    ∀ e ∈ Block.codeOfAll loops blocks, (e.mergedForm expand).Suits limit
      (Value.IsShown (Block.allFlat blocks) inside) :=
  match blocks with
  | [] => List.forall_mem_nil _
  | block :: rest => by
      rw [Block.authoredOfAll, List.forall_mem_append] at hauthored
      rw [Block.bindersOfAll, List.forall_mem_append] at hbinders
      rw [Block.allPlaced, Bool.and_eq_true] at hplaced
      have hfirst := Block.suits_mergedForm limit loops block hplaced.1 hauthored.1 hbinders.1
      have hrest := Block.suits_mergedAll limit (loops + block.loopCount) rest hplaced.2
        hauthored.2 hbinders.2
      refine List.forall_mem_cons.mpr ⟨hfirst.mono fun _ hshown => hshown.around ?_,
        fun e he => (hrest e he).mono fun _ hshown => hshown.around ?_⟩
      · exact fun hflat => (Bool.and_eq_true_iff.mp hflat).1
      · exact fun hflat => (Bool.and_eq_true_iff.mp hflat).2
termination_by structural blocks

theorem Block.suits_mergedBranches {expand : String → Except TemplateIssue Expr} (limit : Nat)
    (loops : Nat) {inside : Bool} (branches : List (Expr × Block))
    (hplaced : Block.allBodiesPlaced inside branches = true)
    (hauthored : ∀ e ∈ Block.authoredOfBranches branches,
      (e.mergedForm expand).Obeys .discreet Expr.visible)
    (hbinders : ∀ name ∈ Block.bindersOfBranches branches, name ∈ Expr.visible) :
    ∀ branch ∈ Block.codeOfBranches loops branches,
      (branch.1.mergedForm expand).Obeys .discreet Expr.visible ∧
        (branch.2.mergedForm expand).Suits limit
          (Value.IsShown (Block.allBodiesFlat branches) inside) :=
  match branches with
  | [] => List.forall_mem_nil _
  | (test, body) :: rest => by
      rw [Block.authoredOfBranches, List.cons_append, List.forall_mem_cons,
        List.forall_mem_append] at hauthored
      rw [Block.bindersOfBranches, List.forall_mem_append] at hbinders
      rw [Block.allBodiesPlaced, Bool.and_eq_true] at hplaced
      have hfirst := Block.suits_mergedForm limit loops body hplaced.1 hauthored.2.1 hbinders.1
      have hrest := Block.suits_mergedBranches limit (loops + body.loopCount) rest hplaced.2
        hauthored.2.2 hbinders.2
      refine List.forall_mem_cons.mpr
        ⟨⟨hauthored.1, hfirst.mono fun _ hshown => hshown.around ?_⟩, fun branch hbranch =>
          ⟨(hrest branch hbranch).1,
            (hrest branch hbranch).2.mono fun _ hshown => hshown.around ?_⟩⟩
      · exact fun hflat => (Bool.and_eq_true_iff.mp hflat).1
      · exact fun hflat => (Bool.and_eq_true_iff.mp hflat).2
termination_by structural branches

end

end SceneQuiz
