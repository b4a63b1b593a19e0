import SceneQuiz.Proofs.Template.Authored
/-!
The normal form of the code of blocks.  Merging and folding reach only the
parts of what blocks emit: the author's expressions and the code of inner
blocks.  The exceptions are concatenations and lists tagged `%root`, which take
in the code of the blocks directly inside them.  All that the author wrote stands in
the code of the block, so the templates that an expression of the author inlines are
among those of the whole template.
-/

namespace SceneQuiz

namespace Emit

open SceneQuiz.Expr

/-- A change that reaches only the parts of the code of blocks, concatenations
and tagged lists aside. -/
structure Partwise (change : Expr → Expr) : Prop where
  number : change (.number "1") = .number "1"
  text : ∀ text, change (.str text) = .str text
  bool : ∀ truth, change (.bool truth) = .bool truth
  ident : ∀ name, change (.ident name) = .ident name
  call : ∀ name ∈ called, name ≠ "sconcat" → ∀ args,
    change (.call name args) = .call name (args.map change)
  index : ∀ target indices,
    change (.index target indices) = .index (change target) (indices.map change)
  list : ∀ {items}, (∀ e ∈ items.head?, change e ≠ .str rootTag) →
    change (.list items) = .list (items.map change)
  tag : change (.list [.str rootTag]) = .list [.str rootTag]
  group : ∀ items, change (.group items) = .group (items.map change)
  binary : ∀ op left right,
    change (.binary op left right) = .binary op (change left) (change right)
  cond : ∀ branches otherwise, change (.cond branches otherwise) =
    .cond (branches.map fun branch => (change branch.1, change branch.2)) (otherwise.map change)
  forRange : ∀ var first step last body, change (.forRange var first step last body) =
    .forRange var (change first) (step.map change) (change last) (change body)

theorem partwise_mergedForm (expand : String → Except TemplateIssue Expr) :
    Partwise (mergedForm expand) where
  number := rfl
  text _ := rfl
  bool _ := rfl
  ident _ := rfl
  call name hname hsconcat args := by
    have hcastext : name ≠ "castext" := by
      rintro rfl
      revert hname
      decide
    rw [mergedForm_eq expand fun _ heq => hcastext (Expr.call.inj heq).1]
    simp [mapParts, Concat.settle, hsconcat]
  index _ _ := mergedForm_eq expand (by simp)
  list {items} hitems := by
    rw [mergedForm_eq expand (e := .list items) (by simp)]
    simp only [mapParts, Concat.settle, Concat.tagged]
    split
    · next tag others heq =>
        obtain ⟨first, rest, rfl, hfirst, -⟩ := List.map_eq_cons_iff.mp heq
        have htag : tag ≠ rootTag := by
          rintro rfl
          exact hitems first rfl hfirst
        rw [if_neg htag]
    · rfl
  tag := rfl
  group _ := mergedForm_eq expand (by simp)
  binary _ _ _ := mergedForm_eq expand (by simp)
  cond _ _ := mergedForm_eq expand (by simp)
  forRange _ _ _ _ _ := mergedForm_eq expand (by simp)

theorem partwise_foldConcats (limit : Nat) : Partwise (foldConcats limit) where
  number := rfl
  text _ := rfl
  bool _ := rfl
  ident _ := rfl
  call name _ hsconcat args := by
    rw [foldConcats_eq]
    simp [mapParts, Concat.shortened, Concat.foldCall, hsconcat]
  index _ _ := foldConcats_eq limit _
  list _ := foldConcats_eq limit _
  tag := rfl
  group _ := foldConcats_eq limit _
  binary _ _ _ := foldConcats_eq limit _
  cond _ _ := foldConcats_eq limit _
  forRange _ _ _ _ _ := foldConcats_eq limit _

namespace Partwise

variable {change : Expr → Expr} (h : Partwise change)

include h

theorem assign (name : String) (value : Expr) :
    change (Expr.assign name value) = Expr.assign name (change value) := by
  rw [Expr.assign, h.binary, h.ident, Expr.assign]

theorem keepAll (names : List String) : (Emit.keepAll names).map change = Emit.keepAll names := by
  simp [Emit.keepAll, Expr.keep, h.assign, h.ident, Function.comp_def]

/-- A list of locals is no tagged list. -/
theorem block {locals : List Expr} (hlocals : ∀ e ∈ locals.head?, e.isLocal = true)
    (body : List Expr) :
    change (Expr.block locals body) = Expr.block (locals.map change) (body.map change) := by
  have hlist : change (.list locals) = .list (locals.map change) := by
    apply h.list
    intro e he
    rcases exists_of_isLocal (hlocals e he) with ⟨name, rfl⟩ | ⟨name, right, rfl⟩
    · simp [h.ident]
    · simp [h.binary]
  rw [Expr.block, h.call _ (by decide) (by decide), List.map_cons, hlist, Expr.block]

theorem localized (names : List String) (body : Expr) :
    change (Emit.localized names body) = Emit.localized names (change body) := by
  cases names with
  | nil => rfl
  | cons name rest =>
      simp only [Emit.localized, List.isEmpty_cons, Bool.false_eq_true, if_false]
      rw [h.block (by simp [Emit.keepAll, Expr.keep, Expr.assign, isLocal]), h.keepAll,
        List.map_singleton]

theorem shown (injection : Injection) (e : Expr) :
    change (Emit.shown injection e) = Emit.shown injection (change e) := by
  unfold Emit.shown
  split
  · rw [h.call _ (by decide) (by decide)]
    simp [h.text]
  · rw [h.call _ (by decide) (by decide)]
    rfl

theorem injection (injection : Injection) :
    change (Emit.injection injection) =
      Emit.injection { injection with expr := change injection.expr } := by
  obtain ⟨mode, expr, key, flag, mathMode⟩ := injection
  have hshown := h.shown ⟨mode, expr, key, flag, mathMode⟩
  have hvalue : change (unflagged ⟨mode, expr, key, flag, mathMode⟩) =
      unflagged ⟨mode, change expr, key, flag, mathMode⟩ := by
    cases key with
    | some key =>
        simp only [unflagged, h.group, List.map_cons, List.map_nil, hshown, h.ident]
        rfl
    | none => exact hshown expr
  rw [injection_eq, injection_eq]
  cases flag with
  | none => exact hvalue
  | some truth =>
      dsimp only [Expr.flagged]
      rw [h.block (by simp [Expr.assign, isLocal])]
      simp only [List.map_cons, List.map_nil, h.assign, h.ident, h.bool, hvalue]

theorem definitions (pairs : List (String × Expr)) :
    change (Emit.definitions pairs) =
      Emit.definitions (pairs.map fun pair => (pair.1, change pair.2)) := by
  cases pairs with
  | nil => exact h.text ""
  | cons pair rest =>
      simp [Emit.definitions, h.group, h.assign, h.text, Function.comp_def]

theorem conditional (branches : List (Expr × Expr)) (otherwise : Expr) :
    change (Emit.conditional branches otherwise) =
      Emit.conditional (branches.map fun branch => (change branch.1, change branch.2))
        (change otherwise) := by
  cases branches with
  | nil => rfl
  | cons branch rest => simp [Emit.conditional, h.cond]

theorem loopLocals (n : Nat) (iterators : List (String × Expr)) :
    (Emit.loopLocals n iterators).map change =
      Emit.loopLocals n (iterators.map fun iterator => (iterator.1, change iterator.2)) := by
  have hempty : change (.list []) = .list [] := h.list nofun
  have hsources : (loopSources n iterators).map change =
      loopSources n (iterators.map fun iterator => (iterator.1, change iterator.2)) := by
    apply List.ext_getElem <;> simp [loopSources, h.assign]
  simp [Emit.loopLocals, hsources, hempty, h.assign, h.ident]

theorem loopListed (n count : Nat) :
    (Emit.loopListed n count).map change = Emit.loopListed n count := by
  simp [Emit.loopListed, Expr.ifThen, h.assign, h.cond, h.ident,
    h.call "setp" (by decide) (by decide), h.call "listify" (by decide) (by decide)]

theorem loopCount (n count : Nat) :
    change (Emit.loopCount n count) = Emit.loopCount n count := by
  simp [Emit.loopCount, h.ident, h.call "min" (by decide) (by decide),
    h.call "length" (by decide) (by decide)]

theorem loopMembers (n : Nat) (iterators : List (String × Expr)) :
    (Emit.loopMembers n iterators).map change =
      Emit.loopMembers n (iterators.map fun iterator => (iterator.1, change iterator.2)) := by
  apply List.ext_getElem <;> simp [Emit.loopMembers, h.assign, h.index, h.ident]

theorem loopRound (n : Nat) (iterators : List (String × Expr)) (body : Expr) :
    change (Emit.loopRound n iterators body) =
      Emit.loopRound n (iterators.map fun iterator => (iterator.1, change iterator.2))
        (change body) := by
  simp [Emit.loopRound, Emit.loopCollect, h.group, h.loopMembers, h.assign, h.ident,
    h.call "endcons" (by decide) (by decide)]

theorem loopResult (n : Nat) (isFlat : Bool) :
    change (Emit.loopResult n isFlat) = Emit.loopResult n isFlat := by
  cases isFlat with
  | true => simp [Emit.loopResult, h.call "simplode" (by decide) (by decide), h.ident]
  | false => simp [Emit.loopResult, h.call "append" (by decide) (by decide), h.ident, h.tag]

theorem loop (n : Nat) (iterators : List (String × Expr)) (isFlat : Bool) (body : Expr) :
    change (Emit.loop n iterators isFlat body) =
      Emit.loop n (iterators.map fun iterator => (iterator.1, change iterator.2)) isFlat
        (change body) := by
  have hone : change (.int 1) = .int 1 := h.number
  rw [loop_eq, loop_eq, h.block, h.loopLocals]
  · simp [loopRounds, h.loopListed, h.forRange, hone, h.loopCount, h.loopRound, h.loopResult]
  · cases iterators <;> simp [Emit.loopLocals, loopSources, Expr.assign, isLocal]

end Partwise

end Emit

namespace Concat

open SceneQuiz.Expr

theorem rootParts_other {e : Expr} (he : ∀ items, e ≠ .list (.str rootTag :: items)) :
    e.rootParts = [e] := by
  unfold rootParts
  split
  · next tag rest =>
      have htag : tag ≠ rootTag := fun heq => he rest (by rw [heq])
      rw [if_neg htag]
  · rfl

theorem rootParts_root (items : List Expr) :
    (Expr.list (.str rootTag :: items)).rootParts = rootPartsOfAll items := rfl

/-- Every part that a tagged list is taken apart into stays whole. -/
theorem rootParts_of_mem {e part : Expr} (h : part ∈ e.rootParts) : part.rootParts = [part] := by
  induction e using Expr.ofParts with
  | hstep e ih =>
    by_cases hroot : ∃ items, e = .list (.str rootTag :: items)
    · obtain ⟨items, rfl⟩ := hroot
      rw [rootParts_root, rootPartsOfAll_eq] at h
      obtain ⟨item, hitem, hpart⟩ := List.mem_flatMap.mp h
      exact ih item (List.mem_cons_of_mem _ hitem) hpart
    · have hwhole := rootParts_other fun items heq => hroot ⟨items, heq⟩
      rw [hwhole, List.mem_singleton] at h
      rw [h, hwhole]

/-- What a tagged list holds in normal form, but for the length of
concatenations. -/
def rootItems (items : List Expr) : List Expr := mergeTexts (rootPartsOfAll items)

theorem rootPartsOfAll_rootItems (items : List Expr) :
    rootPartsOfAll (rootItems items) = rootItems items := by
  have hwhole : ∀ part ∈ rootItems items, part.rootParts = [part] := by
    intro part hpart
    rcases mem_mergeTexts hpart with hmem | ⟨text, rfl⟩
    · exact rootParts_of_mem (e := .list (.str rootTag :: items)) hmem
    · rfl
  generalize rootItems items = parts at hwhole
  rw [rootPartsOfAll_eq]
  induction parts with
  | nil => rfl
  | cons part rest ih =>
      rw [List.forall_mem_cons] at hwhole
      rw [List.flatMap_cons, hwhole.1, ih hwhole.2]
      rfl

end Concat

namespace Emit

variable (expand : String → Except TemplateIssue Expr)

/-- A container takes in the code of the blocks directly inside it. -/
theorem mergedForm_container (blocks : List Block) (isFlat : Bool) (parts : List Expr) :
    (container blocks isFlat parts).mergedForm expand =
      localized (definedNames blocks)
        (if isFlat then Concat.concatenation (parts.map (Expr.mergedForm expand))
          else .list (.str rootTag :: Concat.rootItems (parts.map (Expr.mergedForm expand)))) := by
  rw [container, (partwise_mergedForm expand).localized]
  cases isFlat with
  | true => exact congrArg _ (Expr.mergedForm_sconcat parts)
  | false =>
      apply congrArg
      exact Expr.mergedForm_eq expand (e := .list (.str rootTag :: parts)) nofun

end Emit

namespace Expr

theorem mem_parts_child {child e : Expr} (h : child ∈ e.children) : child ∈ e.parts :=
  mem_parts_of_child h (mem_parts_self child)

theorem mem_parts_assign (name : String) (value : Expr) : value ∈ (Expr.assign name value).parts :=
  mem_parts_child (by simp [Expr.assign, children])

theorem mem_parts_block {locals body : List Expr} {part : Expr} (h : part ∈ locals ∨ part ∈ body) :
    part ∈ (Expr.block locals body).parts := by
  rcases h with hlocal | hbody
  · exact mem_parts_of_child (List.mem_cons_self ..) (mem_parts_child hlocal)
  · exact mem_parts_child (List.mem_cons_of_mem _ hbody)

end Expr

namespace Emit

open SceneQuiz.Expr

theorem mem_parts_localized (names : List String) (body : Expr) :
    body ∈ (localized names body).parts := by
  unfold localized
  split
  · exact mem_parts_self body
  · exact mem_parts_block (.inr List.mem_cons_self)

theorem mem_parts_injection (injection : Injection) :
    injection.expr ∈ (Emit.injection injection).parts := by
  have hshown : injection.expr ∈ (shown injection injection.expr).parts := by
    unfold shown
    split <;> exact mem_parts_child List.mem_cons_self
  have hvalue : injection.expr ∈ (unflagged injection).parts := by
    unfold unflagged
    split
    · exact mem_parts_child List.mem_cons_self
    · exact hshown
  rw [injection_eq]
  split
  · exact hvalue
  · apply mem_parts_trans (mem_parts_trans hvalue (mem_parts_assign "%_r" _))
    exact mem_parts_block (.inr (List.mem_cons_of_mem _ List.mem_cons_self))

theorem mem_parts_definitions {pairs : List (String × Expr)} {pair : String × Expr}
    (h : pair ∈ pairs) : pair.2 ∈ (definitions pairs).parts := by
  unfold definitions
  rw [if_neg (by simpa using List.ne_nil_of_mem h)]
  apply mem_parts_trans (mem_parts_assign pair.1 pair.2)
  exact mem_parts_child (List.mem_append_left _ (List.mem_map_of_mem h))

theorem mem_parts_container (blocks : List Block) (isFlat : Bool) {parts : List Expr} {e : Expr}
    (h : e ∈ parts) : e ∈ (container blocks isFlat parts).parts := by
  apply mem_parts_trans _ (mem_parts_localized _ _)
  split
  · exact mem_parts_child h
  · exact mem_parts_child (List.mem_cons_of_mem _ h)

theorem mem_parts_conditional {branches : List (Expr × Expr)} {otherwise e : Expr}
    (h : (∃ branch ∈ branches, e = branch.1 ∨ e = branch.2) ∨ e = otherwise) :
    e ∈ (conditional branches otherwise).parts := by
  unfold conditional
  split
  · next hempty =>
      rw [List.isEmpty_iff.mp hempty] at h
      rcases h with ⟨_, hbranch, -⟩ | rfl
      · cases hbranch
      · exact mem_parts_self e
  · apply mem_parts_child
    rcases h with ⟨branch, hbranch, heq⟩ | rfl
    · apply List.mem_append_left
      exact List.mem_flatMap.mpr ⟨branch, hbranch, by simpa using heq⟩
    · simp [children]

theorem mem_parts_loop (n : Nat) (iterators : List (String × Expr)) (isFlat : Bool) (body : Expr) :
    body ∈ (loop n iterators isFlat body).parts ∧
      ∀ iterator ∈ iterators, iterator.2 ∈ (loop n iterators isFlat body).parts := by
  rw [loop_eq]
  constructor
  · have hround : body ∈ (loopRound n iterators body).parts := by
      apply mem_parts_of_child (List.mem_append_right _ List.mem_cons_self)
      apply mem_parts_trans _ (mem_parts_assign _ _)
      exact mem_parts_child List.mem_cons_self
    apply mem_parts_trans _ (mem_parts_block (.inr (List.mem_append_right _ List.mem_cons_self)))
    exact mem_parts_of_child (by simp [loopRounds, children]) hround
  · intro iterator hmem
    obtain ⟨i, hi, rfl⟩ := List.mem_iff_getElem.mp hmem
    apply mem_parts_trans (mem_parts_assign (loopList n (i + 1)) iterators[i].2)
    apply mem_parts_block
    left
    apply List.mem_append_left
    apply List.mem_append_left
    exact List.mem_mapIdx.mpr ⟨i, hi, rfl⟩

end Emit

mutual

theorem Block.mem_parts_codeAfter (loops : Nat) {e : Expr} (block : Block)
    (he : e ∈ block.authored) : e ∈ (block.codeAfter loops).parts :=
  match block with
  | .container items => by
      obtain ⟨part, hpart, hmem⟩ := Block.mem_parts_codeOfAll loops items he
      exact Expr.mem_parts_trans hmem (Emit.mem_parts_container items _ hpart)
  | .text _ | .index => nomatch he
  | .inject injection => by
      rw [Block.authored, List.mem_singleton] at he
      rw [he]
      exact Emit.mem_parts_injection injection
  | .define pairs => by
      obtain ⟨pair, hpair, rfl⟩ := List.mem_map.mp he
      exact Emit.mem_parts_definitions hpair
  | .cond branches otherwise => by
      unfold Block.authored at he
      unfold Block.codeAfter
      rcases List.mem_append.mp he with hbranches | hotherwise
      · obtain ⟨branch, hbranch, part, hpart, hmem⟩ :=
          Block.mem_parts_codeOfBranches loops branches hbranches
        exact Expr.mem_parts_trans hmem
          (Emit.mem_parts_conditional (.inl ⟨branch, hbranch, hpart⟩))
      · cases otherwise with
        | some body =>
            exact Expr.mem_parts_trans (Block.mem_parts_codeAfter _ body hotherwise)
              (Emit.mem_parts_conditional (.inr rfl))
        | none => cases hotherwise
  | .foreach iterators body => by
      obtain ⟨hbody, hsources⟩ :=
        Emit.mem_parts_loop (loops + 1) iterators body.isFlat (body.codeAfter (loops + 1))
      rcases List.mem_append.mp he with hsource | hinner
      · obtain ⟨iterator, hiterator, rfl⟩ := List.mem_map.mp hsource
        exact hsources iterator hiterator
      · exact Expr.mem_parts_trans (Block.mem_parts_codeAfter _ body hinner) hbody
  | .indexing style start body => by
      rcases List.mem_cons.mp he with rfl | hinner
      · exact Expr.mem_parts_child (by simp [Block.codeAfter, Expr.children])
      · exact Expr.mem_parts_of_child (by simp [Block.codeAfter, Expr.children])
          (Block.mem_parts_codeAfter loops body hinner)
  | .reveal input value body => by
      rcases List.mem_cons.mp he with rfl | hinner
      · exact Expr.mem_parts_child (by simp [Block.codeAfter, Expr.children])
      · exact Expr.mem_parts_of_child (by simp [Block.codeAfter, Expr.children])
          (Block.mem_parts_codeAfter loops body hinner)
  | .lang codes body => by
      exact Expr.mem_parts_of_child (by simp [Block.codeAfter, Expr.children])
        (Block.mem_parts_codeAfter loops body he)
termination_by structural block

theorem Block.mem_parts_codeOfAll (loops : Nat) {e : Expr} (blocks : List Block)
    (he : e ∈ Block.authoredOfAll blocks) :
    ∃ part ∈ Block.codeOfAll loops blocks, e ∈ part.parts :=
  match blocks with
  | [] => nomatch he
  | block :: rest => by
      rcases List.mem_append.mp he with hfirst | hrest
      · exact ⟨_, List.mem_cons_self, Block.mem_parts_codeAfter loops block hfirst⟩
      · obtain ⟨part, hpart, hmem⟩ := Block.mem_parts_codeOfAll _ rest hrest
        exact ⟨part, List.mem_cons_of_mem _ hpart, hmem⟩
termination_by structural blocks

theorem Block.mem_parts_codeOfBranches (loops : Nat) {e : Expr}
    (branches : List (Expr × Block)) (he : e ∈ Block.authoredOfBranches branches) :
    ∃ branch ∈ Block.codeOfBranches loops branches,
      ∃ part, (part = branch.1 ∨ part = branch.2) ∧ e ∈ part.parts :=
  match branches with
  | [] => nomatch he
  | (test, body) :: rest => by
      rw [Block.authoredOfBranches, List.cons_append, List.mem_cons, List.mem_append] at he
      rcases he with rfl | hbody | hrest
      · exact ⟨_, List.mem_cons_self, _, .inl rfl, Expr.mem_parts_self _⟩
      · exact ⟨_, List.mem_cons_self, _, .inr rfl, Block.mem_parts_codeAfter loops body hbody⟩
      · obtain ⟨branch, hbranch, hmem⟩ := Block.mem_parts_codeOfBranches _ rest hrest
        exact ⟨branch, List.mem_cons_of_mem _ hbranch, hmem⟩
termination_by structural branches

end

end SceneQuiz
