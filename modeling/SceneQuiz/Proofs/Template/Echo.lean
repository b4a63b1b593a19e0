import SceneQuiz.Proofs.Template.Contribution
import SceneQuiz.Proofs.Template.LoopValue
import SceneQuiz.Proofs.Template.SteadyCode
/-!
Code that is rendered like its normal form, by the forms that blocks emit.  The
normal form of a tagged list takes other lists apart, so code is compared twice:
as a whole, and as an item of a tagged list around it.
-/

namespace SceneQuiz

namespace Emit

open SceneQuiz.Expr

/-- One change that reaches only the parts after another. -/
theorem Partwise.comp {first second : Expr → Expr} (hfirst : Partwise first)
    (hsecond : Partwise second) : Partwise fun e => second (first e) where
  number := by rw [hfirst.number, hsecond.number]
  text text := by rw [hfirst.text, hsecond.text]
  bool truth := by rw [hfirst.bool, hsecond.bool]
  ident name := by rw [hfirst.ident, hsecond.ident]
  call name hname hsconcat args := by
    rw [hfirst.call name hname hsconcat, hsecond.call name hname hsconcat, List.map_map]
    rfl
  index target indices := by
    rw [hfirst.index, hsecond.index, List.map_map]
    rfl
  list {items} hitems := by
    have hhead : ∀ e ∈ items.head?, first e ≠ .str rootTag := fun e he heq =>
      hitems e he (by rw [heq, hsecond.text])
    rw [hfirst.list hhead, hsecond.list, List.map_map]
    · rfl
    · intro e he
      rw [List.head?_map] at he
      obtain ⟨item, hitem, rfl⟩ := Option.map_eq_some_iff.mp he
      exact hitems item hitem
  tag := by rw [hfirst.tag, hsecond.tag]
  group items := by
    rw [hfirst.group, hsecond.group, List.map_map]
    rfl
  binary op left right := by rw [hfirst.binary, hsecond.binary]
  cond branches otherwise := by
    rw [hfirst.cond, hsecond.cond, List.map_map, Option.map_map]
    rfl
  forRange var start step last body := by
    rw [hfirst.forRange, hsecond.forRange, Option.map_map]
    rfl

theorem partwise_normalForm (expand : String → Except TemplateIssue Expr) (limit : Nat) :
    Partwise (normalForm expand limit) :=
  (partwise_mergedForm expand).comp (partwise_foldConcats limit)

end Emit

namespace Expr

open Concat Eval Value

variable {expand : String → Except TemplateIssue Expr} {limit : Nat} {loose : Set String}

/-- Code whose normal form is rendered like it, as a whole and as an item of a
tagged list. -/
structure Echoed (expand : String → Except TemplateIssue Expr) (limit : Nat) (loose : Set String)
    (e : Expr) : Prop where
  whole : e.Mirrors CollectsAs loose RendersAs (e.normalForm expand limit)
  parts : ∀ fuel, Contributes loose Unfolds (e.evalWithin fuel)
    ((e.mergedForm expand).rootParts.map (foldConcats limit))

/-- What is not taken apart. -/
theorem echoed_of_whole {e : Expr}
    (hparts : (e.mergedForm expand).rootParts = [e.mergedForm expand])
    (h : e.Mirrors CollectsAs loose RendersAs (e.normalForm expand limit)) :
    e.Echoed expand limit loose := by
  refine ⟨h, fun fuel => ?_⟩
  rw [hparts]
  exact .single h

theorem Steady.echoed {e : Expr} (h : e.Steady loose) : e.Echoed expand limit loose :=
  echoed_of_whole h.rootParts (h.mirrors.weaken .refl)

/-- A tagged list. -/
theorem echoed_root {items : List Expr} (h : ∀ e ∈ items, e.Echoed expand limit loose) :
    (Expr.list (.str rootTag :: items)).Echoed expand limit loose := by
  have hmerged : (Expr.list (.str rootTag :: items)).mergedForm expand =
      .list (.str rootTag :: rootItems (items.map (mergedForm expand))) :=
    mergedForm_eq expand nofun
  have hitems : ∀ fuel, Contributes loose JoinAs (Eval.all (evalWithin fuel) items)
      ((rootItems (items.map (mergedForm expand))).map (foldConcats limit)) := by
    intro fuel
    rw [rootItems, ← mergeTexts_map foldConcats_str fun _ _ => eq_str_of_foldConcats,
      rootPartsOfAll_eq, List.map_flatMap, List.flatMap_map]
    exact (Contributes.all fun e he => (h e he).parts fuel).merge
  constructor
  · rw [normalForm, hmerged, foldConcats_eq]
    apply mirrors_list _ fun fuel => mirrors_all_cons (mirrors_str rootTag) (hitems fuel).mirrors
    rintro _ _ ⟨_, rest, _, more, rfl, rfl, ⟨rfl, rfl⟩, hjoin⟩
    exact hjoin.root
  · intro fuel
    rw [hmerged, rootParts_root, rootPartsOfAll_rootItems]
    exact .tagged hitems

end Expr

namespace Emit

open Concat SceneQuiz.Expr Eval Value

variable {expand : String → Except TemplateIssue Expr} {limit loops : Nat} {loose : Set String}

/-- Locals that keep their outer values at first. -/
theorem echoed_localized {names : List String} (hnames : ∀ name ∈ names, name ∉ loose) {e : Expr}
    (h : e.Echoed expand limit loose) : (localized names e).Echoed expand limit loose := by
  cases names with
  | nil => exact h
  | cons name rest =>
      have hkept : ∀ e ∈ keepAll (name :: rest), e.Steady loose := by
        refine List.forall_mem_map.mpr fun kept hkept => ?_
        have hread : (Expr.ident kept).Steady loose :=
          .leaf ⟨⟨⟨rfl, nofun, nofun⟩, rfl⟩, hnames kept hkept⟩ rfl
        exact .node ⟨⟨⟨rfl, nofun, nofun⟩, rfl⟩, trivial⟩
          ((forall_children_two rfl).mpr ⟨hread, hread⟩)
      have hlocals : ∀ e ∈ keepAll (name :: rest), e.isLocal = true :=
        List.forall_mem_map.mpr fun _ _ => rfl
      apply echoed_of_whole
      · rw [(partwise_mergedForm expand).localized]
        rfl
      · have hblock : localized (name :: rest) e = .block (keepAll (name :: rest)) [e] := rfl
        rw [hblock, (partwise_normalForm expand limit).block fun e he =>
          hlocals e (List.mem_of_mem_head? he)]
        apply mirrors_block (Steady.sameLocals hkept hlocals) (Set.Subset.refl _)
          (fun _ hname => .inl hname) .refl
        exact fun fuel => (mirrors_sequence .nil h.whole fuel _ _ :)

theorem echoed_conditional {branches : List (Expr × Expr)} {otherwise : Expr}
    (h : ∀ branch ∈ branches, branch.1.Steady loose ∧ branch.2.Echoed expand limit loose)
    (hotherwise : otherwise.Echoed expand limit loose) :
    (conditional branches otherwise).Echoed expand limit loose := by
  cases branches with
  | nil => exact hotherwise
  | cons branch rest =>
      apply echoed_of_whole
      · rw [(partwise_mergedForm expand).conditional]
        rfl
      · rw [(partwise_normalForm expand limit).conditional]
        apply mirrors_cond _ hotherwise.whole
        apply List.forall₂_map_right_iff.mpr
        exact List.forall₂_same.mpr fun branch hbranch =>
          ⟨(h branch hbranch).1.mirrors, (h branch hbranch).2.whole⟩

/-- A marker: a list that is never taken apart. -/
theorem echoed_marker {tag : String} (htag : tag ≠ rootTag) {items : List Expr}
    {agrees : List Value → List Value → Prop}
    (h : ∀ fuel, Eval.Mirrors CollectsAs loose agrees (Eval.all (evalWithin fuel) items)
      fun fuel => Eval.all (evalWithin fuel) (items.map (normalForm expand limit)))
    (hagree : ∀ values found, agrees values found →
      (Value.list (.str tag :: values)).RendersAs (.list (.str tag :: found))) :
    (Expr.list (.str tag :: items)).Echoed expand limit loose := by
  have hhead : ∀ change, Partwise change → ∀ e ∈ (Expr.str tag :: items).head?,
      change e ≠ .str rootTag := by
    rintro change hchange e heq
    cases heq
    rw [hchange.text]
    exact fun hroot => htag (Expr.str.inj hroot)
  have hmerged := partwise_mergedForm expand
  have hform := partwise_normalForm expand limit
  apply echoed_of_whole
  · apply rootParts_other
    intro others heq
    rw [hmerged.list (hhead _ hmerged)] at heq
    cases heq
    exact htag rfl
  · rw [hform.list (hhead _ hform)]
    apply mirrors_list _ fun fuel => mirrors_all_cons (mirrors_str tag) (h fuel)
    rintro _ _ ⟨_, rest, _, more, rfl, rfl, ⟨rfl, rfl⟩, hvalues⟩
    exact hagree rest more hvalues

variable {n : Nat} {body other : Expr}

/-- The output holds items that are rendered alike. -/
theorem mirrors_loopOutput (n : Nat) :
    (Expr.ident (loopOutput n)).Mirrors CollectsAs loose CollectsAs (.ident (loopOutput n)) := by
  apply Eval.Mirrors.of_step
  intro fuel
  apply (Eval.Mirrors.read (loopOutput n)).mono
  rintro value found (rfl | hcollects)
  · exact .refl value
  · exact hcollects

/-- What the body gives is collected at the end of the output. -/
theorem mirrors_loopCollect (houtput : loopOutput n ∈ loose)
    (hbody : body.Mirrors CollectsAs loose RendersAs other) :
    (loopCollect n body).Mirrors CollectsAs loose (fun _ _ => True) (loopCollect n other) := by
  have hvalue : (Expr.call "endcons" [body, .ident (loopOutput n)]).Mirrors CollectsAs loose
      CollectsAs (.call "endcons" [other, .ident (loopOutput n)]) := by
    apply Eval.Mirrors.of_step
    intro fuel
    apply (mirrors_all_cons hbody
      (mirrors_all_cons (mirrors_loopOutput n) (mirrors_all_nil fuel))).bind
    rintro _ _ ⟨value, _, found, _, rfl, rfl, hvalues,
      output, _, collected, _, rfl, rfl, hcollects, rfl, rfl⟩
    apply Eval.Mirrors.applied .endcons
    intro result hresult
    cases output with
    | list items =>
        cases hresult
        obtain ⟨others, rfl, hjoin⟩ := hcollects items rfl
        refine ⟨.list (others ++ [found]), rfl, ?_⟩
        rintro _ ⟨⟩
        exact ⟨_, rfl, hjoin.append (.cons hvalues (.refl []))⟩
    | _ => cases hresult
  apply Eval.Mirrors.of_step
  intro fuel
  apply (hvalue fuel).bind
  intro value found hcollects
  exact (Eval.Mirrors.assigned houtput hcollects).bind fun _ _ _ => .value trivial

/-- What was collected is rendered item by item. -/
theorem mirrors_loopResult (n : Nat) :
    (loopResult n false).Mirrors CollectsAs loose RendersAs (loopResult n false) := by
  have htag : (Expr.list [.str rootTag]).Mirrors CollectsAs loose
      (fun value found => value = .list [.str rootTag] ∧ found = .list [.str rootTag])
      (.list [.str rootTag]) := by
    apply mirrors_list _ fun fuel => mirrors_all_cons (mirrors_str rootTag) (mirrors_all_nil fuel)
    rintro _ _ ⟨_, _, _, _, rfl, rfl, ⟨rfl, rfl⟩, rfl, rfl⟩
    exact ⟨rfl, rfl⟩
  apply Eval.Mirrors.of_step
  intro fuel
  apply (mirrors_all_cons htag
    (mirrors_all_cons (mirrors_loopOutput n) (mirrors_all_nil fuel))).bind
  rintro _ _ ⟨_, _, _, _, rfl, rfl, ⟨rfl, rfl⟩,
    output, _, collected, _, rfl, rfl, hcollects, rfl, rfl⟩
  apply Eval.Mirrors.applied .append
  intro result hresult
  cases output with
  | list items =>
      obtain ⟨others, rfl, hjoin⟩ := hcollects items rfl
      have hfound : .list (.str rootTag :: [items].flatten) = result := Except.ok.inj hresult
      refine ⟨.list (.str rootTag :: [others].flatten), rfl, ?_⟩
      rw [← hfound, List.flatten_singleton, List.flatten_singleton]
      exact hjoin.root
  | _ => cases hresult

theorem isLocal_loopLocals (n : Nat) (iterators : List (String × Expr)) :
    ∀ e ∈ loopLocals n iterators, e.isLocal = true := by
  simp only [loopLocals, List.forall_mem_append, List.forall_mem_map, List.forall_mem_cons]
  refine ⟨⟨?_, rfl, rfl, List.forall_mem_nil _⟩, fun _ _ => rfl⟩
  intro e he
  obtain ⟨i, hi, rfl⟩ := List.mem_mapIdx.mp he
  rfl

/-- The rounds of a loop, inside of which its output may differ. -/
theorem mirrors_loopRounds (hloose : loose ⊆ earlierOutputs loops) (houtput : loopOutput n ∈ loose)
    {iterators : List (String × Expr)}
    (h : ∀ iterator ∈ iterators, isHidden iterator.1 = false)
    (hbody : body.Mirrors CollectsAs loose RendersAs (body.normalForm expand limit)) :
    (loopRounds n iterators body).Mirrors CollectsAs loose (fun _ _ => True)
      ((loopRounds n iterators body).normalForm expand limit) := by
  have hform := partwise_normalForm expand limit
  have hindex : loopIndex n ∉ loose := fun hmem => loopIndex_notMem_earlierOutputs n (hloose hmem)
  have hlist : ∀ i, loopList n i ∉ loose := fun i hmem =>
    loopList_notMem_earlierOutputs n i (hloose hmem)
  have hone : (Expr.int 1).Steady loose := .leaf (admits_steady hloose).literal.1 rfl
  have hcount : (loopCount n iterators.length).Steady loose :=
    (admits_steady hloose).composes.loopCount hlist _
  have hmembers : ∀ e ∈ loopMembers n iterators, e.Steady loose := by
    apply (admits_steady hloose).composes.loopMembers hindex hlist
    exact fun iterator hmem hname =>
      notMem_earlierOutputs_of_visible (h iterator hmem) (hloose hname)
  have hround : (loopRound n iterators body).Mirrors CollectsAs loose (fun _ _ => True)
      ((loopRound n iterators body).normalForm expand limit) := by
    rw [hform.loopRound, loopRound, loopRound, ← hform.loopMembers]
    exact mirrors_group (Steady.mirrors_each hmembers) (mirrors_loopCollect houtput hbody)
  rw [loopRounds, hform.forRange]
  exact mirrors_forRange hindex hone.mirrors hcount.mirrors hround

/-- A loop that is not flat.  Inside of it its own output may differ. -/
theorem echoed_loop (hloose : loose ⊆ earlierOutputs loops) {iterators : List (String × Expr)}
    (h : ∀ iterator ∈ iterators, isHidden iterator.1 = false ∧ iterator.2.Plain)
    (hbody : body.Mirrors CollectsAs (insert (loopOutput (loops + 1)) loose) RendersAs
      (body.normalForm expand limit)) :
    (loop (loops + 1) iterators false body).Echoed expand limit loose := by
  have hform := partwise_normalForm expand limit
  have hlooser := insert_subset_earlierOutputs hloose
  obtain ⟨hindex, houtput, hlist⟩ := (admits_steady hloose).helper (loops + 1) (by omega)
  have hlocals : ∀ e ∈ loopLocals (loops + 1) iterators, e.Steady loose := by
    apply (admits_steady hloose).composes.loopLocals hindex houtput hlist
    refine fun iterator hmem => ⟨fun hname => ?_, (h iterator hmem).2.steady hloose⟩
    exact notMem_earlierOutputs_of_visible (h iterator hmem).1 (hloose hname)
  have hlisted : ∀ e ∈ loopListed (loops + 1) iterators.length,
      e.Steady (insert (loopOutput (loops + 1)) loose) := by
    apply (admits_steady hlooser).composes.loopListed
    exact fun i hmem => loopList_notMem_earlierOutputs _ i (hlooser hmem)
  have hrounds := mirrors_loopRounds hlooser (Set.mem_insert _ _)
    (fun iterator hmem => (h iterator hmem).1) hbody
  apply echoed_of_whole
  · rw [(partwise_mergedForm expand).loop]
    rfl
  · rw [loop_eq, hform.block fun e he => isLocal_loopLocals _ _ e (List.mem_of_mem_head? he)]
    apply mirrors_block (Steady.sameLocals hlocals (isLocal_loopLocals _ _)) (Set.subset_insert _ _)
    · rintro name (rfl | hname)
      · exact .inr loopOutput_mem_declared
      · exact .inl hname
    · exact .refl
    · intro fuel
      rw [List.append_cons, List.map_append, List.map_append, List.map_singleton,
        List.map_singleton, hform.loopResult]
      exact mirrors_sequence (List.rel_append (Steady.mirrors_each hlisted) (.cons hrounds .nil))
        (mirrors_loopResult _) fuel _ _

end Emit

end SceneQuiz
