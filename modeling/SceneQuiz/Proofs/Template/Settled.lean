import Mathlib.Data.List.Chain
import SceneQuiz.Proofs.Template.SamePage
/-!
Bringing code to normal form settles it: a second time changes nothing.  Merging
leaves concatenations that merging does not change any more, and merging again
undoes what folding did to them, so folding gives the same again.  Main result:
normal forms are fixed, and every concatenation in one keeps to the limit.
-/

namespace SceneQuiz

namespace Expr

theorem Everywhere.of_mem_parts {P : Expr → Prop} {e part : Expr} (he : e.Everywhere P)
    (hpart : part ∈ e.parts) : part.Everywhere P :=
  everywhere_iff_parts.mpr fun _ hinner =>
    everywhere_iff_parts.mp he _ (mem_parts_trans hinner hpart)

/-- A node that merging does not change. -/
def Settled (e : Expr) : Prop := Concat.settle e = e

end Expr

namespace Concat

open SceneQuiz.Expr

theorem mergeTexts_cons_congr (e : Expr) {items others : List Expr}
    (h : mergeTexts items = mergeTexts others) :
    mergeTexts (e :: items) = mergeTexts (e :: others) := by
  cases e with
  | str text => simp only [mergeTexts, h]
  | _ => exact congrArg (List.cons _) h

/-- Two literal texts in front count as one. -/
theorem mergeTexts_joined (text more : String) (rest : List Expr) :
    mergeTexts (.str (text ++ more) :: rest) = mergeTexts (.str text :: .str more :: rest) := by
  by_cases htext : text = ""
  · simp [htext, mergeTexts]
  by_cases hmore : more = ""
  · simp [hmore, mergeTexts]
  have hboth : text ++ more ≠ "" := by simp [htext]
  simp only [mergeTexts, if_neg htext, if_neg hmore, if_neg hboth]
  cases mergeTexts rest with
  | nil => rfl
  | cons e others => cases e <;> simp [String.append_assoc]

/-- Texts may be merged beforehand in a first part. -/
theorem mergeTexts_append (items others : List Expr) :
    mergeTexts (mergeTexts items ++ others) = mergeTexts (items ++ others) := by
  fun_induction mergeTexts items with
  | case1 => rfl
  | case2 rest ih => simpa [mergeTexts] using ih
  | case3 text rest htext more merged hmerged ih =>
      rw [hmerged] at ih
      exact (mergeTexts_joined text more _).trans (mergeTexts_cons_congr _ ih)
  | case4 text rest htext hmerged ih => exact mergeTexts_cons_congr _ ih
  | case5 e rest he ih => exact mergeTexts_cons_congr _ ih

theorem mergeTexts_mergeTexts (items : List Expr) :
    mergeTexts (mergeTexts items) = mergeTexts items := by
  simpa using mergeTexts_append items []

/-- Literal texts that are not empty and do not stand next to each other. -/
structure TextsApart (items : List Expr) : Prop where
  filled : .str "" ∉ items
  apart : items.IsChain fun first second => first.asString? = none ∨ second.asString? = none

namespace TextsApart

variable {e : Expr} {items others : List Expr}

theorem cons_iff : TextsApart (e :: items) ↔ e ≠ .str "" ∧
    (∀ next ∈ items.head?, e.asString? = none ∨ next.asString? = none) ∧ TextsApart items := by
  constructor
  · rintro ⟨hfilled, hapart⟩
    rw [List.mem_cons, not_or] at hfilled
    rw [List.isChain_cons] at hapart
    exact ⟨Ne.symm hfilled.1, hapart.1, hfilled.2, hapart.2⟩
  · rintro ⟨he, hnext, hfilled, hapart⟩
    exact ⟨by simp [Ne.symm he, hfilled], List.isChain_cons.mpr ⟨hnext, hapart⟩⟩

theorem left (h : TextsApart (items ++ others)) : TextsApart items :=
  ⟨fun hmem => h.filled (List.mem_append_left _ hmem), h.apart.left_of_append⟩

theorem right (h : TextsApart (items ++ others)) : TextsApart others :=
  ⟨fun hmem => h.filled (List.mem_append_right _ hmem), h.apart.right_of_append⟩

/-- A call keeps texts apart. -/
theorem call (name : String) (args : List Expr) (h : TextsApart items) :
    TextsApart (.call name args :: items) :=
  cons_iff.mpr ⟨nofun, fun _ _ => .inl rfl, h⟩

theorem map {change : Expr → Expr} (hchange : ∀ e, (change e).asString? = e.asString?)
    (h : TextsApart items) : TextsApart (items.map change) := by
  constructor
  · intro hmem
    obtain ⟨e, he, hempty⟩ := List.mem_map.mp hmem
    have htext := hchange e
    rw [hempty] at htext
    cases e with
    | str text =>
        cases htext
        exact h.filled he
    | _ => cases htext
  · rw [List.isChain_map]
    simpa only [hchange] using h.apart

end TextsApart

theorem textsApart_mergeTexts (items : List Expr) : TextsApart (mergeTexts items) := by
  fun_induction mergeTexts items with
  | case1 => exact ⟨List.not_mem_nil, .nil⟩
  | case2 rest ih => exact ih
  | case3 text rest htext more others hmerged ih =>
      rw [hmerged] at ih
      obtain ⟨-, hnext, hothers⟩ := TextsApart.cons_iff.mp ih
      have hboth : Expr.str (text ++ more) ≠ .str "" := by simp [htext]
      refine TextsApart.cons_iff.mpr ⟨hboth, fun next hmem => ?_, hothers⟩
      exact .inr ((hnext next hmem).resolve_left (Option.some_ne_none more))
  | case4 text rest htext hmerged ih =>
      refine TextsApart.cons_iff.mpr ⟨by simpa using htext, fun next hnext => .inr ?_, ih⟩
      obtain ⟨others, hothers⟩ := List.head?_eq_some_iff.mp hnext
      cases next with
      | str more => exact absurd hothers (hmerged more others)
      | _ => rfl
  | case5 e rest he ih =>
      have hother : e.asString? = none := by
        cases e with
        | str text => exact absurd rfl (he text)
        | _ => rfl
      exact TextsApart.cons_iff.mpr ⟨he "", fun _ _ => .inl hother, ih⟩

theorem mem_parts_of_concatParts {e part : Expr} (h : part ∈ e.concatParts) :
    part ∈ e.parts := by
  induction e using Expr.ofParts with
  | hstep e ih =>
    by_cases hsconcat : ∃ args, e = .call "sconcat" args
    · obtain ⟨args, rfl⟩ := hsconcat
      rw [concatParts_sconcat, concatPartsOfAll_eq] at h
      obtain ⟨arg, harg, hmem⟩ := List.mem_flatMap.mp h
      exact mem_parts_of_child harg (ih arg harg hmem)
    · rw [concatParts_other fun args heq => hsconcat ⟨args, heq⟩, List.mem_singleton] at h
      exact h ▸ mem_parts_self e

theorem ne_sconcat_of_concatParts {e part : Expr} (h : part ∈ e.concatParts)
    (args : List Expr) : part ≠ .call "sconcat" args := by
  induction e using Expr.ofParts with
  | hstep e ih =>
    by_cases hsconcat : ∃ args, e = .call "sconcat" args
    · obtain ⟨found, rfl⟩ := hsconcat
      rw [concatParts_sconcat, concatPartsOfAll_eq] at h
      obtain ⟨arg, harg, hmem⟩ := List.mem_flatMap.mp h
      exact ih arg harg hmem
    · rw [concatParts_other fun args heq => hsconcat ⟨args, heq⟩, List.mem_singleton] at h
      exact fun heq => hsconcat ⟨args, h ▸ heq⟩

theorem mem_parts_of_rootParts {e part : Expr} (h : part ∈ e.rootParts) : part ∈ e.parts := by
  induction e using Expr.ofParts with
  | hstep e ih =>
    by_cases hroot : ∃ items, e = .list (.str rootTag :: items)
    · obtain ⟨items, rfl⟩ := hroot
      rw [rootParts_root, rootPartsOfAll_eq] at h
      obtain ⟨item, hitem, hmem⟩ := List.mem_flatMap.mp h
      have hchild : item ∈ (Expr.list (.str rootTag :: items)).children :=
        List.mem_cons_of_mem _ hitem
      exact mem_parts_of_child hchild (ih item hchild hmem)
    · rw [rootParts_other fun items heq => hroot ⟨items, heq⟩, List.mem_singleton] at h
      exact h ▸ mem_parts_self e

theorem sconcat_not_mem_mergedParts (args inner : List Expr) :
    .call "sconcat" inner ∉ mergedParts args := by
  intro hmem
  rcases mem_mergeTexts hmem with hpart | ⟨_, heq⟩
  · exact ne_sconcat_of_concatParts (e := .call "sconcat" args) hpart inner rfl
  · cases heq

theorem mergedParts_mergedParts (args : List Expr) :
    mergedParts (mergedParts args) = mergedParts args := by
  have hwhole : concatPartsOfAll (mergedParts args) = mergedParts args :=
    concatPartsOfAll_whole fun _ hpart => concatParts_of_mem_mergedParts hpart
  calc mergedParts (mergedParts args)
      = mergeTexts (mergedParts args) := congrArg mergeTexts hwhole
    _ = mergedParts args := mergeTexts_mergeTexts _

/-- A concatenation depends on its merged parts alone. -/
theorem concatenation_congr {args others : List Expr} (h : mergedParts args = mergedParts others) :
    concatenation args = concatenation others := by
  simp only [mergedParts] at h
  simp only [concatenation, h]

theorem concatenation_cases (args : List Expr) : concatenation args = .str "" ∨
    concatenation args ∈ mergedParts args ∨
      mergedParts args ≠ [] ∧ concatenation args = .call "sconcat" (mergedParts args) := by
  unfold concatenation
  rw [← mergedParts]
  split
  · exact .inl rfl
  · next only honly =>
      rw [honly]
      split
      · exact .inr (.inl List.mem_cons_self)
      · exact .inr (.inr ⟨List.cons_ne_nil _ _, rfl⟩)
  · next hnil _ => exact .inr (.inr ⟨hnil, rfl⟩)

theorem settled_concatenation {args : List Expr} (h : ∀ arg ∈ args, arg.Everywhere Settled) :
    (concatenation args).Everywhere Settled := by
  have hparts : ∀ part ∈ mergedParts args, part.Everywhere Settled := by
    intro part hpart
    rcases mem_mergeTexts hpart with hmem | ⟨text, rfl⟩
    · rw [concatPartsOfAll_eq] at hmem
      obtain ⟨arg, harg, hmem⟩ := List.mem_flatMap.mp hmem
      exact (h arg harg).of_mem_parts (mem_parts_of_concatParts hmem)
    · exact .leaf rfl rfl
  have hsettled : settle (.call "sconcat" (mergedParts args)) = concatenation args :=
    concatenation_congr (mergedParts_mergedParts args)
  rcases concatenation_cases args with hempty | hmem | ⟨-, hcall⟩
  · exact hempty ▸ .leaf rfl rfl
  · exact hparts _ hmem
  · rw [hcall] at hsettled ⊢
    exact .node hsettled hparts

theorem settled_tagged {items : List Expr} (h : ∀ item ∈ items, item.Everywhere Settled) :
    (tagged items).Everywhere Settled := by
  by_cases hroot : ∃ rest, items = .str rootTag :: rest
  · obtain ⟨rest, rfl⟩ := hroot
    have hagain : rootItems (rootItems rest) = rootItems rest := by
      calc rootItems (rootItems rest)
          = mergeTexts (rootItems rest) := congrArg mergeTexts (rootPartsOfAll_rootItems rest)
        _ = rootItems rest := mergeTexts_mergeTexts _
    have hsettled : (Expr.list (.str rootTag :: rootItems rest)).Settled :=
      congrArg (fun found => Expr.list (.str rootTag :: found)) hagain
    refine .node hsettled (List.forall_mem_cons.mpr ⟨.leaf rfl rfl, fun part hpart => ?_⟩)
    rcases mem_mergeTexts hpart with hmem | ⟨text, rfl⟩
    · rw [rootPartsOfAll_eq] at hmem
      obtain ⟨item, hitem, hmem⟩ := List.mem_flatMap.mp hmem
      exact (h item (List.mem_cons_of_mem _ hitem)).of_mem_parts (mem_parts_of_rootParts hmem)
    · exact .leaf rfl rfl
  · have hlist : tagged items = .list items := by
      simp only [tagged]
      split
      · next tag rest =>
          exact if_neg fun htag => hroot ⟨rest, by rw [htag]⟩
      · rfl
    rw [hlist]
    exact .node hlist h

theorem settled_settle {e : Expr} (h : ∀ child ∈ e.children, child.Everywhere Settled) :
    (settle e).Everywhere Settled := by
  cases e with
  | call name args =>
      by_cases hname : name = "sconcat"
      · subst hname
        exact settled_concatenation h
      · have hsame : settle (.call name args) = .call name args := if_neg hname
        rw [hsame]
        exact .node hsame h
  | list items => exact settled_tagged h
  | _ => exact .node rfl h

/-- What a concatenation that merging does not change is made of. -/
theorem parts_of_settled {args : List Expr} (h : (Expr.call "sconcat" args).Settled) :
    args ≠ [] ∧ mergedParts args = args := by
  have hcall : concatenation args = .call "sconcat" args := h
  rcases concatenation_cases args with hempty | hmem | ⟨hnil, hparts⟩
  · cases hempty.symm.trans hcall
  · rw [hcall] at hmem
    exact absurd hmem (sconcat_not_mem_mergedParts args args)
  · have hsame : mergedParts args = args := (Expr.call.inj (hparts.symm.trans hcall)).2
    exact ⟨hsame ▸ hnil, hsame⟩

/-- A concatenation inside the first place of another adds its arguments. -/
theorem concatenation_nested (args others : List Expr) :
    concatenation (concatenation args :: others) = concatenation (args ++ others) := by
  apply concatenation_congr
  have hboth : concatPartsOfAll (args ++ others) =
      concatPartsOfAll args ++ concatPartsOfAll others := by
    simp only [concatPartsOfAll_eq, List.flatMap_append]
  simp only [mergedParts, concatPartsOfAll, hboth]
  rcases concatParts_concatenation args with hparts | ⟨hnil, hparts⟩
  · rw [hparts]
    exact mergeTexts_append _ _
  · have happend := mergeTexts_append (concatPartsOfAll args) (concatPartsOfAll others)
    rw [mergedParts] at hnil
    rw [hnil] at happend
    rw [hparts, ← happend]
    simp [mergeTexts]

variable {expand : String → Except TemplateIssue Expr} {limit : Nat}

/-- Merging undoes folding, by induction on the arguments that are still to come. -/
theorem mergedForm_folded (current rest : List Expr) :
    (folded limit current rest).mergedForm expand =
      concatenation ((current ++ rest).map (mergedForm expand)) := by
  induction rest generalizing current with
  | nil => rw [folded, mergedForm_sconcat, List.append_nil]
  | cons e rest ih =>
      rw [folded]
      split
      · rw [ih, List.append_assoc, List.singleton_append]
      · rw [ih, List.cons_append, List.map_cons, mergedForm_sconcat, concatenation_nested,
          List.singleton_append, List.map_append]

theorem mergedForm_foldCall (args : List Expr) :
    (foldCall limit "sconcat" args).mergedForm expand =
      concatenation (args.map (mergedForm expand)) := by
  rw [foldCall]
  split
  · exact mergedForm_folded [] args
  · exact mergedForm_sconcat args

/-- A concatenation within the limit: texts are joined, and only a first
argument may be a concatenation again, a full one. -/
structure Bounded (limit : Nat) (args : List Expr) : Prop where
  nonempty : 1 ≤ args.length
  fits : args.length ≤ limit
  texts : TextsApart args
  first : ∀ inner, args.head? = some (.call "sconcat" inner) → inner.length = limit
  others : ∀ inner, .call "sconcat" inner ∉ args.tail

end Concat

namespace Expr

/-- A node that keeps to the limit if it is a concatenation. -/
def KeepsLimit (limit : Nat) (e : Expr) : Prop :=
  ∀ args, e = .call "sconcat" args → Concat.Bounded limit args

end Expr

namespace Concat

open SceneQuiz.Expr

variable {expand : String → Except TemplateIssue Expr} {limit : Nat} {e : Expr}
  {args current rest : List Expr}

namespace Bounded

/-- Arguments none of which is a concatenation. -/
theorem flat (hnonempty : args ≠ []) (hfits : args.length ≤ limit) (htexts : TextsApart args)
    (hflat : ∀ inner, .call "sconcat" inner ∉ args) : Bounded limit args where
  nonempty := List.length_pos_iff.mpr hnonempty
  fits := hfits
  texts := htexts
  first inner hinner := absurd (List.mem_of_mem_head? hinner) (hflat inner)
  others inner hinner := hflat inner (List.mem_of_mem_tail hinner)

/-- One more argument, as long as there is room for it. -/
theorem snoc (h : Bounded limit args) (hroom : args.length < limit)
    (htexts : TextsApart (args ++ [e])) (he : ∀ inner, e ≠ .call "sconcat" inner) :
    Bounded limit (args ++ [e]) := by
  obtain ⟨head, tail, rfl⟩ := List.exists_cons_of_length_pos h.nonempty
  refine ⟨by simp, by simp at hroom ⊢; omega, htexts, h.first, fun inner hinner => ?_⟩
  rcases List.mem_append.mp hinner with hmem | hmem
  · exact h.others inner hmem
  · exact he inner (List.mem_singleton.mp hmem).symm

/-- A full concatenation becomes the first argument of the next. -/
theorem nest (h : Bounded limit args) (hfull : ¬ args.length < limit) (hlimit : 2 ≤ limit)
    (htexts : TextsApart [e]) (he : ∀ inner, e ≠ .call "sconcat" inner) :
    Bounded limit [.call "sconcat" args, e] := by
  have hfits := h.fits
  refine ⟨by simp, by simpa using hlimit, htexts.call "sconcat" args, fun inner hinner => ?_,
    fun inner hinner => he inner (List.mem_singleton.mp hinner).symm⟩
  cases hinner
  omega

end Bounded

/-- Folding keeps to the limit, by induction on the arguments still to come. -/
theorem keepsLimit_folded (hlimit : 2 ≤ limit) (hcurrent : Bounded limit current)
    (hparts : ∀ part ∈ current ++ rest, part.Everywhere (KeepsLimit limit))
    (htexts : TextsApart (current ++ rest)) (hrest : ∀ inner, .call "sconcat" inner ∉ rest) :
    (folded limit current rest).Everywhere (KeepsLimit limit) := by
  induction rest generalizing current with
  | nil =>
      rw [List.append_nil] at hparts
      exact .node (fun args heq => (Expr.call.inj heq).2 ▸ hcurrent) hparts
  | cons e rest ih =>
      have he : ∀ inner, e ≠ .call "sconcat" inner := by
        rintro inner rfl
        exact hrest inner List.mem_cons_self
      have hlater : ∀ inner, .call "sconcat" inner ∉ rest := fun inner hinner =>
        hrest inner (List.mem_cons_of_mem e hinner)
      have hregrouped : current ++ e :: rest = current ++ [e] ++ rest := by simp
      rw [folded]
      split
      · next hroom =>
          rw [hregrouped] at hparts htexts
          exact ih (hcurrent.snoc hroom htexts.left he) hparts htexts hlater
      · next hfull =>
          rw [List.forall_mem_append] at hparts
          have hnext : TextsApart ([e] ++ rest) := htexts.right
          have hcall : (Expr.call "sconcat" current).Everywhere (KeepsLimit limit) :=
            .node (fun args heq => (Expr.call.inj heq).2 ▸ hcurrent) hparts.1
          exact ih (hcurrent.nest hfull hlimit hnext.left he)
            (List.forall_mem_cons.mpr ⟨hcall, hparts.2⟩) (hnext.call "sconcat" current) hlater

theorem keepsLimit_foldCall (hlimit : 2 ≤ limit) (hnonempty : args ≠ [])
    (hparts : ∀ part ∈ args, part.Everywhere (KeepsLimit limit)) (htexts : TextsApart args)
    (hflat : ∀ inner, .call "sconcat" inner ∉ args) :
    (foldCall limit "sconcat" args).Everywhere (KeepsLimit limit) := by
  rw [foldCall]
  split
  · obtain ⟨e, rest, rfl⟩ := List.exists_cons_of_ne_nil hnonempty
    have hstart : folded limit [] (e :: rest) = folded limit [e] rest :=
      if_pos (Nat.lt_of_lt_of_le Nat.zero_lt_two hlimit)
    have hsingle : TextsApart ([e] ++ rest) := htexts
    rw [hstart]
    apply keepsLimit_folded hlimit _ hparts htexts
    · exact fun inner hinner => hflat inner (List.mem_cons_of_mem e hinner)
    · apply Bounded.flat (List.cons_ne_nil e []) (by simp; omega) hsingle.left
      intro inner hinner
      exact hflat inner (List.mem_singleton.mp hinner ▸ List.mem_cons_self)
  · next hshort =>
      have hfits : args.length ≤ limit := by
        rw [not_and, not_lt] at hshort
        exact hshort rfl
      exact .node (fun found heq =>
        (Expr.call.inj heq).2 ▸ .flat hnonempty hfits htexts hflat) hparts

end Concat

namespace Expr

open Concat

variable {expand : String → Except TemplateIssue Expr} {limit : Nat} {e : Expr}

theorem mapParts_congr {first second : Expr → Expr}
    (h : ∀ part ∈ e.children, first part = second part) :
    e.mapParts first = e.mapParts second := by
  cases e with
  | number | str | bool | ident => rfl
  | call name args => exact congrArg (Expr.call name) (List.map_congr_left h)
  | list items => exact congrArg Expr.list (List.map_congr_left h)
  | set items => exact congrArg Expr.set (List.map_congr_left h)
  | group items => exact congrArg Expr.group (List.map_congr_left h)
  | index target indices =>
      rw [forall_children_index] at h
      rw [mapParts, mapParts, h.1, List.map_congr_left h.2]
  | neg | not | quote | factorial =>
      rw [forall_children_one rfl] at h
      rw [mapParts, mapParts, h]
  | binary | forIn =>
      rw [forall_children_two rfl] at h
      rw [mapParts, mapParts, h.1, h.2]
  | cond branches otherwise =>
      rw [forall_children_cond] at h
      have hbranches : branches.map (fun branch => (first branch.1, first branch.2)) =
          branches.map fun branch => (second branch.1, second branch.2) :=
        List.map_congr_left fun branch hbranch => Prod.ext_iff.mpr (h.1 branch hbranch)
      rw [mapParts, mapParts, hbranches, Option.map_congr h.2]
  | forRange =>
      rw [forall_children_forRange] at h
      rw [mapParts, mapParts, h.1, Option.map_congr h.2.1, h.2.2.1, h.2.2.2]

theorem mapParts_same {change : Expr → Expr} (h : ∀ part ∈ e.children, change part = part) :
    e.mapParts change = e :=
  (mapParts_congr h).trans e.mapParts_id

/-- Merging settles every node, by induction on the parts. -/
theorem settled_mergedForm (he : e.Everywhere fun part => ∀ args, part ≠ .call "castext" args) :
    (e.mergedForm expand).Everywhere Settled := by
  induction e using Expr.ofParts with
  | hstep e ih =>
    rw [mergedForm_eq expand he.here]
    apply settled_settle
    rw [children_mapParts, List.forall_mem_map]
    exact fun part hpart => ih part hpart (he.inside hpart)

theorem composed_notInline :
    Composed (Everywhere fun part => ∀ args, part ≠ .call "castext" args) where
  text _ := .leaf nofun rfl
  sconcat := ⟨fun h _ harg => h.inside harg,
    fun h => .node (fun _ heq => absurd (Expr.call.inj heq).1 (by decide)) h⟩
  list := ⟨fun h _ hitem => h.inside hitem, fun h => .node nofun h⟩

theorem notInline_mapParts {change : Expr → Expr} (he : ∀ args, e ≠ .call "castext" args)
    (h : ∀ part ∈ e.children,
      (change part).Everywhere fun part => ∀ args, part ≠ .call "castext" args) :
    (e.mapParts change).Everywhere fun part => ∀ args, part ≠ .call "castext" args := by
  apply Everywhere.node
  · intro args heq
    cases e <;> cases heq
    exact he _ rfl
  · rw [children_mapParts]
    exact List.forall_mem_map.mpr h

theorem notInline_mergedForm
    (he : e.Everywhere fun part => ∀ args, part ≠ .call "castext" args) :
    (e.mergedForm expand).Everywhere fun part => ∀ args, part ≠ .call "castext" args := by
  rw [everywhere_iff_parts] at he
  apply composed_notInline.mergedForm
  · exact fun hpart _ hchildren => notInline_mapParts (he _ hpart) hchildren
  · exact fun hpart _ => absurd rfl (he _ hpart _)
  · exact fun hpart _ _ => absurd rfl (he _ hpart _)

theorem notInline_foldConcats (limit : Nat)
    (he : e.Everywhere fun part => ∀ args, part ≠ .call "castext" args) :
    (e.foldConcats limit).Everywhere fun part => ∀ args, part ≠ .call "castext" args := by
  induction e using Expr.ofParts with
  | hstep e ih =>
    rw [foldConcats_eq]
    exact composed_notInline.shortened limit
      (notInline_mapParts he.here fun part hpart => ih part hpart (he.inside hpart))

/-- Folding changes concatenations alone. -/
theorem foldConcats_other (limit : Nat) (hsconcat : ∀ args, e ≠ .call "sconcat" args) :
    e.foldConcats limit = e.mapParts (foldConcats limit) := by
  rw [foldConcats_eq]
  cases e with
  | call name args =>
      have hname : name ≠ "sconcat" := fun heq => hsconcat args (by rw [heq])
      exact if_neg fun hlong => hname hlong.1
  | _ => rfl

theorem foldConcats_sconcat (args : List Expr) :
    (Expr.call "sconcat" args).foldConcats limit =
      foldCall limit "sconcat" (args.map (foldConcats limit)) :=
  foldConcats_eq limit _

theorem asString?_foldConcats (e : Expr) : (e.foldConcats limit).asString? = e.asString? := by
  rcases foldConcats_cases limit e with hparts | ⟨_, _, _, rfl, hcall⟩
  · rw [hparts]
    cases e <;> rfl
  · rw [hcall]
    rfl

/-- Merging again undoes folding. -/
theorem mergedForm_foldConcats (hsettled : e.Everywhere Settled)
    (he : e.Everywhere fun part => ∀ args, part ≠ .call "castext" args) :
    (e.foldConcats limit).mergedForm expand = e := by
  induction e using Expr.ofParts with
  | hstep e ih =>
    have hparts : ∀ part ∈ e.children, (part.foldConcats limit).mergedForm expand = part :=
      fun part hpart => ih part hpart (hsettled.inside hpart) (he.inside hpart)
    by_cases hsconcat : ∃ args, e = .call "sconcat" args
    · obtain ⟨args, rfl⟩ := hsconcat
      have hargs : (args.map (foldConcats limit)).map (mergedForm expand) = args := by
        rw [List.map_map]
        exact (List.map_congr_left hparts).trans (List.map_id args)
      rw [foldConcats_sconcat, mergedForm_foldCall, hargs]
      exact hsettled.here
    · have hfolded := foldConcats_other limit fun args heq => hsconcat ⟨args, heq⟩
      have hinline := (notInline_foldConcats limit he).here
      rw [hfolded] at hinline ⊢
      rw [mergedForm_eq expand hinline, mapParts_mapParts, mapParts_same hparts]
      exact hsettled.here

/-- Every concatenation in what folding leaves keeps to the limit. -/
theorem keepsLimit_foldConcats (hlimit : 2 ≤ limit) (he : e.Everywhere Settled) :
    (e.foldConcats limit).Everywhere (KeepsLimit limit) := by
  induction e using Expr.ofParts with
  | hstep e ih =>
    have hparts : ∀ part ∈ e.children.map (foldConcats limit),
        part.Everywhere (KeepsLimit limit) :=
      List.forall_mem_map.mpr fun part hpart => ih part hpart (he.inside hpart)
    by_cases hsconcat : ∃ args, e = .call "sconcat" args
    · obtain ⟨args, rfl⟩ := hsconcat
      obtain ⟨hnonempty, hmerged⟩ := parts_of_settled he.here
      have htexts : TextsApart args := hmerged ▸ textsApart_mergeTexts _
      rw [foldConcats_sconcat]
      apply keepsLimit_foldCall hlimit (mt List.map_eq_nil_iff.mp hnonempty) hparts
        (htexts.map asString?_foldConcats)
      intro inner hinner
      obtain ⟨arg, harg, hcall⟩ := List.mem_map.mp hinner
      obtain ⟨others, rfl⟩ := exists_call_of_foldConcats hcall
      exact sconcat_not_mem_mergedParts args others (hmerged.symm ▸ harg)
    · rw [foldConcats_other limit fun args heq => hsconcat ⟨args, heq⟩]
      refine .node (fun args heq => ?_) (by rwa [children_mapParts])
      rw [← foldConcats_other limit fun args heq => hsconcat ⟨args, heq⟩] at heq
      obtain ⟨others, rfl⟩ := exists_call_of_foldConcats heq
      exact absurd ⟨others, rfl⟩ hsconcat

/-- Bringing code without inline templates to normal form never fails.  A second
time changes nothing, and every concatenation in the normal form has between one
and `limit` arguments, no empty texts and no texts next to each other, and no
concatenation inside but a full one in its first place. -/
theorem normalizedIn_settles (ctx : TemplateContext)
    (he : e.Everywhere fun part => ∀ args, part ≠ .call "castext" args) :
    ∃ normal, e.normalizedIn ctx = .ok normal ∧ normal.normalizedIn ctx = .ok normal ∧
      normal.Everywhere (KeepsLimit (max ctx.options.concatLimit 2)) := by
  have hsettled : (e.mergedForm ctx.expand).Everywhere Settled := settled_mergedForm he
  have hmerged : (e.mergedForm ctx.expand).Everywhere fun part =>
      ∀ args, part ≠ .call "castext" args := notInline_mergedForm he
  have hnormal : ∀ {found : Expr},
      (found.Everywhere fun part => ∀ args, part ≠ .call "castext" args) →
        found.normalizedIn ctx = .ok (found.normalForm ctx.expand ctx.options.foldLimit) := by
    intro found hfound
    rw [normalizedIn, normalize_eq_ok ctx.expand ctx.options.foldLimit hfound]
  have hfixed : (e.normalForm ctx.expand ctx.options.foldLimit).mergedForm ctx.expand =
      e.mergedForm ctx.expand := mergedForm_foldConcats hsettled hmerged
  have hsame : (e.normalForm ctx.expand ctx.options.foldLimit).normalForm ctx.expand
      ctx.options.foldLimit = e.normalForm ctx.expand ctx.options.foldLimit :=
    congrArg (foldConcats ctx.options.foldLimit) hfixed
  have hagain := hnormal (notInline_foldConcats ctx.options.foldLimit hmerged)
  refine ⟨_, hnormal he, ?_, keepsLimit_foldConcats (Nat.le_max_right _ _) hsettled⟩
  exact hagain.trans (congrArg Except.ok hsame)

/-- Concatenations may have three arguments. -/
def narrowContext : TemplateContext where
  options := { Options.default with concatLimit := 3 }
  inputs := []
  reader := none

/-- A concatenation in another, with texts next to each other. -/
def chained : Expr :=
  .call "sconcat" [.str "a", .call "sconcat" [.ident "x", .str "b"], .str "c", .ident "y",
    .str "", .ident "z"]

def chainedNormal : Expr :=
  .call "sconcat" [.call "sconcat" [.str "a", .ident "x", .str "bc"], .ident "y", .ident "z"]

theorem chained_settles :
    (chained.Everywhere fun part => ∀ args, part ≠ .call "castext" args) ∧
      chained.normalizedIn narrowContext = .ok chainedNormal ∧
        chainedNormal.normalizedIn narrowContext = .ok chainedNormal ∧
          chainedNormal.Everywhere (KeepsLimit 3) := by
  have hinline : chained.Everywhere fun part => ∀ args, part ≠ .call "castext" args := by
    refine (by decide : chained.Everywhere fun part => part.isInline = false).mono ?_
    rintro _ hpart args rfl
    cases hpart
  obtain ⟨normal, hnormal, hagain, hlimit⟩ := normalizedIn_settles narrowContext hinline
  have hform : chained.normalizedIn narrowContext = .ok chainedNormal := rfl
  cases hnormal.symm.trans hform
  exact ⟨hinline, hnormal, hagain, hlimit⟩

end Expr

end SceneQuiz
