import SceneQuiz.Proofs.Expr.Parts
import SceneQuiz.Proofs.Template.NormalForm
/-!
Properties that normal forms keep.  Merging moves parts of concatenations and
of tagged lists about, joins texts and brings in inline templates; folding
nests concatenations.  What holds of every part then holds of the result, as
long as texts have the property and a concatenation or a list has it exactly if
its parts have it.
-/

namespace SceneQuiz

namespace Expr

theorem children_mapParts (change : Expr → Expr) (e : Expr) :
    (e.mapParts change).children = e.children.map change := by
  cases e with
  | cond branches otherwise =>
      cases otherwise <;> simp [mapParts, children, List.map_flatMap, List.flatMap_map]
  | forRange var first step last body => cases step <;> simp [mapParts, children]
  | _ => simp [mapParts, children]

/-- An inline call stands for the code it is expanded to, or stays. -/
theorem mergedForm_castext {expand : String → Except TemplateIssue Expr} (args : List Expr) :
    (Expr.call "castext" args).mergedForm expand =
        .call "castext" (args.map (mergedForm expand)) ∨
      ∃ arg source inlined, args = [arg] ∧ arg.mergedForm expand = .str source ∧
        expand source = .ok inlined ∧
          (Expr.call "castext" args).mergedForm expand = Concat.settle inlined := by
  have hform : (Expr.call "castext" args).mergedForm expand =
      (Concat.call expand "castext" (args.map (mergedForm expand))).value := by
    rw [← value_mergedAll]
    rfl
  rw [hform]
  unfold Concat.call
  rw [if_pos rfl]
  split
  · next source hargs =>
      obtain ⟨arg, rest, rfl, hsource, hrest⟩ := List.map_eq_cons_iff.mp hargs
      obtain rfl := List.map_eq_nil_iff.mp hrest
      cases hexpand : expand source with
      | ok inlined => exact .inr ⟨arg, source, inlined, rfl, hsource, hexpand, rfl⟩
      | error issue => exact .inl rfl
  · exact .inl rfl

end Expr

namespace Concat

open SceneQuiz.Expr

theorem rootPartsOfAll_eq (items : List Expr) :
    rootPartsOfAll items = items.flatMap rootParts := by
  induction items with
  | nil => rfl
  | cons e rest ih => simp only [rootPartsOfAll, ih, List.flatMap_cons]

/-- A property that every text has, and that a concatenation or a list has
exactly if its parts have it. -/
structure Composed (Q : Expr → Prop) : Prop where
  text : ∀ text, Q (.str text)
  sconcat : ∀ {args}, Q (.call "sconcat" args) ↔ ∀ arg ∈ args, Q arg
  list : ∀ {items}, Q (.list items) ↔ ∀ item ∈ items, Q item

namespace Composed

variable {Q : Expr → Prop} (hQ : Composed Q) {items args : List Expr}

include hQ

theorem mergeTexts (h : ∀ e ∈ items, Q e) : ∀ e ∈ mergeTexts items, Q e := by
  intro e he
  rcases mem_mergeTexts he with hmem | ⟨text, rfl⟩
  · exact h e hmem
  · exact hQ.text text

theorem concatParts {e : Expr} (he : Q e) : ∀ part ∈ e.concatParts, Q part := by
  induction e using Expr.ofParts with
  | hstep e ih =>
    by_cases hsconcat : ∃ args, e = .call "sconcat" args
    · obtain ⟨args, rfl⟩ := hsconcat
      rw [concatParts_sconcat, concatPartsOfAll_eq]
      intro part hpart
      obtain ⟨arg, harg, hmem⟩ := List.mem_flatMap.mp hpart
      exact ih arg harg (hQ.sconcat.mp he arg harg) part hmem
    · rw [concatParts_other fun args heq => hsconcat ⟨args, heq⟩]
      simpa using he

theorem rootParts {e : Expr} (he : Q e) : ∀ part ∈ e.rootParts, Q part := by
  induction e using Expr.ofParts with
  | hstep e ih =>
    unfold Expr.rootParts
    split
    · next tag rest =>
        split
        · rw [rootPartsOfAll_eq]
          intro part hpart
          obtain ⟨item, hitem, hmem⟩ := List.mem_flatMap.mp hpart
          have hchild := List.mem_cons_of_mem (Expr.str tag) hitem
          exact ih item hchild (hQ.list.mp he item hchild) part hmem
        · simpa using he
    · simpa using he

theorem concatenation (h : ∀ arg ∈ args, Q arg) : Q (concatenation args) := by
  have hmerged : ∀ part ∈ Concat.mergeTexts (concatPartsOfAll args), Q part :=
    hQ.mergeTexts (hQ.concatParts (hQ.sconcat.mpr h))
  unfold Concat.concatenation
  split
  · exact hQ.text ""
  · next only honly =>
      rw [honly] at hmerged
      split
      · exact hmerged only List.mem_cons_self
      · exact hQ.sconcat.mpr hmerged
  · exact hQ.sconcat.mpr hmerged

theorem tagged (h : ∀ item ∈ items, Q item) : Q (tagged items) := by
  unfold Concat.tagged
  split
  · next tag rest =>
      split
      · apply hQ.list.mpr
        apply List.forall_mem_cons.mpr ⟨hQ.text tag, _⟩
        apply hQ.mergeTexts
        intro part hpart
        rw [rootPartsOfAll_eq] at hpart
        obtain ⟨item, hitem, hmem⟩ := List.mem_flatMap.mp hpart
        exact hQ.rootParts (h item (List.mem_cons_of_mem _ hitem)) part hmem
      · exact hQ.list.mpr h
  · exact hQ.list.mpr h

theorem settle {e : Expr} (he : Q e) : Q (settle e) := by
  cases e with
  | call name args =>
      simp only [Concat.settle]
      split
      · next hname =>
          subst hname
          exact hQ.concatenation (hQ.sconcat.mp he)
      · exact he
  | list items => exact hQ.tagged (hQ.list.mp he)
  | _ => exact he

theorem folded (limit : Nat) {current rest : List Expr} (hcurrent : ∀ e ∈ current, Q e)
    (hrest : ∀ e ∈ rest, Q e) : Q (folded limit current rest) := by
  induction rest generalizing current with
  | nil => exact hQ.sconcat.mpr hcurrent
  | cons e rest ih =>
      rw [List.forall_mem_cons] at hrest
      unfold Concat.folded
      split
      · apply ih _ hrest.2
        exact List.forall_mem_append.mpr ⟨hcurrent, by simpa using hrest.1⟩
      · apply ih _ hrest.2
        exact List.forall_mem_cons.mpr ⟨hQ.sconcat.mpr hcurrent, by simpa using hrest.1⟩

theorem shortened (limit : Nat) {e : Expr} (he : Q e) : Q (shortened limit e) := by
  cases e with
  | call name args =>
      simp only [Concat.shortened, foldCall]
      split
      · next hlong =>
          obtain ⟨rfl, -⟩ := hlong
          exact hQ.folded limit (List.forall_mem_nil _) (hQ.sconcat.mp he)
      · exact he
  | _ => exact he

/-- By induction on the parts: whatever becomes of a node's parts, the node has
the property if they do, and inline templates bring it along. -/
theorem mergedForm {expand : String → Except TemplateIssue Expr} {e : Expr}
    (hnode : ∀ {part : Expr}, part ∈ e.parts → (∀ args, part ≠ .call "castext" args) →
      (∀ child ∈ part.children, Q (child.mergedForm expand)) →
        Q (part.mapParts (Expr.mergedForm expand)))
    (hcall : ∀ {args : List Expr}, Expr.call "castext" args ∈ e.parts →
      (∀ arg ∈ args, Q (arg.mergedForm expand)) →
        Q (.call "castext" (args.map (Expr.mergedForm expand))))
    (hinline : ∀ {arg inlined : Expr} {source : String},
      Expr.call "castext" [arg] ∈ e.parts → arg.mergedForm expand = .str source →
        expand source = .ok inlined → Q inlined) : Q (e.mergedForm expand) := by
  induction e using Expr.ofParts with
  | hstep e ih =>
    have hparts : ∀ child ∈ e.children, Q (child.mergedForm expand) := by
      intro child hchild
      apply ih child hchild
      · exact fun hpart => hnode (mem_parts_of_child hchild hpart)
      · exact fun hpart => hcall (mem_parts_of_child hchild hpart)
      · exact fun hpart => hinline (mem_parts_of_child hchild hpart)
    by_cases hcastext : ∃ args, e = .call "castext" args
    · obtain ⟨args, rfl⟩ := hcastext
      rcases mergedForm_castext args with
        hform | ⟨arg, source, inlined, rfl, hsource, hexpand, hform⟩
      · rw [hform]
        exact hcall (mem_parts_self _) hparts
      · rw [hform]
        exact hQ.settle (hinline (mem_parts_self _) hsource hexpand)
    · have hother : ∀ args, e ≠ .call "castext" args := fun args heq => hcastext ⟨args, heq⟩
      rw [mergedForm_eq expand hother]
      exact hQ.settle (hnode (mem_parts_self e) hother hparts)

end Composed

end Concat

namespace Expr

/-- A property that normal forms keep, if inline templates bring it along. -/
structure Lasts (Q : Expr → Prop) : Prop where
  folded : ∀ limit {e}, Q e → Q (e.foldConcats limit)
  merged : ∀ {expand e}, Q e →
    (∀ {arg inlined : Expr} {source : String}, Expr.call "castext" [arg] ∈ e.parts →
      arg.mergedForm expand = .str source → expand source = .ok inlined →
        Q inlined ∧ ∀ name, inlined ≠ .ident name) →
    Q (e.mergedForm expand)

/-- A property of single nodes that their parts play no role in, and that texts,
concatenations, lists and inline calls have. -/
structure Labelled (P : Expr → Prop) : Prop where
  text : ∀ text, P (.str text)
  call : ∀ name ∈ ["sconcat", "castext"], ∀ args, P (.call name args)
  list : ∀ items, P (.list items)
  mapParts : ∀ {e : Expr} (change : Expr → Expr), P e → P (e.mapParts change)

namespace Labelled

variable {P : Expr → Prop} (hP : Labelled P)

include hP

theorem composed : Concat.Composed (Everywhere P) where
  text text := .leaf (hP.text text) rfl
  sconcat := by
    intro args
    exact ⟨fun h arg harg => h.inside harg, fun h => .node (hP.call _ (by simp) args) h⟩
  list := by
    intro items
    exact ⟨fun h item hitem => h.inside hitem, fun h => .node (hP.list items) h⟩

theorem everywhere_mapParts {e : Expr} {change : Expr → Expr} (he : P e)
    (h : ∀ part ∈ e.children, (change part).Everywhere P) :
    (e.mapParts change).Everywhere P := by
  apply Everywhere.node (hP.mapParts change he)
  rw [children_mapParts]
  exact List.forall_mem_map.mpr h

theorem foldConcats (limit : Nat) {e : Expr} (he : e.Everywhere P) :
    (e.foldConcats limit).Everywhere P := by
  induction e using Expr.ofParts with
  | hstep e ih =>
    rw [foldConcats_eq]
    apply hP.composed.shortened
    exact hP.everywhere_mapParts he.here fun part hpart => ih part hpart (he.inside hpart)

theorem mergedForm {expand : String → Except TemplateIssue Expr} {e : Expr}
    (he : e.Everywhere P)
    (hinline : ∀ {arg inlined : Expr} {source : String},
      Expr.call "castext" [arg] ∈ e.parts → arg.mergedForm expand = .str source →
        expand source = .ok inlined → inlined.Everywhere P) :
    (e.mergedForm expand).Everywhere P := by
  apply hP.composed.mergedForm _ _ hinline
  · exact fun hpart _ hparts =>
      hP.everywhere_mapParts (everywhere_iff_parts.mp he _ hpart) hparts
  · exact fun _ hargs => .node (hP.call _ (by simp) _) (List.forall_mem_map.mpr hargs)

theorem lasts : Lasts (Everywhere P) where
  folded limit _ he := hP.foldConcats limit he
  merged he hinline := hP.mergedForm he fun hcall hsource hexpand =>
    (hinline hcall hsource hexpand).1

end Labelled

theorem exists_of_normalize {expand : String → Except TemplateIssue Expr} {limit : Nat}
    {e normal : Expr} (h : e.normalize expand limit = .ok normal) :
    (e.merged expand).faults = [] ∧ normal = (e.mergedForm expand).foldConcats limit := by
  unfold normalize at h
  cases hmerged : (e.merged expand).result with
  | error faults =>
      rw [hmerged] at h
      cases h
  | ok merged =>
      rw [hmerged] at h
      cases h
      obtain ⟨hfaults, rfl⟩ := Checked.result_eq_ok_iff.mp hmerged
      exact ⟨hfaults, rfl⟩

end Expr

end SceneQuiz
