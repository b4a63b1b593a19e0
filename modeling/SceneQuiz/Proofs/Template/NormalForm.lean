import SceneQuiz.Expr.Usage
import SceneQuiz.Proofs.Machine.Congruence
import SceneQuiz.Template.Concat
/-!
The shape of normal forms.  Merging and folding work from the parts to the
whole, and apart from concatenations and tagged lists they reach only the parts
of an expression.  A concatenation is taken apart into parts that stay whole,
and merging keeps what its literals spell.
-/

namespace SceneQuiz

namespace Expr

theorem mapParts_mapParts (first second : Expr → Expr) (e : Expr) :
    (e.mapParts first).mapParts second = e.mapParts fun part => second (first part) := by
  cases e <;> simp [mapParts, Function.comp_def]

end Expr

namespace Concat

/-- A concatenation with no more arguments than the limit; all else as it is. -/
def shortened (limit : Nat) : Expr → Expr
  | .call name args => foldCall limit name args
  | e => e

end Concat

namespace Expr

variable (limit : Nat)

theorem foldConcatsAll_eq_map (items : List Expr) :
    foldConcatsAll limit items = items.map (foldConcats limit) := by
  induction items with
  | nil => rfl
  | cons e rest ih => simp only [foldConcatsAll, ih, List.map_cons]

theorem foldConcatsBranches_eq_map (branches : List (Expr × Expr)) :
    foldConcatsBranches limit branches =
      branches.map fun branch => (branch.1.foldConcats limit, branch.2.foldConcats limit) := by
  induction branches with
  | nil => rfl
  | cons branch rest ih => simp only [foldConcatsBranches, ih, List.map_cons]

/-- Folding works from the parts to the whole. -/
theorem foldConcats_eq (e : Expr) :
    e.foldConcats limit = Concat.shortened limit (e.mapParts (foldConcats limit)) := by
  cases e with
  | cond branches otherwise =>
      cases otherwise
      all_goals
        simp only [foldConcats, foldConcatsBranches_eq_map]
        rfl
  | forRange var first step last body => cases step <;> rfl
  | _ =>
      simp only [foldConcats, foldConcatsAll_eq_map]
      rfl

/-- The merged form, whatever was reported on the way. -/
def mergedForm (expand : String → Except TemplateIssue Expr) (e : Expr) : Expr :=
  (e.merged expand).value

variable (expand : String → Except TemplateIssue Expr)

theorem value_mergedAll (items : List Expr) :
    (mergedAll expand items).value = items.map (mergedForm expand) := by
  induction items with
  | nil => rfl
  | cons e rest ih =>
      simp only [mergedAll, Checked.value_bind, Checked.value_pure, ih, List.map_cons]
      rfl

theorem value_mergedBranches (branches : List (Expr × Expr)) :
    (mergedBranches expand branches).value =
      branches.map fun branch => (branch.1.mergedForm expand, branch.2.mergedForm expand) := by
  induction branches with
  | nil => rfl
  | cons branch rest ih =>
      simp only [mergedBranches, Checked.value_bind, Checked.value_pure, ih, List.map_cons]
      rfl

/-- Merging works from the parts to the whole. -/
theorem mergedForm_eq {e : Expr} (he : ∀ args, e ≠ .call "castext" args) :
    e.mergedForm expand = Concat.settle (e.mapParts (mergedForm expand)) := by
  cases e with
  | call name args =>
      have hname : name ≠ "castext" := fun heq => he args (by rw [heq])
      simp only [mergedForm, merged, Concat.call, hname, if_false, Checked.value_bind,
        Checked.value_pure, value_mergedAll]
      rfl
  | cond branches otherwise =>
      cases otherwise
      all_goals
        simp only [mergedForm, merged, Checked.value_bind, Checked.value_pure,
          value_mergedBranches]
        rfl
  | forRange var first step last body => cases step <;> rfl
  | _ =>
      simp only [mergedForm, merged, Checked.value_bind, Checked.value_pure,
        value_mergedAll]
      rfl

theorem faults_mergedAll {items : List Expr}
    (h : ∀ e ∈ items, (e.merged expand).faults = []) :
    (mergedAll expand items).faults = [] := by
  induction items with
  | nil => rfl
  | cons e rest ih =>
      rw [List.forall_mem_cons] at h
      simp only [mergedAll, Checked.faults_bind, Checked.faults_pure, ih h.2, h.1,
        List.append_nil]

theorem faults_mergedBranches {branches : List (Expr × Expr)}
    (h : ∀ branch ∈ branches, (branch.1.merged expand).faults = [] ∧
      (branch.2.merged expand).faults = []) :
    (mergedBranches expand branches).faults = [] := by
  induction branches with
  | nil => rfl
  | cons branch rest ih =>
      rw [List.forall_mem_cons] at h
      simp only [mergedBranches, Checked.faults_bind, Checked.faults_pure, ih h.2, h.1.1,
        h.1.2, List.append_nil]

theorem faults_map {α β : Type} (f : α → β) (checked : Checked α) :
    (f <$> checked).faults = checked.faults :=
  List.append_nil _

/-- Only inline templates are reported. -/
theorem faults_merged {e : Expr} (he : ∀ args, e ≠ .call "castext" args)
    (h : ∀ part ∈ e.children, (part.merged expand).faults = []) :
    (e.merged expand).faults = [] := by
  cases e with
  | number | str | bool | ident => rfl
  | call name args =>
      have hname : name ≠ "castext" := fun heq => he args (by rw [heq])
      have hargs : (mergedAll expand args).faults = [] := faults_mergedAll expand h
      simp only [merged, Concat.call, hname, if_false, Checked.faults_bind,
        Checked.faults_pure, hargs, List.append_nil]
  | list items | set items | group items =>
      have hitems : (mergedAll expand items).faults = [] := faults_mergedAll expand h
      simp only [merged, Checked.faults_bind, Checked.faults_pure, hitems,
        List.append_nil]
  | index target indices =>
      rw [forall_children_index] at h
      simp only [merged, Checked.faults_bind, Checked.faults_pure,
        faults_mergedAll expand h.2, h.1, List.append_nil]
  | neg operand | not operand | quote operand | factorial operand =>
      rw [forall_children_one rfl] at h
      simp only [merged, Checked.faults_bind, Checked.faults_pure, h, List.append_nil]
  | binary op left right =>
      rw [forall_children_two rfl] at h
      simp only [merged, Checked.faults_bind, Checked.faults_pure, h.1, h.2,
        List.append_nil]
  | cond branches otherwise =>
      rw [forall_children_cond] at h
      have hbranches := faults_mergedBranches expand h.1
      cases otherwise with
      | some body =>
          have hbody : (some <$> body.merged expand).faults = [] := by
            rw [faults_map, h.2 body rfl]
          simp only [merged, Checked.faults_bind, Checked.faults_pure, hbranches, hbody,
            List.append_nil]
      | none =>
          simp only [merged, Checked.faults_bind, Checked.faults_pure, hbranches,
            List.append_nil]
  | forIn var source body =>
      rw [forall_children_two rfl] at h
      simp only [merged, Checked.faults_bind, Checked.faults_pure, h.1, h.2,
        List.append_nil]
  | forRange var first step last body =>
      rw [forall_children_forRange] at h
      obtain ⟨hfirst, hstep, hlast, hbody⟩ := h
      cases step with
      | some width =>
          have hwidth : (some <$> width.merged expand).faults = [] := by
            rw [faults_map, hstep width rfl]
          simp only [merged, Checked.faults_bind, Checked.faults_pure, hfirst, hlast,
            hbody, hwidth, List.append_nil]
      | none =>
          simp only [merged, Checked.faults_bind, Checked.faults_pure, hfirst, hlast,
            hbody, List.append_nil]

end Expr

mutual

/-- The text of a literal, or of a concatenation of literals. -/
def Expr.literalText? (e : Expr) : Option String :=
  match e with
  | .str text => some text
  | .call name args => if name = "sconcat" then Expr.literalTexts? args else none
  | _ => none
termination_by structural e

/-- The joined texts of literals. -/
def Expr.literalTexts? (items : List Expr) : Option String :=
  match items with
  | [] => some ""
  | e :: rest => do
      let text ← e.literalText?
      let more ← Expr.literalTexts? rest
      some (text ++ more)
termination_by structural items

end

namespace Concat

open SceneQuiz.Expr

theorem literalTexts?_append (items others : List Expr) :
    literalTexts? (items ++ others) = (do
      let text ← literalTexts? items
      let more ← literalTexts? others
      some (text ++ more)) := by
  induction items with
  | nil => simp [literalTexts?]
  | cons e rest ih =>
      simp only [List.cons_append, literalTexts?, ih, Option.bind_eq_bind,
        Option.bind_assoc, Option.bind_some, String.append_assoc]

theorem literalTexts?_str (text : String) (rest : List Expr) :
    literalTexts? (.str text :: rest) = (literalTexts? rest).map (text ++ ·) := by
  cases h : literalTexts? rest <;> simp [literalTexts?, literalText?, h]

theorem literalTexts?_mergeTexts (items : List Expr) :
    literalTexts? (mergeTexts items) = literalTexts? items := by
  fun_induction mergeTexts items with
  | case1 => rfl
  | case2 rest ih =>
      rw [ih, literalTexts?_str]
      cases literalTexts? rest <;> simp
  | case3 text rest htext more others hmerged ih =>
      rw [literalTexts?_str, literalTexts?_str text rest, ← ih, hmerged,
        literalTexts?_str]
      cases literalTexts? others <;> simp [String.append_assoc]
  | case4 text rest htext hmerged ih => rw [literalTexts?_str, ih, literalTexts?_str]
  | case5 e rest he ih => simp only [literalTexts?, ih]

theorem concatPartsOfAll_eq (items : List Expr) :
    concatPartsOfAll items = items.flatMap concatParts := by
  induction items with
  | nil => rfl
  | cons e rest ih => simp only [concatPartsOfAll, ih, List.flatMap_cons]

theorem concatParts_sconcat (args : List Expr) :
    (Expr.call "sconcat" args).concatParts = concatPartsOfAll args := rfl

theorem concatParts_other {e : Expr} (he : ∀ args, e ≠ .call "sconcat" args) :
    e.concatParts = [e] := by
  unfold concatParts
  split
  · next name args =>
      have hname : name ≠ "sconcat" := fun heq => he args (by rw [heq])
      rw [if_neg hname]
  · rfl

/-- A concatenation contributes its arguments, so it has the text of what it
contributes. -/
theorem literalTexts?_concatParts (e : Expr) :
    literalTexts? e.concatParts = e.literalText? := by
  induction e using Expr.ofParts with
  | hstep e ih =>
    by_cases hsconcat : ∃ args, e = .call "sconcat" args
    · obtain ⟨args, rfl⟩ := hsconcat
      rw [concatParts_sconcat]
      change _ = literalTexts? args
      have hargs : ∀ part ∈ args, literalTexts? part.concatParts = part.literalText? := ih
      clear ih
      induction args with
      | nil => rfl
      | cons part rest ih =>
          rw [List.forall_mem_cons] at hargs
          simp only [concatPartsOfAll, literalTexts?_append, literalTexts?, hargs.1,
            ih hargs.2]
    · rw [concatParts_other fun args heq => hsconcat ⟨args, heq⟩]
      simp [literalTexts?]

theorem literalTexts?_concatPartsOfAll (items : List Expr) :
    literalTexts? (concatPartsOfAll items) = literalTexts? items :=
  literalTexts?_concatParts (.call "sconcat" items)

theorem literalText?_concatenation (args : List Expr) :
    (concatenation args).literalText? = literalTexts? args := by
  rw [← literalTexts?_concatPartsOfAll, ← literalTexts?_mergeTexts]
  unfold concatenation
  split
  · next h => rw [h]; rfl
  · next only h =>
      rw [h]
      split
      · simp [literalTexts?]
      · rfl
  · next parts _ _ => rfl

theorem literalTexts?_map {change : Expr → Expr} {items : List Expr}
    (h : ∀ e ∈ items, (change e).literalText? = e.literalText?) :
    literalTexts? (items.map change) = literalTexts? items := by
  induction items with
  | nil => rfl
  | cons e rest ih =>
      rw [List.forall_mem_cons] at h
      simp only [List.map_cons, literalTexts?, h.1, ih h.2]

/-- Every part that a concatenation is taken apart into stays whole. -/
theorem concatParts_of_mem {e part : Expr} (h : part ∈ e.concatParts) :
    part.concatParts = [part] := by
  induction e using Expr.ofParts with
  | hstep e ih =>
    by_cases hsconcat : ∃ args, e = .call "sconcat" args
    · obtain ⟨args, rfl⟩ := hsconcat
      rw [concatParts_sconcat, concatPartsOfAll_eq] at h
      obtain ⟨arg, harg, hpart⟩ := List.mem_flatMap.mp h
      exact ih arg harg hpart
    · have hwhole := concatParts_other fun args heq => hsconcat ⟨args, heq⟩
      rw [hwhole, List.mem_singleton] at h
      rw [h, hwhole]

theorem mem_mergeTexts {items : List Expr} {part : Expr}
    (h : part ∈ mergeTexts items) : part ∈ items ∨ ∃ text, part = .str text := by
  fun_induction mergeTexts items with
  | case1 => cases h
  | case2 rest ih => exact (ih h).imp_left (List.mem_cons_of_mem _)
  | case3 text rest htext more others hmerged ih =>
      rcases List.mem_cons.mp h with rfl | hothers
      · exact Or.inr ⟨_, rfl⟩
      · rw [hmerged] at ih
        exact (ih (List.mem_cons_of_mem _ hothers)).imp_left (List.mem_cons_of_mem _)
  | case4 text rest htext hmerged ih =>
      rcases List.mem_cons.mp h with rfl | hrest
      · exact Or.inr ⟨_, rfl⟩
      · exact (ih hrest).imp_left (List.mem_cons_of_mem _)
  | case5 e rest he ih =>
      rcases List.mem_cons.mp h with rfl | hrest
      · exact Or.inl (List.mem_cons_self ..)
      · exact (ih hrest).imp_left (List.mem_cons_of_mem _)

/-- The parts of a concatenation in normal form, but for its length. -/
def mergedParts (args : List Expr) : List Expr := mergeTexts (concatPartsOfAll args)

theorem concatParts_of_mem_mergedParts {args : List Expr} {part : Expr}
    (h : part ∈ mergedParts args) : part.concatParts = [part] := by
  rcases mem_mergeTexts h with hpart | ⟨text, rfl⟩
  · exact concatParts_of_mem (e := .call "sconcat" args) hpart
  · rfl

theorem concatPartsOfAll_whole {items : List Expr}
    (h : ∀ e ∈ items, e.concatParts = [e]) : concatPartsOfAll items = items := by
  induction items with
  | nil => rfl
  | cons e rest ih =>
      rw [List.forall_mem_cons] at h
      rw [concatPartsOfAll, h.1, ih h.2]
      rfl

theorem mergeTexts_other {e : Expr} (he : ∀ text, e ≠ .str text) (rest : List Expr) :
    mergeTexts (e :: rest) = e :: mergeTexts rest := by
  cases e with
  | str text => exact absurd rfl (he text)
  | _ => rfl

/-- A change that keeps literals, and makes none, can be made before or after
merging. -/
theorem mergeTexts_map {change : Expr → Expr}
    (hliteral : ∀ text, change (.str text) = .str text)
    (hother : ∀ e text, change e = .str text → e = .str text) (items : List Expr) :
    mergeTexts (items.map change) = (mergeTexts items).map change := by
  fun_induction mergeTexts items with
  | case1 => rfl
  | case2 rest ih => simp [hliteral, mergeTexts, ih]
  | case3 text rest htext more others hmerged ih =>
      simp [hliteral, mergeTexts, htext, ih, hmerged]
  | case4 text rest htext hmerged ih =>
      rw [List.map_cons, hliteral, mergeTexts, if_neg htext, ih, List.map_cons, hliteral]
      split
      · next more others hhead =>
          obtain ⟨e, tail, hrest, he, rfl⟩ := List.map_eq_cons_iff.mp hhead
          rw [hother e more he] at hrest
          exact absurd hrest (hmerged more tail)
      · rfl
  | case5 e rest he ih =>
      rw [List.map_cons, mergeTexts_other (fun text heq => he text (hother e text heq)), ih,
        List.map_cons]

/-- A concatenation contributes its merged parts; an empty one still
contributes the empty text. -/
theorem concatParts_concatenation (args : List Expr) :
    (concatenation args).concatParts = mergedParts args ∨
      mergedParts args = [] ∧ (concatenation args).concatParts = [.str ""] := by
  have hwhole : concatPartsOfAll (mergedParts args) = mergedParts args :=
    concatPartsOfAll_whole fun _ hpart => concatParts_of_mem_mergedParts hpart
  unfold concatenation
  rw [← mergedParts]
  split
  · next hnil => exact Or.inr ⟨hnil, rfl⟩
  · next only honly =>
      refine Or.inl ?_
      split
      · rw [honly]
        exact concatParts_of_mem_mergedParts (honly ▸ List.mem_singleton_self only)
      · rw [concatParts_sconcat, ← honly, hwhole]
  · exact Or.inl hwhole

theorem exists_folded (limit : Nat) (current rest : List Expr) :
    ∃ args, folded limit current rest = .call "sconcat" args := by
  induction rest generalizing current with
  | nil => exact ⟨current, rfl⟩
  | cons e rest ih =>
      unfold folded
      split
      · exact ih _
      · exact ih _

theorem exists_foldCall (limit : Nat) (name : String) (args : List Expr) :
    ∃ others, foldCall limit name args = .call name others := by
  unfold foldCall
  split
  · next hsconcat =>
      rw [hsconcat.1]
      exact exists_folded limit [] args
  · exact ⟨args, rfl⟩

end Concat

namespace Expr

open Concat

variable {limit : Nat}

theorem foldConcats_str (text : String) : (Expr.str text).foldConcats limit = .str text :=
  rfl

theorem eq_str_of_foldConcats {e : Expr} {text : String}
    (h : e.foldConcats limit = .str text) : e = .str text := by
  rw [foldConcats_eq] at h
  cases e with
  | str => exact h
  | call name args =>
      obtain ⟨others, hcall⟩ := exists_foldCall limit name (args.map (foldConcats limit))
      cases hcall.symm.trans h
  | _ => cases h

theorem isDeclarative_foldConcats (e : Expr) :
    (e.foldConcats limit).isDeclarative = e.isDeclarative := by
  rw [foldConcats_eq]
  cases e with
  | call name args =>
      obtain ⟨others, hcall⟩ := exists_foldCall limit name (args.map (foldConcats limit))
      change (foldCall limit name (args.map (foldConcats limit))).isDeclarative = false
      rw [hcall]
      rfl
  | _ => rfl

theorem yieldsText_foldConcats (e : Expr) :
    yieldsText (e.foldConcats limit) = yieldsText e := by
  rw [foldConcats_eq]
  cases e with
  | call name args =>
      obtain ⟨others, hcall⟩ := exists_foldCall limit name (args.map (foldConcats limit))
      change yieldsText (foldCall limit name (args.map (foldConcats limit))) = _
      rw [hcall]
      rfl
  | _ => rfl

variable {expand : String → Except TemplateIssue Expr}

theorem mergedForm_sconcat (args : List Expr) :
    (Expr.call "sconcat" args).mergedForm expand =
      concatenation (args.map (mergedForm expand)) := by
  rw [mergedForm_eq expand fun _ heq => absurd (Expr.call.inj heq).1 (by decide)]
  rfl

/-- A list whose first item is the tag `%root`, written in one or in several
texts. -/
def isTagged : Expr → Bool
  | .list (first :: _) => first.literalText? == some rootTag
  | _ => false

/-- Code that is evaluated as it stands, that is no inline template and no list
with the literal `%root` in front. -/
structure Ordinary (e : Expr) : Prop where
  evaluated : e.isVerbatim = false
  notInline : ∀ args, e ≠ .call "castext" args
  noTag : ∀ rest, e ≠ .list (.str rootTag :: rest)

/-- Ordinary code that is no list tagged by several texts either. -/
structure Rewritable (e : Expr) : Prop extends e.Ordinary where
  untagged : e.isTagged = false

theorem rewritable_call {name : String} (hname : name ≠ "castext") (args : List Expr) :
    (Expr.call name args).Rewritable :=
  ⟨⟨rfl, fun _ heq => hname (Expr.call.inj heq).1, nofun⟩, rfl⟩

/-- Merging keeps the text of literals and of their concatenations. -/
theorem literalText?_mergedForm {e : Expr} (he : e.Everywhere Rewritable) :
    (e.mergedForm expand).literalText? = e.literalText? := by
  induction e using Expr.ofParts with
  | hstep e ih =>
    have hparts : ∀ part ∈ e.children,
        (part.mergedForm expand).literalText? = part.literalText? :=
      fun part hpart => ih part hpart (he.inside hpart)
    rw [mergedForm_eq expand he.here.notInline]
    cases e with
    | call name args =>
        by_cases hname : name = "sconcat"
        · subst hname
          exact (literalText?_concatenation _).trans (literalTexts?_map hparts)
        · simp [mapParts, settle, hname, literalText?]
    | list items =>
        simp only [mapParts, settle, tagged]
        split
        · split <;> rfl
        · rfl
    | _ => rfl

/-- A list that the first item does not tag is only changed in its items. -/
theorem settle_mapParts {e : Expr} (he : e.Everywhere Rewritable)
    (hsconcat : ∀ args, e ≠ .call "sconcat" args) :
    settle (e.mapParts (mergedForm expand)) = e.mapParts (mergedForm expand) := by
  cases e with
  | call name args =>
      have hname : name ≠ "sconcat" := fun heq => hsconcat args (by rw [heq])
      simp [mapParts, settle, hname]
  | list items =>
      simp only [mapParts, settle, tagged]
      split
      · next tag rest hitems =>
          obtain ⟨first, others, rfl, hfirst, -⟩ := List.map_eq_cons_iff.mp hitems
          have htext : (first.mergedForm expand).literalText? = first.literalText? :=
            literalText?_mergedForm (he.inside (List.mem_cons_self ..))
          rw [hfirst] at htext
          have htag : tag ≠ rootTag := by
            rintro rfl
            have htagged : (first.literalText? == some rootTag) = true :=
              beq_iff_eq.mpr htext.symm
            exact absurd (he.here.untagged.symm.trans htagged) (by decide)
          rw [if_neg htag]
      · rfl
  | _ => rfl

/-- The normal form, whatever was reported on the way. -/
def normalForm (expand : String → Except TemplateIssue Expr) (limit : Nat)
    (e : Expr) : Expr :=
  (e.mergedForm expand).foldConcats limit

/-- Apart from concatenations, normal forms reach only the parts. -/
theorem normalForm_eq {e : Expr} (he : e.Everywhere Rewritable)
    (hsconcat : ∀ args, e ≠ .call "sconcat" args) :
    e.normalForm expand limit = e.mapParts (normalForm expand limit) := by
  rw [normalForm, mergedForm_eq expand he.here.notInline, settle_mapParts he hsconcat,
    foldConcats_eq, mapParts_mapParts]
  cases e with
  | call name args =>
      have hname : name ≠ "sconcat" := fun heq => hsconcat args (by rw [heq])
      simp [mapParts, shortened, foldCall, hname, normalForm]
  | _ => rfl

/-- Folding leaves calls of one function calls of that function, and reaches
only the parts of all else. -/
theorem foldConcats_cases (limit : Nat) (e : Expr) :
    e.foldConcats limit = e.mapParts (foldConcats limit) ∨
      ∃ name args others, e = .call name args ∧ e.foldConcats limit = .call name others := by
  rw [foldConcats_eq]
  cases e with
  | call name args =>
      obtain ⟨others, hcall⟩ := Concat.exists_foldCall limit name (args.map (foldConcats limit))
      exact .inr ⟨name, args, others, rfl, hcall⟩
  | _ => exact .inl rfl

theorem eq_ident_of_foldConcats {e : Expr} {name : String}
    (h : e.foldConcats limit = .ident name) : e = .ident name := by
  rcases foldConcats_cases limit e with hform | ⟨_, _, _, rfl, hform⟩
  · cases e <;> cases hform.symm.trans h
    rfl
  · cases hform.symm.trans h

theorem exists_call_of_foldConcats {e : Expr} {name : String} {args : List Expr}
    (h : e.foldConcats limit = .call name args) : ∃ others, e = .call name others := by
  rcases foldConcats_cases limit e with hform | ⟨_, found, _, rfl, hform⟩
  · cases e <;> cases hform.symm.trans h
    exact ⟨_, rfl⟩
  · cases hform.symm.trans h
    exact ⟨found, rfl⟩

theorem exists_assign_of_foldConcats {e left right : Expr}
    (h : e.foldConcats limit = .binary .assign left right) :
    ∃ first second, e = .binary .assign first second ∧ second.foldConcats limit = right := by
  rcases foldConcats_cases limit e with hform | ⟨_, _, _, rfl, hform⟩
  · cases e <;> cases hform.symm.trans h
    exact ⟨_, _, rfl, rfl⟩
  · cases hform.symm.trans h

/-- What a declaration binds it binds in normal form. -/
theorem declaredName?_foldConcats {e : Expr} {name : String} (h : e.declaredName? = some name) :
    (e.foldConcats limit).declaredName? = some name := by
  have hident : ∀ {target : Expr}, target.asIdent? = some name →
      (target.foldConcats limit).asIdent? = some name := by
    intro target htarget
    cases target with
    | ident other => exact htarget
    | _ => cases htarget
  unfold declaredName? at h
  split at h
  · exact hident h
  · unfold parameterName? at h
    split at h
    · exact h
    · exact hident h
    · cases h

/-- A concatenation is a text or a call of a function that yields one. -/
theorem yieldsText_concatenation (args : List Expr) :
    Concat.yieldsText (Concat.concatenation args) = true := by
  unfold Concat.concatenation
  split
  · rfl
  · split
    · assumption
    · rfl
  · rfl

/-- Only concatenations become calls or texts of other kinds than they were. -/
theorem mergedForm_cases {e : Expr} (he : ∀ args, e ≠ .call "castext" args) :
    Concat.yieldsText (e.mergedForm expand) = true ∧ (∃ args, e = .call "sconcat" args) ∨
      (∃ items, e.mergedForm expand = .list items) ∨
        e.mergedForm expand = e.mapParts (mergedForm expand) := by
  rw [mergedForm_eq expand he]
  cases e with
  | call name args =>
      by_cases hname : name = "sconcat"
      · subst hname
        exact .inl ⟨yieldsText_concatenation _, args, rfl⟩
      · right
        right
        simp [mapParts, Concat.settle, hname]
  | list items =>
      right
      left
      simp only [mapParts, Concat.settle, Concat.tagged]
      split
      · split <;> exact ⟨_, rfl⟩
      · exact ⟨_, rfl⟩
  | _ => exact .inr (.inr rfl)

/-- Only names and inline templates become names. -/
theorem eq_ident_of_mergedForm {e : Expr} {name : String}
    (h : e.mergedForm expand = .ident name) (he : ∀ args, e ≠ .call "castext" args) :
    e = .ident name := by
  rcases mergedForm_cases he with ⟨htext, -⟩ | ⟨items, hform⟩ | hform
  · rw [h] at htext
    cases htext
  · cases hform.symm.trans h
  · cases e <;> cases hform.symm.trans h
    rfl

theorem eq_ident_of_settle {e : Expr} {name : String} (h : Concat.settle e = .ident name) :
    e = .ident name := by
  cases e with
  | call other args =>
      simp only [Concat.settle] at h
      split at h
      · have htext := yieldsText_concatenation args
        rw [h] at htext
        cases htext
      · cases h
  | list items =>
      simp only [Concat.settle, Concat.tagged] at h
      split at h
      · split at h <;> cases h
      · cases h
  | _ => exact h

theorem exists_call_of_mergedForm {e : Expr} {name : String} {args : List Expr}
    (h : e.mergedForm expand = .call name args) (he : ∀ args, e ≠ .call "castext" args)
    (hsconcat : ∀ args, e ≠ .call "sconcat" args) : ∃ others, e = .call name others := by
  rcases mergedForm_cases he with ⟨-, others, rfl⟩ | ⟨items, hform⟩ | hform
  · exact absurd rfl (hsconcat others)
  · cases hform.symm.trans h
  · cases e <;> cases hform.symm.trans h
    exact ⟨_, rfl⟩

end Expr

end SceneQuiz
