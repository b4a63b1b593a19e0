import SceneQuiz.Proofs.Template.Shown
/-!
Code that leaves helper variables alone stays so in normal form.  Merging and
folding never make an assignment or a definition of what was none, and the code
that inline templates stand for keeps its helper variables to itself.
-/

namespace SceneQuiz

namespace Expr

/-- Does a node use no `return` and no name that is kept for helper variables? -/
def isDiscreet : Expr → Bool
  | .ident name => !isHidden name
  | .call name _ => !isHidden name && name != "return"
  | .forIn var _ _ | .forRange var _ _ _ _ => !isHidden var
  | _ => true

/-- Does a node define one of the functions that blocks rely on? -/
def definesReserved : Expr → Bool
  | .binary .define (.call name _) _ => name ∈ Emit.reserved
  | _ => false

theorem permits_assign {policy : Policy} {written : Set String} {left right : Expr} :
    policy.Permits written (.binary .assign left right) ↔
      ∀ name, left = .ident name → name ∈ written := by
  cases left <;> simp [Policy.Permits]

theorem composed_obeys (policy : Policy) (written : Set String) :
    Concat.Composed (Obeys policy written) where
  text := obeys_str
  sconcat := by
    intro args
    exact ⟨fun h => (h.of_node rfl (by simp) nofun nofun).2, obeys_call (by decide)⟩
  list := by
    intro items
    exact ⟨fun h => (h.of_node rfl nofun nofun nofun).2, fun h => .node trivial h⟩

section Folding

variable {limit : Nat}

theorem permits_mapParts_foldConcats {policy : Policy} {written : Set String} {e : Expr}
    (h : policy.Permits written e) :
    policy.Permits written (e.mapParts (foldConcats limit)) := by
  cases e with
  | call name args => exact h
  | binary op left right =>
      cases op with
      | assign =>
          apply permits_assign.mpr
          exact fun name heq => permits_assign.mp h name (eq_ident_of_foldConcats heq)
      | define => exact h
      | _ => trivial
  | _ => trivial

/-- By induction on how the code obeys. -/
theorem Obeys.foldConcats {policy : Policy} {written : Set String} {e : Expr}
    (h : e.Obeys policy written) : (e.foldConcats limit).Obeys policy written := by
  induction h with
  | node hhere _ ih =>
      rw [foldConcats_eq]
      apply (composed_obeys policy _).shortened
      apply Obeys.node (permits_mapParts_foldConcats hhere)
      rw [children_mapParts]
      exact List.forall_mem_map.mpr ih
  | quote operand => exact .quote _
  | define hname _ ih =>
      refine .define (fun name params heq => ?_) ih
      obtain ⟨others, rfl⟩ := exists_call_of_foldConcats heq
      exact hname name others rfl
  | @block written declarations body _ _ ihvalues ihbody =>
      have hform : (Expr.call "block" (.list declarations :: body)).foldConcats limit =
          .call "block" (.list (declarations.map (Expr.foldConcats limit)) ::
            body.map (Expr.foldConcats limit)) := by
        rw [(Emit.partwise_foldConcats limit).call _ (by decide) (by decide), List.map_cons,
          foldConcats_eq limit (.list declarations)]
        rfl
      rw [hform]
      have hdeclared : declared declarations ⊆
          declared (declarations.map (Expr.foldConcats limit)) := by
        intro name hname
        obtain ⟨e, he, hbound⟩ := List.mem_filterMap.mp hname
        exact List.mem_filterMap.mpr
          ⟨_, List.mem_map_of_mem he, declaredName?_foldConcats hbound⟩
      apply Obeys.block
      · intro left right hmem
        obtain ⟨e, he, heq⟩ := List.mem_map.mp hmem
        obtain ⟨first, second, rfl, rfl⟩ := exists_assign_of_foldConcats heq
        exact ihvalues first second he
      · refine List.forall_mem_map.mpr fun part hpart => ?_
        exact (ihbody part hpart).mono (Set.union_subset_union_right _ hdeclared)
  | forIn _ _ ihsource ihbody => exact .forIn ihsource ihbody
  | @forRange _ _ _ _ _ step _ _ _ _ ihfirst ihstep ihlast ihbody =>
      cases step with
      | none => exact .forRange ihfirst nofun ihlast ihbody
      | some width =>
          refine .forRange ihfirst (fun found hfound => ?_) ihlast ihbody
          cases hfound
          exact ihstep width rfl

end Folding

section Merging

variable {expand : String → Except TemplateIssue Expr}

/-- What the author wrote is discreet in normal form, with the code of inline
templates that are. -/
theorem obeys_mergedForm {e : Expr}
    (he : e.Everywhere fun part => part.isDiscreet = true ∧ part.definesReserved = false)
    (hinline : ∀ {arg inlined : Expr} {source : String}, Expr.call "castext" [arg] ∈ e.parts →
      arg.mergedForm expand = .str source → expand source = .ok inlined →
        inlined.Obeys .discreet visible ∧ ∀ name, inlined ≠ .ident name) :
    (e.mergedForm expand).Obeys .discreet visible := by
  rw [everywhere_iff_parts] at he
  apply (composed_obeys .discreet visible).mergedForm
  · intro part hpart _ hparts
    obtain ⟨hdiscreet, hdefines⟩ := he part hpart
    have hchildren : ∀ child ∈ (part.mapParts (mergedForm expand)).children,
        child.Obeys .discreet visible := by
      rw [children_mapParts]
      exact List.forall_mem_map.mpr hparts
    cases part with
    | quote operand => exact .quote _
    | call name args =>
        refine .node (fun heq => ?_) hchildren
        simp [isDiscreet, heq] at hdiscreet
    | binary op left right =>
        cases op with
        | assign =>
            refine .node (permits_assign.mpr fun name heq => ?_) hchildren
            have hleft := mem_parts_trans (mem_parts_of_child (by simp [children])
              (mem_parts_self left)) hpart
            by_cases hcastext : ∃ args, left = .call "castext" args
            · obtain ⟨args, rfl⟩ := hcastext
              rcases mergedForm_castext args with
                hform | ⟨arg, source, inlined, rfl, hsource, hexpand, hform⟩
              · cases hform.symm.trans heq
              · exact absurd (eq_ident_of_settle (hform.symm.trans heq))
                  ((hinline hleft hsource hexpand).2 name)
            · obtain rfl := eq_ident_of_mergedForm heq fun args h => hcastext ⟨args, h⟩
              have hname : isHidden name = false := by simpa [isDiscreet] using (he _ hleft).1
              exact hname
        | define =>
            refine .define (fun name params heq => ?_) (hparts right (by simp [children]))
            have hfree : ∀ other args, left = .call other args → other ∉ Emit.reserved := by
              rintro other args rfl
              simpa [definesReserved] using hdefines
            obtain ⟨args, hleft⟩ := exists_call_of_mergedForm heq
              (fun args hcall => hfree _ args hcall (by decide))
              (fun args hcall => hfree _ args hcall (by decide))
            exact hfree name args hleft
        | _ => exact .node trivial hchildren
    | _ => exact .node trivial hchildren
  · intro args _ hargs
    exact obeys_call (by decide) (List.forall_mem_map.mpr hargs)
  · exact fun hcall hsource hexpand => (hinline hcall hsource hexpand).1

end Merging

end Expr

end SceneQuiz
