import SceneQuiz.Proofs.Machine.Shielding
import SceneQuiz.Proofs.Machine.Writes
/-!
The names that code is found to read are all that it looks at.  Code without
definitions and lambdas that is found to read no hidden name is shielded from
what the hidden names are bound to.
-/

namespace SceneQuiz

namespace Usage

/-- No hidden name is read. -/
def Spares (usage : Usage) (hidden : Set String) : Prop :=
  ∀ name ∈ usage.read, name ∉ hidden

variable {hidden : Set String} {left right : Usage}

theorem spares_union :
    (left ∪ right).Spares hidden ↔ left.Spares hidden ∧ right.Spares hidden := by
  change (∀ name ∈ left.read ∪ right.read, name ∉ hidden) ↔ _
  simp only [NameSet.mem_union, or_imp, forall_and, Spares]

theorem mem_of_spares_ofRead {bound : List String} {name : String}
    (h : (Usage.ofRead bound name).Spares hidden) (hname : name ∈ hidden) : name ∈ bound := by
  by_contra hfree
  rw [Usage.ofRead, if_neg hfree] at h
  exact h name (NameSet.mem_names.mp List.mem_cons_self) hname

end Usage

namespace Expr

/-- Whatever is bound around an expression, it is shielded if it is found to
read no hidden name. -/
def Accounted (hidden : Set String) (e : Expr) : Prop :=
  ∀ ⦃bound : List String⦄, (e.usageAs .value bound).Spares hidden →
    e.Shielded hidden {name | name ∈ bound}

variable {hidden : Set String} {bound : List String}

theorem shielded_of_usageOfAll {items : List Expr} (h : ∀ e ∈ items, e.Accounted hidden)
    (hreads : (usageOfAll items .value bound).Spares hidden) :
    ∀ e ∈ items, e.Shielded hidden {name | name ∈ bound} := by
  induction items with
  | nil => exact List.forall_mem_nil _
  | cons e rest ih =>
      rw [List.forall_mem_cons] at h ⊢
      obtain ⟨hfirst, hrest⟩ := Usage.spares_union.mp hreads
      exact ⟨h.1 hfirst, ih h.2 hrest⟩

theorem shielded_of_usageOfBranches {branches : List (Expr × Expr)}
    (h : ∀ branch ∈ branches, branch.1.Accounted hidden ∧ branch.2.Accounted hidden)
    (hreads : (usageOfBranches branches bound).Spares hidden) :
    ∀ branch ∈ branches, branch.1.Shielded hidden {name | name ∈ bound} ∧
      branch.2.Shielded hidden {name | name ∈ bound} := by
  induction branches with
  | nil => exact List.forall_mem_nil _
  | cons branch rest ih =>
      rw [List.forall_mem_cons] at h ⊢
      obtain ⟨hfirst, hrest⟩ := Usage.spares_union.mp hreads
      obtain ⟨htest, hbody⟩ := Usage.spares_union.mp hfirst
      exact ⟨⟨h.1.1 htest, h.1.2 hbody⟩, ih h.2 hrest⟩

/-- An initial value stands two steps inside the list of declarations. -/
theorem shielded_of_usageOfDeclarations {declarations : List Expr}
    (h : ∀ e ∈ declarations, e.Everywhere (Accounted hidden))
    (hreads : (usageOfDeclarations declarations bound).Spares hidden) :
    ∀ left right, .binary .assign left right ∈ declarations →
      right.Shielded hidden {name | name ∈ bound} := by
  induction declarations with
  | nil => exact nofun
  | cons e rest ih =>
      rw [List.forall_mem_cons] at h
      unfold usageOfDeclarations at hreads
      split at hreads
      · cases ‹_ :: _ = []›
      · next target value others heq =>
          obtain ⟨rfl, rfl⟩ := List.cons.inj heq
          obtain ⟨hvalue, hrest⟩ := Usage.spares_union.mp hreads
          intro left right hmem
          rcases List.mem_cons.mp hmem with hhere | hmem
          · cases hhere
            exact (h.1.inside (by simp [children])).here hvalue
          · exact ih h.2 hrest left right hmem
      · next other others hassign heq =>
          obtain ⟨rfl, rfl⟩ := List.cons.inj heq
          intro left right hmem
          rcases List.mem_cons.mp hmem with hhere | hmem
          · exact absurd hhere.symm (hassign left right)
          · exact ih h.2 hreads left right hmem

theorem accounted_call {name : String} {args : List Expr} (hlambda : name ≠ "lambda")
    (h : ∀ arg ∈ args, arg.Everywhere (Accounted hidden)) :
    (call name args).Accounted hidden := by
  intro bound hreads
  have hargs : ∀ arg ∈ args, arg.Accounted hidden := fun arg harg => (h arg harg).here
  unfold usageAs at hreads
  by_cases hblock : name = "block"
  · subst hblock
    rw [if_pos (.inl rfl)] at hreads
    split at hreads
    · exact .bare nofun nofun
    · next declarations body =>
        rw [List.forall_mem_cons] at h
        obtain ⟨hfirst, hbody⟩ := Usage.spares_union.mp hreads
        obtain ⟨hvalues, -⟩ := Usage.spares_union.mp hfirst
        apply Shielded.block
        · exact shielded_of_usageOfDeclarations (fun e he => h.1.inside he) hvalues
        · intro part hpart
          have hinside := shielded_of_usageOfAll (fun e he => (h.2 e he).here) hbody part hpart
          apply hinside.mono
          intro other hother
          exact (List.mem_append.mp hother).symm
    · next hbare =>
        obtain ⟨-, hrest⟩ := Usage.spares_union.mp hreads
        exact .bare (fun declarations body heq => hbare declarations body heq)
          (shielded_of_usageOfAll hargs hrest)
  · rw [if_neg (by simp [hblock, hlambda])] at hreads
    obtain ⟨-, hrest⟩ := Usage.spares_union.mp hreads
    have hshielded := shielded_of_usageOfAll hargs hrest
    by_cases hreturn : name = "return"
    · subst hreturn
      exact .leave hshielded
    · exact .routine (by simp [isRoutine, hblock, hreturn]) hshielded

theorem accounted_binary {op : BinOp} {left right : Expr} (hop : op ≠ .define)
    (hleft : left.Accounted hidden) (hright : right.Accounted hidden) :
    (binary op left right).Accounted hidden := by
  intro bound hreads
  by_cases hassign : op = .assign
  · subst hassign
    exact .assign left (hright (Usage.spares_union.mp hreads).1)
  · have hsides : (left.usageAs .value bound ∪ right.usageAs .value bound).Spares hidden := by
      cases op with
      | assign => exact absurd rfl hassign
      | define => exact absurd rfl hop
      | _ => exact hreads
    obtain ⟨hfirst, hsecond⟩ := Usage.spares_union.mp hsides
    exact .routine (by simp [isRoutine, hassign, hop])
      ((forall_children_two rfl).mpr ⟨hleft hfirst, hright hsecond⟩)

/-- By induction on the parts: each construct reads what its usage says. -/
theorem accounted_everywhere {e : Expr}
    (he : e.Everywhere fun part => part.makesFunction = false) :
    e.Everywhere (Accounted hidden) := by
  induction e using Expr.ofParts with
  | hstep e ih =>
    have hinside : ∀ part ∈ e.children, part.Everywhere (Accounted hidden) := fun part hpart =>
      ih part hpart (he.inside hpart)
    have hparts : ∀ part ∈ e.children, part.Accounted hidden := fun part hpart =>
      (hinside part hpart).here
    refine .node ?_ hinside
    cases e with
    | call name args =>
        have hlambda : name ≠ "lambda" := by simpa [makesFunction] using he.here
        exact accounted_call hlambda hinside
    | binary op left right =>
        rw [forall_children_two rfl] at hparts
        have hop : op ≠ .define := by
          rintro rfl
          cases he.here
        exact accounted_binary hop hparts.1 hparts.2
    | number | str | bool => exact fun _ _ => .routine rfl (List.forall_mem_nil _)
    | ident name => exact fun _ hreads => .ident (Usage.mem_of_spares_ofRead hreads)
    | quote operand => exact fun _ _ => .quote operand
    | list items | set items | group items =>
        exact fun _ hreads => .routine rfl (shielded_of_usageOfAll hparts hreads)
    | neg operand | not operand | factorial operand =>
        rw [forall_children_one rfl] at hparts
        exact fun _ hreads => .routine rfl ((forall_children_one rfl).mpr (hparts hreads))
    | index target indices =>
        rw [forall_children_index] at hparts
        intro bound hreads
        obtain ⟨hindices, htarget⟩ := Usage.spares_union.mp hreads
        rw [ite_self] at htarget
        exact .routine rfl (forall_children_index.mpr
          ⟨hparts.1 htarget, shielded_of_usageOfAll hparts.2 hindices⟩)
    | cond branches otherwise =>
        rw [forall_children_cond] at hparts
        intro bound hreads
        unfold usageAs at hreads
        obtain ⟨hbranches, hlast⟩ := Usage.spares_union.mp hreads
        refine .routine rfl (forall_children_cond.mpr
          ⟨shielded_of_usageOfBranches hparts.1 hbranches, fun body hbody => ?_⟩)
        cases hbody
        exact hparts.2 body rfl hlast
    | forIn var source body =>
        rw [forall_children_two rfl] at hparts
        intro bound hreads
        obtain ⟨hsource, hbody⟩ := Usage.spares_union.mp hreads
        apply Shielded.forIn (hparts.1 hsource)
        exact (hparts.2 hbody).mono fun name hname => by simpa using hname
    | forRange var first step last body =>
        rw [forall_children_forRange] at hparts
        obtain ⟨hfirst, hstep, hlast, hbody⟩ := hparts
        intro bound hreads
        unfold usageAs at hreads
        obtain ⟨hrest, hrounds⟩ := Usage.spares_union.mp hreads
        obtain ⟨hrest, hend⟩ := Usage.spares_union.mp hrest
        obtain ⟨hstart, hwidth⟩ := Usage.spares_union.mp hrest
        apply Shielded.forRange (hfirst hstart) _ (hlast hend)
        · exact (hbody hrounds).mono fun name hname => by simpa using hname
        · intro width hmem
          cases hmem
          exact hstep width rfl hwidth

/-- Code that makes no function and is found to read no hidden name is
shielded. -/
theorem shielded_of_usage {e : Expr}
    (he : e.Everywhere fun part => part.makesFunction = false) (hreads : e.usage.Spares hidden) :
    e.Shielded hidden ∅ :=
  ((accounted_everywhere he).here hreads).mono (by simp)

end Expr

end SceneQuiz
