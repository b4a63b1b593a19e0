import SceneQuiz.Proofs.Expr.Parts
import SceneQuiz.Proofs.Machine.Obedience
/-!
The names that code is found to write are all that it assigns.  Code without
definitions and lambdas obeys the policy that allows exactly the names that its
usage reports, whatever is bound around it.  So where no function is defined,
evaluation leaves all other names alone, however it ends.
-/

namespace SceneQuiz

namespace Usage

/-- Every name that the code writes is in a set. -/
def WritesIn (usage : Usage) (written : Set String) : Prop :=
  ∀ name ∈ usage.write, name ∈ written

variable {written : Set String} {left right : Usage}

theorem writesIn_union :
    (left ∪ right).WritesIn written ↔ left.WritesIn written ∧ right.WritesIn written := by
  change (∀ name ∈ left.write ∪ right.write, name ∈ written) ↔ _
  simp only [NameSet.mem_union, or_imp, forall_and, WritesIn]

theorem WritesIn.mono {allowed : Set String} {usage : Usage} (h : usage.WritesIn written)
    (hsub : written ⊆ allowed) : usage.WritesIn allowed :=
  fun name hname => hsub (h name hname)

theorem mem_of_writesIn_ofWrite {bound : List String} {name : String}
    (h : (Usage.ofWrite bound name).WritesIn written)
    (hbound : ∀ other ∈ bound, other ∈ written) : name ∈ written := by
  by_cases hmem : name ∈ bound
  · exact hbound name hmem
  · rw [Usage.ofWrite, if_neg hmem] at h
    exact h name (NameSet.mem_names.mp List.mem_cons_self)

end Usage

namespace Expr

/-- Code that makes a function: a definition or a `lambda`. -/
def makesFunction : Expr → Bool
  | .binary .define _ _ => true
  | .call name _ => name == "lambda"
  | _ => false

/-- Whatever is bound around an expression, it obeys a policy that allows the
names it writes. -/
def Covered (policy : Policy) (e : Expr) : Prop :=
  ∀ ⦃role : Role⦄ ⦃bound : List String⦄ ⦃written : Set String⦄,
    (e.usageAs role bound).WritesIn written → (∀ name ∈ bound, name ∈ written) →
      e.Obeys policy written

variable {policy : Policy} {written : Set String} {bound : List String}

theorem obeys_of_usageOfAll {items : List Expr} (h : ∀ e ∈ items, e.Covered policy)
    {role : Role} (hwrites : (usageOfAll items role bound).WritesIn written)
    (hbound : ∀ name ∈ bound, name ∈ written) : ∀ e ∈ items, e.Obeys policy written := by
  induction items with
  | nil => exact List.forall_mem_nil _
  | cons e rest ih =>
      rw [List.forall_mem_cons] at h ⊢
      obtain ⟨hfirst, hrest⟩ := Usage.writesIn_union.mp hwrites
      exact ⟨h.1 hfirst hbound, ih h.2 hrest⟩

theorem obeys_of_usageOfBranches {branches : List (Expr × Expr)}
    (h : ∀ branch ∈ branches, branch.1.Covered policy ∧ branch.2.Covered policy)
    (hwrites : (usageOfBranches branches bound).WritesIn written)
    (hbound : ∀ name ∈ bound, name ∈ written) :
    ∀ branch ∈ branches, branch.1.Obeys policy written ∧ branch.2.Obeys policy written := by
  induction branches with
  | nil => exact List.forall_mem_nil _
  | cons branch rest ih =>
      rw [List.forall_mem_cons] at h ⊢
      obtain ⟨hfirst, hrest⟩ := Usage.writesIn_union.mp hwrites
      obtain ⟨htest, hbody⟩ := Usage.writesIn_union.mp hfirst
      exact ⟨⟨h.1.1 htest hbound, h.1.2 hbody hbound⟩, ih h.2 hrest⟩

/-- An initial value stands two steps inside the list of declarations. -/
theorem obeys_of_usageOfDeclarations {declarations : List Expr}
    (h : ∀ e ∈ declarations, e.Everywhere (Covered policy))
    (hwrites : (usageOfDeclarations declarations bound).WritesIn written)
    (hbound : ∀ name ∈ bound, name ∈ written) :
    ∀ left right, .binary .assign left right ∈ declarations → right.Obeys policy written := by
  induction declarations with
  | nil => exact nofun
  | cons e rest ih =>
      rw [List.forall_mem_cons] at h
      unfold usageOfDeclarations at hwrites
      split at hwrites
      · cases ‹_ :: _ = []›
      · next target value others heq =>
          obtain ⟨rfl, rfl⟩ := List.cons.inj heq
          obtain ⟨hvalue, hrest⟩ := Usage.writesIn_union.mp hwrites
          intro left right hmem
          rcases List.mem_cons.mp hmem with hhere | hmem
          · cases hhere
            exact (h.1.inside (by simp [children])).here hvalue hbound
          · exact ih h.2 hrest left right hmem
      · next other others hassign heq =>
          obtain ⟨rfl, rfl⟩ := List.cons.inj heq
          intro left right hmem
          rcases List.mem_cons.mp hmem with hhere | hmem
          · exact absurd hhere.symm (hassign left right)
          · exact ih h.2 hwrites left right hmem

theorem covered_call {name : String} {args : List Expr} (hreturns : policy.returns)
    (hlambda : name ≠ "lambda") (h : ∀ arg ∈ args, arg.Everywhere (Covered policy)) :
    (call name args).Covered policy := by
  intro role bound written hwrites hbound
  have hargs : ∀ arg ∈ args, arg.Covered policy := fun arg harg => (h arg harg).here
  unfold usageAs at hwrites
  by_cases hblock : name = "block"
  · subst hblock
    rw [if_pos (.inl rfl)] at hwrites
    split at hwrites
    · exact .node (fun _ => hreturns) nofun
    · next declarations body =>
        rw [List.forall_mem_cons] at h
        obtain ⟨hfirst, hbody⟩ := Usage.writesIn_union.mp hwrites
        obtain ⟨hvalues, -⟩ := Usage.writesIn_union.mp hfirst
        apply Obeys.block
        · exact obeys_of_usageOfDeclarations (fun e he => h.1.inside he) hvalues hbound
        · apply obeys_of_usageOfAll (fun e he => (h.2 e he).here)
            (hbody.mono Set.subset_union_left)
          intro other hother
          rcases List.mem_append.mp hother with hdeclared | hother
          · exact .inr hdeclared
          · exact .inl (hbound other hother)
    · obtain ⟨-, hrest⟩ := Usage.writesIn_union.mp hwrites
      exact .node (fun _ => hreturns) (obeys_of_usageOfAll hargs hrest hbound)
  · rw [if_neg (by simp [hblock, hlambda])] at hwrites
    obtain ⟨-, hrest⟩ := Usage.writesIn_union.mp hwrites
    exact .node (fun _ => hreturns) (obeys_of_usageOfAll hargs hrest hbound)

theorem covered_binary {op : BinOp} {left right : Expr} (hop : op ≠ .define)
    (hleft : left.Covered policy) (hright : right.Covered policy) :
    (binary op left right).Covered policy := by
  intro role bound written hwrites hbound
  by_cases hassign : op = .assign
  · subst hassign
    obtain ⟨hvalue, htarget⟩ := Usage.writesIn_union.mp hwrites
    apply Obeys.node
    · cases left with
      | ident name => exact Usage.mem_of_writesIn_ofWrite htarget hbound
      | _ => trivial
    · exact (forall_children_two rfl).mpr ⟨hleft htarget hbound, hright hvalue hbound⟩
  · have hsides : (left.usageAs .value bound ∪ right.usageAs .value bound).WritesIn written := by
      cases op with
      | assign => exact absurd rfl hassign
      | define => exact absurd rfl hop
      | _ => exact hwrites
    obtain ⟨hfirst, hsecond⟩ := Usage.writesIn_union.mp hsides
    apply Obeys.node
    · cases op with
      | assign => exact absurd rfl hassign
      | define => exact absurd rfl hop
      | _ => trivial
    · exact (forall_children_two rfl).mpr ⟨hleft hfirst hbound, hright hsecond hbound⟩

/-- By induction on the parts: each construct assigns what its usage says. -/
theorem covered_everywhere {e : Expr} (hreturns : policy.returns)
    (he : e.Everywhere fun part => part.makesFunction = false) :
    e.Everywhere (Covered policy) := by
  induction e using Expr.ofParts with
  | hstep e ih =>
    have hinside : ∀ part ∈ e.children, part.Everywhere (Covered policy) := fun part hpart =>
      ih part hpart (he.inside hpart)
    have hparts : ∀ part ∈ e.children, part.Covered policy := fun part hpart =>
      (hinside part hpart).here
    refine .node ?_ hinside
    cases e with
    | call name args =>
        have hlambda : name ≠ "lambda" := by simpa [makesFunction] using he.here
        exact covered_call hreturns hlambda hinside
    | binary op left right =>
        rw [forall_children_two rfl] at hparts
        have hop : op ≠ .define := by
          rintro rfl
          cases he.here
        exact covered_binary hop hparts.1 hparts.2
    | number | str | bool | ident => exact fun _ _ _ _ _ => .node trivial nofun
    | quote operand => exact fun _ _ _ _ _ => .quote operand
    | list items | set items | group items =>
        exact fun _ _ _ hwrites hbound => .node trivial (obeys_of_usageOfAll hparts hwrites hbound)
    | neg operand | not operand | factorial operand =>
        rw [forall_children_one rfl] at hparts
        exact fun _ _ _ hwrites hbound =>
          .node trivial ((forall_children_one rfl).mpr (hparts hwrites hbound))
    | index target indices =>
        rw [forall_children_index] at hparts
        intro role bound written hwrites hbound
        obtain ⟨hindices, htarget⟩ := Usage.writesIn_union.mp hwrites
        exact .node trivial (forall_children_index.mpr
          ⟨hparts.1 htarget hbound, obeys_of_usageOfAll hparts.2 hindices hbound⟩)
    | cond branches otherwise =>
        rw [forall_children_cond] at hparts
        intro role bound written hwrites hbound
        unfold usageAs at hwrites
        obtain ⟨hbranches, hlast⟩ := Usage.writesIn_union.mp hwrites
        refine .node trivial (forall_children_cond.mpr
          ⟨obeys_of_usageOfBranches hparts.1 hbranches hbound, fun body hbody => ?_⟩)
        cases hbody
        exact hparts.2 body rfl hlast hbound
    | forIn var source body =>
        rw [forall_children_two rfl] at hparts
        intro role bound written hwrites hbound
        obtain ⟨hsource, hbody⟩ := Usage.writesIn_union.mp hwrites
        apply Obeys.forIn (hparts.1 hsource hbound)
        apply hparts.2 (hbody.mono (Set.subset_insert var written))
        simpa using fun name hname => .inr (hbound name hname)
    | forRange var first step last body =>
        rw [forall_children_forRange] at hparts
        obtain ⟨hfirst, hstep, hlast, hbody⟩ := hparts
        intro role bound written hwrites hbound
        unfold usageAs at hwrites
        obtain ⟨hrest, hrounds⟩ := Usage.writesIn_union.mp hwrites
        obtain ⟨hrest, hend⟩ := Usage.writesIn_union.mp hrest
        obtain ⟨hstart, hwidth⟩ := Usage.writesIn_union.mp hrest
        apply Obeys.forRange (hfirst hstart hbound) _ (hlast hend hbound)
        · apply hbody (hrounds.mono (Set.subset_insert var written))
          simpa using fun name hname => .inr (hbound name hname)
        · intro width hmem
          cases hmem
          exact hstep width rfl hwidth hbound

/-- Code that makes no function obeys a policy that allows what it writes. -/
theorem obeys_of_usage {e : Expr} (hreturns : policy.returns)
    (he : e.Everywhere fun part => part.makesFunction = false)
    (hwrites : e.usage.WritesIn written) : e.Obeys policy written :=
  (covered_everywhere hreturns he).here hwrites nofun

end Expr

namespace Eval

/-- Does a run end in a division by zero? -/
def dividesByZero {α : Type} : EStateM.Result EvalError Machine α → Bool
  | .error .divisionByZero _ => true
  | _ => false

theorem exists_of_dividesByZero {α : Type} {result : EStateM.Result EvalError Machine α}
    (h : dividesByZero result = true) : ∃ after, result = .error .divisionByZero after := by
  unfold dividesByZero at h
  split at h
  · exact ⟨_, rfl⟩
  · cases h

end Eval

namespace Policy

/-- Only some variables may be assigned; nothing else is restricted. -/
def assigning (written : Set String) : Policy := ⟨written, Set.univ, Set.univ, True⟩

theorem governs_assigning {written : Set String} {machine : Machine}
    (h : ∀ name function, machine.functions.get? name = some function →
      function.body.Obeys (assigning written) written) :
    (assigning written).Governs machine :=
  ⟨fun name function hfunction => ⟨trivial, h name function hfunction⟩,
    fun _ _ _ => ⟨trivial, .inl trivial⟩⟩

end Policy

namespace Expr

/-- Without functions, code that may assign some names keeps every scope's
binding of the others. -/
theorem Obeys.keeps_bindings {written : Set String} {e : Expr}
    (h : e.Obeys (.assigning written) written) {machine after : Machine}
    (hfunctions : ∀ name, machine.functions.get? name = none)
    {outcome : Except EvalError Value} (hrun : e.eval machine = Eval.lift outcome after)
    {name : String} (hname : name ∉ written) :
    after.env.column name = machine.env.column name := by
  have hgoverns : (Policy.assigning written).Governs machine := by
    apply Policy.governs_assigning
    intro other function hfound
    rw [hfunctions other] at hfound
    cases hfound
  obtain ⟨hkept, -⟩ :=
    (Eval.Keeps.evalWithin machine.remaining (Set.Subset.refl _) h).ends hgoverns hrun
  exact (hkept.changes name).2 hname

/-- Evaluation of code that makes no function, in a value or in an error, leaves
every name that is not among its writes with the binding it had before, in every
scope. -/
theorem eval_keeps_unwritten {e : Expr} (he : e.Everywhere fun part => part.makesFunction = false)
    {machine after : Machine} (hfunctions : ∀ name, machine.functions.get? name = none)
    {outcome : Except EvalError Value} (hrun : e.eval machine = Eval.lift outcome after)
    {name : String} (hname : name ∉ e.usage.write) :
    after.env.column name = machine.env.column name := by
  have hobeys : e.Obeys (.assigning {written | written ∈ e.usage.write})
      {written | written ∈ e.usage.write} :=
    obeys_of_usage trivial he fun _ hwritten => hwritten
  exact hobeys.keeps_bindings hfunctions hrun hname

/-- A block that binds `x` and a loop that binds `i`; the loop assigns `y` and
fails in its second round. -/
def failingLoop : Expr :=
  .block [.assign "x" (.number "2")]
    [.forIn "i" (.list [.number "1", .number "2"])
      (.assign "y" (.binary .div (.number "1") (.binary .sub (.ident "x") (.ident "i"))))]

/-- The names of the loop are bound around it, in two scopes. -/
def loopMachine : Machine :=
  { Machine.fresh 100 with
    env := (Environment.initial.assign "i" (.int 7)).under
      (NameMap.ofList [("x", .int 8), ("y", .int 9)]) }

theorem failingLoop_keeps_unwritten :
    (failingLoop.Everywhere fun part => part.makesFunction = false) ∧
    (∀ name, loopMachine.functions.get? name = none) ∧
    ∃ after, failingLoop.eval loopMachine = Eval.lift (.error .divisionByZero) after ∧
      ∀ name ∈ ["x", "i"], name ∉ failingLoop.usage.write ∧
        after.env.column name = loopMachine.env.column name := by
  have hplain : failingLoop.Everywhere fun part => part.makesFunction = false := by
    decide +kernel
  have hfunctions : ∀ name, loopMachine.functions.get? name = none := fun _ => rfl
  have hunwritten : ∀ name ∈ ["x", "i"], name ∉ failingLoop.usage.write := by
    decide +kernel
  obtain ⟨after, hrun⟩ := Eval.exists_of_dividesByZero
    (by decide +kernel : Eval.dividesByZero (failingLoop.eval loopMachine) = true)
  have hends : failingLoop.eval loopMachine = Eval.lift (.error .divisionByZero) after := hrun
  exact ⟨hplain, hfunctions, after, hends, fun name hname => ⟨hunwritten name hname,
    eval_keeps_unwritten hplain hfunctions hends (hunwritten name hname)⟩⟩

end Expr

end SceneQuiz
