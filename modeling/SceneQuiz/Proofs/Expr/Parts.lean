import SceneQuiz.Proofs.Expr.Spelling
/-!
The parts of an expression as a list, so that what holds of every part can be
checked part by part.
-/

namespace SceneQuiz

mutual

/-- All expressions inside an expression, itself included. -/
def Expr.parts (e : Expr) : List Expr :=
  e :: (match e with
    | .number _ | .str _ | .bool _ | .ident _ => []
    | .call _ items | .list items | .set items | .group items => Expr.partsOfAll items
    | .index target indices => target.parts ++ Expr.partsOfAll indices
    | .neg operand | .not operand | .quote operand | .factorial operand => operand.parts
    | .binary _ left right => left.parts ++ right.parts
    | .cond branches otherwise =>
        Expr.partsOfBranches branches ++
          (match otherwise with
            | some body => body.parts
            | none => [])
    | .forIn _ source body => source.parts ++ body.parts
    | .forRange _ first step last body =>
        first.parts ++
          (match step with
            | some step => step.parts
            | none => []) ++
          last.parts ++ body.parts)
termination_by structural e

def Expr.partsOfAll (items : List Expr) : List Expr :=
  match items with
  | [] => []
  | e :: rest => e.parts ++ Expr.partsOfAll rest
termination_by structural items

def Expr.partsOfBranches (branches : List (Expr × Expr)) : List Expr :=
  match branches with
  | [] => []
  | (test, body) :: rest => test.parts ++ body.parts ++ Expr.partsOfBranches rest
termination_by structural branches

end

namespace Expr

theorem partsOfAll_eq (items : List Expr) : partsOfAll items = items.flatMap parts := by
  induction items with
  | nil => rfl
  | cons e rest ih => simp only [partsOfAll, ih, List.flatMap_cons]

theorem partsOfBranches_eq (branches : List (Expr × Expr)) :
    partsOfBranches branches =
      (branches.flatMap fun branch => [branch.1, branch.2]).flatMap parts := by
  induction branches with
  | nil => rfl
  | cons branch rest ih => simp [partsOfBranches, ih]

theorem parts_eq (e : Expr) : e.parts = e :: e.children.flatMap parts := by
  cases e with
  | cond branches otherwise =>
      cases otherwise <;> simp [parts, children, partsOfBranches_eq]
  | forRange var first step last body => cases step <;> simp [parts, children]
  | _ => simp [parts, children, partsOfAll_eq]

theorem mem_parts_self (e : Expr) : e ∈ e.parts := by
  rw [parts_eq]
  exact List.mem_cons_self

theorem mem_parts_of_child {part child e : Expr} (hchild : child ∈ e.children)
    (h : part ∈ child.parts) : part ∈ e.parts := by
  rw [parts_eq]
  exact List.mem_cons_of_mem e (List.mem_flatMap.mpr ⟨child, hchild, h⟩)

theorem mem_parts_trans {inner part e : Expr} (hinner : inner ∈ part.parts)
    (hpart : part ∈ e.parts) : inner ∈ e.parts := by
  induction e using Expr.ofParts with
  | hstep e ih =>
    rw [parts_eq, List.mem_cons] at hpart
    rcases hpart with rfl | hpart
    · exact hinner
    · obtain ⟨child, hchild, hmem⟩ := List.mem_flatMap.mp hpart
      exact mem_parts_of_child hchild (ih child hchild hmem)

theorem everywhere_iff_parts {P : Expr → Prop} {e : Expr} :
    e.Everywhere P ↔ ∀ part ∈ e.parts, P part := by
  induction e using Expr.ofParts with
  | hstep e ih =>
    rw [everywhere_iff, parts_eq, List.forall_mem_cons]
    apply and_congr_right
    intro _
    simp only [List.mem_flatMap]
    constructor
    · rintro h part ⟨child, hchild, hpart⟩
      exact (ih child hchild).mp (h child hchild) part hpart
    · exact fun h child hchild =>
        (ih child hchild).mpr fun part hpart => h part ⟨child, hchild, hpart⟩

instance {P : Expr → Prop} [DecidablePred P] (e : Expr) : Decidable (e.Everywhere P) :=
  decidable_of_iff _ everywhere_iff_parts.symm

end Expr

end SceneQuiz
