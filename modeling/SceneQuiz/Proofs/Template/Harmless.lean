import SceneQuiz.Proofs.Template.RestrainedCode
/-!
What an author has to keep to, in a form that can be checked: some names are
assigned nowhere, and every `return` stands inside a block of the same code.
Code that keeps to it is restrained, and so is what a template of such code
compiles to.
-/

namespace SceneQuiz

mutual

/-- Does every `return` stand inside a block?  With `caught` there is a block
around the code already, which a function does not see. -/
def Expr.confined (caught : Bool) (e : Expr) : Bool :=
  match e with
  | .number _ | .str _ | .bool _ | .ident _ | .quote _ => true
  | .call "block" (.list declarations :: body) =>
      Expr.allConfined caught declarations && Expr.allConfined true body
  | .call "block" args => Expr.allConfined true args
  | .call "return" args => caught && Expr.allConfined caught args
  | .call _ items | .list items | .set items | .group items => Expr.allConfined caught items
  | .index target indices => target.confined caught && Expr.allConfined caught indices
  | .neg operand | .not operand | .factorial operand => operand.confined caught
  | .binary .define _ body => body.confined false
  | .binary _ left right => left.confined caught && right.confined caught
  | .cond branches otherwise =>
      Expr.branchesConfined caught branches &&
        (match otherwise with
          | some body => body.confined caught
          | none => true)
  | .forIn _ source body => source.confined caught && body.confined caught
  | .forRange _ first step last body =>
      first.confined caught &&
        (match step with
          | some step => step.confined caught
          | none => true) &&
        last.confined caught && body.confined caught
termination_by structural e

def Expr.allConfined (caught : Bool) (items : List Expr) : Bool :=
  match items with
  | [] => true
  | e :: rest => e.confined caught && Expr.allConfined caught rest
termination_by structural items

def Expr.branchesConfined (caught : Bool) (branches : List (Expr × Expr)) : Bool :=
  match branches with
  | [] => true
  | (test, body) :: rest =>
      test.confined caught && body.confined caught && Expr.branchesConfined caught rest
termination_by structural branches

end

namespace Expr

theorem allConfined_iff {caught : Bool} {items : List Expr} :
    allConfined caught items = true ↔ ∀ e ∈ items, e.confined caught = true := by
  induction items with
  | nil => simp [allConfined]
  | cons e rest ih => simp [allConfined, ih]

theorem branchesConfined_iff {caught : Bool} {branches : List (Expr × Expr)} :
    branchesConfined caught branches = true ↔
      ∀ branch ∈ branches, branch.1.confined caught = true ∧ branch.2.confined caught = true := by
  induction branches with
  | nil => simp [branchesConfined]
  | cons branch rest ih => simp [branchesConfined, ih]

theorem confined_block {caught : Bool} {declarations body : List Expr}
    (h : (Expr.call "block" (.list declarations :: body)).confined caught = true) :
    (Expr.list declarations).confined caught = true ∧
      ∀ part ∈ body, part.confined true = true := by
  simp only [confined, Bool.and_eq_true] at h ⊢
  exact ⟨h.1, allConfined_iff.mp h.2⟩

theorem confined_bare {caught : Bool} {args : List Expr}
    (hbare : ∀ declarations body, args ≠ .list declarations :: body)
    (h : (Expr.call "block" args).confined caught = true) :
    ∀ arg ∈ args, arg.confined true = true := by
  unfold confined at h
  split at h
  all_goals simp_all [allConfined_iff]

/-- Code that only passes on what its parts do is confined if they are. -/
theorem confined_parts {caught : Bool} {e : Expr} (he : e.isOpen = true)
    (h : e.confined caught = true) : ∀ part ∈ e.children, part.confined caught = true := by
  cases e with
  | call name args =>
      simp only [isOpen, Bool.and_eq_true, bne_iff_ne] at he
      unfold confined at h
      split at h
      all_goals simp_all [allConfined_iff, children]
  | binary op left right =>
      cases op with
      | assign | define => cases he
      | _ => simpa [confined, children] using h
  | cond branches otherwise =>
      cases otherwise <;> simp [confined, branchesConfined_iff] at h <;>
        exact forall_children_cond.mpr (by simpa using h)
  | forRange var first step last body =>
      cases step <;> simp [confined] at h <;>
        exact forall_children_forRange.mpr (by simpa [and_assoc] using h)
  | quote operand => cases he
  | number | str | bool | ident => exact List.forall_mem_nil _
  | _ => simpa [confined, children, allConfined_iff] using h

/-- Does a node assign one of the names? -/
def assigns (names : List String) : Expr → Bool
  | .binary .assign (.ident name) _ => name ∈ names
  | _ => false

/-- Code that assigns none of the names and leaves no block around it. -/
structure Harmless (names : List String) (e : Expr) : Prop where
  unassigned : e.Everywhere fun part => part.assigns names = false
  confined : e.confined false = true

theorem harmless_iff {names : List String} {e : Expr} : e.Harmless names ↔
    (e.Everywhere fun part => part.assigns names = false) ∧ e.confined false = true :=
  ⟨fun h => ⟨h.unassigned, h.confined⟩, fun h => ⟨h.1, h.2⟩⟩

instance (names : List String) (e : Expr) : Decidable (e.Harmless names) :=
  decidable_of_iff _ harmless_iff.symm

/-- By induction on the parts: a definition and a block decide what their parts
have around them. -/
theorem restrained_of_confined {rule : Restraint} {names : List String}
    (hkept : ∀ name ∈ rule.kept, name ∈ names) {e : Expr} {caught : Bool}
    (hassigns : e.Everywhere fun part => part.assigns names = false)
    (hconfined : e.confined caught = true) : e.Restrained rule caught := by
  induction e using Expr.ofParts generalizing caught with
  | hstep e ih =>
    have hpart : ∀ part ∈ e.children, ∀ {caught : Bool}, part.confined caught = true →
        part.Restrained rule caught := fun part hmem => ih part hmem (hassigns.inside hmem)
    by_cases he : e.isOpen = true
    · exact .node he fun part hmem => hpart part hmem (confined_parts he hconfined part hmem)
    · cases e with
      | quote operand => exact .quote operand
      | binary op left right =>
          cases op with
          | define => exact .define left (hpart right (by simp [children]) hconfined)
          | assign =>
              simp only [Expr.confined, Bool.and_eq_true] at hconfined
              refine .assign ?_ (hpart right (by simp [children]) hconfined.2)
              rintro name rfl hname
              have hhere := hassigns.here
              simp [assigns, hkept name hname] at hhere
          | _ => exact absurd rfl he
      | call name args =>
          by_cases hreturn : name = "return"
          · subst hreturn
            simp only [Expr.confined, Bool.and_eq_true] at hconfined
            obtain ⟨rfl, hargs⟩ := hconfined
            exact .leave fun arg harg => hpart arg harg (allConfined_iff.mp hargs arg harg)
          · have hname : name = "block" := by simpa [isOpen, hreturn] using he
            subst hname
            by_cases hlocals : ∃ declarations body, args = .list declarations :: body
            · obtain ⟨declarations, body, rfl⟩ := hlocals
              obtain ⟨hlist, hbody⟩ := confined_block hconfined
              apply Restrained.of_locals
              · intro declaration hmem
                exact .of_restrained
                  ((hpart _ List.mem_cons_self hlist).of_open rfl declaration hmem)
              · exact fun part hmem => hpart part (List.mem_cons_of_mem _ hmem) (hbody part hmem)
            · have hbare : ∀ declarations body, args ≠ .list declarations :: body :=
                fun declarations body heq => hlocals ⟨declarations, body, heq⟩
              exact .bare hbare fun arg harg =>
                hpart arg harg (confined_bare hbare hconfined arg harg)
      | _ => exact absurd rfl he

theorem Harmless.restrained {rule : Restraint} {names : List String} {e : Expr}
    (h : e.Harmless names) (hkept : ∀ name ∈ rule.kept, name ∈ names) :
    e.Restrained rule false :=
  restrained_of_confined hkept h.unassigned h.confined

end Expr

end SceneQuiz
