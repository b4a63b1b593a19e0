import SceneQuiz.Proofs.Expr.Spelling
import SceneQuiz.Proofs.Machine.Trappable
/-!
What constructs pass on from their parts.  A relation between runs that holds of
computations on values, and of runs one after the other if it holds of each,
holds of the constructs whose parts it relates.  The parts may be those of one
expression, evaluated in two ways, or those of an expression and of a changed
copy of it.  A property of runs is such a relation that looks at one side only.
-/

namespace SceneQuiz

namespace Expr

/-- An expression with a change made to each of its parts. -/
def mapParts (change : Expr → Expr) : Expr → Expr
  | .number text => .number text
  | .str text => .str text
  | .bool value => .bool value
  | .ident name => .ident name
  | .call name args => .call name (args.map change)
  | .index target indices => .index (change target) (indices.map change)
  | .list items => .list (items.map change)
  | .set items => .set (items.map change)
  | .group items => .group (items.map change)
  | .neg operand => .neg (change operand)
  | .not operand => .not (change operand)
  | .quote operand => .quote (change operand)
  | .factorial operand => .factorial (change operand)
  | .binary op left right => .binary op (change left) (change right)
  | .cond branches otherwise =>
      .cond (branches.map fun branch => (change branch.1, change branch.2))
        (otherwise.map change)
  | .forIn var source body => .forIn var (change source) (change body)
  | .forRange var first step last body =>
      .forRange var (change first) (step.map change) (change last) (change body)

theorem mapParts_id (e : Expr) : e.mapParts (fun part => part) = e := by
  cases e <;> simp [mapParts]

/-- Code that only passes on what its parts do: it neither reads nor binds a
name, and neither assigns, defines nor leaves. -/
def isRoutine : Expr → Bool
  | .ident _ | .quote _ | .forIn _ _ _ | .forRange _ _ _ _ _ => false
  | .binary op _ _ => op != .assign && op != .define
  | .call name _ => name != "block" && name != "return"
  | _ => true

end Expr

namespace Eval

/-- Relations between runs that pass through computations on values, from run to
run, and through traps of errors. -/
structure Compositional (rel : ∀ {α : Type}, Eval α → Eval α → Prop) : Prop where
  lifted : ∀ {α : Type} {outcome : Except EvalError α}, Trappable outcome →
    rel (lift outcome) (lift outcome)
  bind : ∀ {α β : Type} {run other : Eval α} {next more : α → Eval β}, rel run other →
    (∀ value, rel (next value) (more value)) → rel (run >>= next) (other >>= more)
  trapped : ∀ {ev other : Expr → Eval Value} {body code : List Expr},
    rel (sequence ev (.bool false) body) (sequence other (.bool false) code) →
      rel (Eval.trapped ev body) (Eval.trapped other code)

namespace Compositional

variable {rel : ∀ {α : Type}, Eval α → Eval α → Prop} (hrel : Compositional rel)
  {α : Type} {ev : Expr → Eval Value}

include hrel

theorem value (value : α) : rel (pure value) (pure value) := by
  have hvalue : Trappable (.ok value : Except EvalError α) := trivial
  exact hrel.lifted hvalue

theorem failed {error : EvalError} (h : error.isCatchable = true) :
    rel (throw error : Eval α) (throw error) := by
  have herror : Trappable (.error error : Except EvalError α) := h
  exact hrel.lifted herror

variable (other : Expr → Eval Value) (change : Expr → Expr)

theorem all {items : List Expr} (h : ∀ e ∈ items, rel (ev e) (other (change e))) :
    rel (Eval.all ev items) (Eval.all other (items.map change)) := by
  induction items with
  | nil => exact hrel.value []
  | cons e rest ih =>
      rw [List.forall_mem_cons] at h
      exact hrel.bind h.1 fun first => hrel.bind (ih h.2) fun values => hrel.value _

theorem sequence {items : List Expr} (h : ∀ e ∈ items, rel (ev e) (other (change e)))
    (last : Value) :
    rel (Eval.sequence ev last items) (Eval.sequence other last (items.map change)) := by
  induction items generalizing last with
  | nil => exact hrel.value last
  | cons e rest ih =>
      rw [List.forall_mem_cons] at h
      exact hrel.bind h.1 fun result => ih h.2 result

theorem condition {test : Expr} (h : rel (ev test) (other (change test))) :
    rel (Eval.condition ev test) (Eval.condition other (change test)) := by
  apply hrel.bind h
  intro result
  cases result with
  | bool truth => exact hrel.value truth
  | _ => exact hrel.failed rfl

theorem items {indices : List Expr} (h : ∀ e ∈ indices, rel (ev e) (other (change e)))
    (target : Value) :
    rel (Eval.items ev target indices) (Eval.items other target (indices.map change)) := by
  induction indices generalizing target with
  | nil => exact hrel.value target
  | cons e rest ih =>
      rw [List.forall_mem_cons] at h
      apply hrel.bind h.1
      intro index
      exact hrel.bind (hrel.lifted (target.trappable_item index)) fun found => ih h.2 found

theorem branches {tests : List (Expr × Expr)} {otherwise : Option Expr}
    (h : ∀ branch ∈ tests, rel (ev branch.1) (other (change branch.1)) ∧
      rel (ev branch.2) (other (change branch.2)))
    (hlast : ∀ body ∈ otherwise, rel (ev body) (other (change body))) :
    rel (Eval.branches ev otherwise tests)
      (Eval.branches other (otherwise.map change)
        (tests.map fun branch => (change branch.1, change branch.2))) := by
  induction tests with
  | nil =>
      cases otherwise with
      | some body => exact hlast body rfl
      | none => exact hrel.value _
  | cons branch rest ih =>
      rw [List.forall_mem_cons] at h
      apply hrel.bind (hrel.condition other change h.1.1)
      intro truth
      cases truth with
      | true => exact h.1.2
      | false => exact ih h.2

theorem members {source : Expr} (h : rel (ev source) (other (change source))) :
    rel (Eval.members ev source) (Eval.members other (change source)) := by
  apply hrel.bind h
  intro result
  cases result with
  | list found | set found => exact hrel.value found
  | _ => exact hrel.failed rfl

theorem rangeOf {first last : Expr} {step : Option Expr}
    (hfirst : rel (ev first) (other (change first)))
    (hstep : ∀ width ∈ step, rel (ev width) (other (change width)))
    (hlast : rel (ev last) (other (change last))) :
    rel (Eval.rangeOf ev first step last)
      (Eval.rangeOf other (change first) (step.map change) (change last)) := by
  have hbounds : ∀ low width, rel (do lift (Value.range low width (← ev last)))
      (do lift (Value.range low width (← other (change last)))) := fun low width =>
    hrel.bind hlast fun high => hrel.lifted (Value.trappable_range low width high)
  apply hrel.bind hfirst
  intro low
  cases step with
  | some width => exact hrel.bind (hstep width rfl) fun found => hbounds low found
  | none => exact hbounds low (.int 1)

/-- A loop, if the relation passes through scopes and bears its variable. -/
theorem loop {var : String} {body : Expr}
    (hscope : ∀ {run more : Eval Unit}, rel run more → rel (inScope [] run) (inScope [] more))
    (hbound : ∀ value, rel (modifyEnv (·.define var value)) (modifyEnv (·.define var value)))
    (hbody : rel (ev body) (other (change body))) (values : List Value) :
    rel (Eval.loop ev var body values) (Eval.loop other var (change body) values) := by
  have hrounds : rel (Eval.forEach ev var body values)
      (Eval.forEach other var (change body) values) := by
    induction values with
    | nil => exact hrel.value ()
    | cons first rest ih =>
        exact hrel.bind (hbound first) fun _ => hrel.bind hbody fun _ => ih
  exact hrel.bind (hscope hrounds) fun _ => hrel.value _

/-- A `return`, if the relation bears one. -/
theorem leave {args : List Expr}
    (hreturns : ∀ value, rel (throw (.returned value) : Eval Value) (throw (.returned value)))
    (h : ∀ e ∈ args, rel (ev e) (other (change e))) :
    rel (Eval.leave ev args) (Eval.leave other (args.map change)) := by
  match args with
  | [] => exact hreturns _
  | [e] => exact hrel.bind (h e (List.mem_singleton_self e)) fun found => hreturns found
  | first :: second :: rest =>
      simp only [Eval.leave, List.map_cons, List.length_cons, List.length_map]
      exact hrel.failed rfl

/-- Code that only passes on what its parts do, if the relation bears calls. -/
theorem routine {e : Expr} (he : e.isRoutine = true)
    (hparts : ∀ part ∈ e.children, rel (ev part) (other (change part)))
    (hcalls : ∀ name args, rel (Eval.apply ev name args) (Eval.apply other name args)) :
    rel (Eval.step ev e) (Eval.step other (e.mapParts change)) := by
  cases e with
  | ident | quote | forIn | forRange => cases he
  | number text =>
      simp only [Expr.mapParts, Eval.step]
      split
      · exact hrel.value _
      · exact hrel.failed rfl
  | str | bool => exact hrel.value _
  | call name args =>
      simp only [Expr.isRoutine, Bool.and_eq_true, bne_iff_ne] at he
      simp only [Expr.mapParts, Eval.step, Eval.call, he.1, he.2, if_false]
      split
      · exact hrel.trapped (hrel.sequence other change hparts _)
      · exact hrel.bind (hrel.all other change hparts) fun values => hcalls name values
  | binary op left right =>
      rw [Expr.forall_children_two rfl] at hparts
      have hleft := hrel.condition other change hparts.1
      have hright := hrel.condition other change hparts.2
      cases op with
      | assign | define => cases he
      | and =>
          apply hrel.bind hleft
          intro truth
          cases truth with
          | true => exact hrel.bind hright fun _ => hrel.value _
          | false => exact hrel.value _
      | or =>
          apply hrel.bind hleft
          intro truth
          cases truth with
          | true => exact hrel.value _
          | false => exact hrel.bind hright fun _ => hrel.value _
      | _ =>
          apply hrel.bind hparts.1
          intro first
          apply hrel.bind hparts.2
          intro second
          exact hrel.lifted (Value.trappable_applyOperator _ first second)
  | index target indices =>
      rw [Expr.forall_children_index] at hparts
      exact hrel.bind hparts.1 fun whole => hrel.items other change hparts.2 whole
  | list parts | set parts =>
      exact hrel.bind (hrel.all other change hparts) fun _ => hrel.value _
  | group parts => exact hrel.sequence other change hparts _
  | neg operand =>
      exact hrel.bind (hparts operand List.mem_cons_self) fun number =>
        hrel.lifted number.trappable_negate
  | factorial operand =>
      exact hrel.bind (hparts operand List.mem_cons_self) fun number =>
        hrel.lifted number.trappable_factorial
  | not operand =>
      exact hrel.bind (hrel.condition other change (hparts operand List.mem_cons_self))
        fun _ => hrel.value _
  | cond tests otherwise =>
      rw [Expr.forall_children_cond] at hparts
      exact hrel.branches other change hparts.1 hparts.2

end Compositional

/-- Properties of runs that constructs have if their parts do. -/
abbrev Inherited (good : ∀ {α : Type}, Eval α → Prop) : Prop :=
  Compositional fun run _ => good run

namespace Inherited

variable {good : ∀ {α : Type}, Eval α → Prop} (hgood : Inherited good)
  {ev : Expr → Eval Value}

include hgood

theorem sequence {items : List Expr} (h : ∀ e ∈ items, good (ev e)) (last : Value) :
    good (Eval.sequence ev last items) :=
  Compositional.sequence hgood ev (fun e => e) h last

theorem condition {test : Expr} (h : good (ev test)) : good (Eval.condition ev test) :=
  Compositional.condition hgood ev (fun e => e) h

theorem members {source : Expr} (h : good (ev source)) : good (Eval.members ev source) :=
  Compositional.members hgood ev (fun e => e) h

theorem rangeOf {first last : Expr} {step : Option Expr} (hfirst : good (ev first))
    (hstep : ∀ width ∈ step, good (ev width)) (hlast : good (ev last)) :
    good (Eval.rangeOf ev first step last) :=
  Compositional.rangeOf hgood ev (fun e => e) hfirst hstep hlast

theorem loop {var : String} {body : Expr}
    (hscope : ∀ {run : Eval Unit}, good run → good (inScope [] run))
    (hbound : ∀ value, good (modifyEnv (·.define var value))) (hbody : good (ev body))
    (values : List Value) : good (Eval.loop ev var body values) :=
  Compositional.loop hgood ev (fun e => e) (fun hrun => hscope hrun) hbound hbody values

theorem leave {args : List Expr} (hreturns : ∀ value, good (throw (.returned value) : Eval Value))
    (h : ∀ e ∈ args, good (ev e)) : good (Eval.leave ev args) :=
  Compositional.leave hgood ev (fun e => e) hreturns h

theorem routine {e : Expr} (he : e.isRoutine = true) (hparts : ∀ part ∈ e.children, good (ev part))
    (hcalls : ∀ name args, good (Eval.apply ev name args)) : good (Eval.step ev e) :=
  Compositional.routine hgood ev (fun part => part) he hparts hcalls

end Inherited

end Eval

end SceneQuiz
