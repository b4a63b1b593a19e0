import SceneQuiz.Proofs.Machine.Constructs
import SceneQuiz.Proofs.Machine.Following
/-!
Evaluation of changed code.  If a change keeps the form of every expression
that evaluation looks at, and what it makes of each part follows that part,
then the whole follows as well.  In particular an evaluation follows itself
under any other budget.
-/

namespace SceneQuiz

namespace Expr

/-- Code that is stored or shown as it stands instead of being evaluated. -/
def isVerbatim : Expr → Bool
  | .quote _ | .binary .define _ _ => true
  | _ => false

/-- The forms that a block and an assignment tell apart before they evaluate
anything. -/
def isDeclarative : Expr → Bool
  | .ident _ | .list _ | .binary _ _ _ => true
  | _ => false

/-- A change reaches only the parts of an expression, unless neither side is
declarative. -/
def KeptBy (change : Expr → Expr) (e : Expr) : Prop :=
  change e = e.mapParts change ∨
    e.isDeclarative = false ∧ (change e).isDeclarative = false

/-- A local of a block: a name, or a name with its value. -/
def isLocal : Expr → Bool
  | .ident _ | .binary .assign (.ident _) _ => true
  | _ => false

theorem exists_of_isLocal {e : Expr} (h : e.isLocal = true) :
    (∃ name, e = .ident name) ∨
      ∃ name right, e = .binary .assign (.ident name) right := by
  unfold isLocal at h
  split at h
  · exact Or.inl ⟨_, rfl⟩
  · exact Or.inr ⟨_, _, rfl⟩
  · cases h

section Kept

variable {change : Expr → Expr}

theorem KeptBy.asIdent? {e : Expr} (h : e.KeptBy change) :
    (change e).asIdent? = e.asIdent? := by
  rcases h with h | ⟨hleft, hright⟩
  · rw [h]
    cases e <;> rfl
  · cases e <;> cases hchange : change _ <;> simp_all [isDeclarative, Expr.asIdent?]

theorem KeptBy.ident {name : String} (h : (Expr.ident name).KeptBy change) :
    change (.ident name) = .ident name := by
  rcases h with h | ⟨hbad, -⟩
  · exact h
  · cases hbad

theorem KeptBy.list {items : List Expr} (h : (Expr.list items).KeptBy change) :
    change (.list items) = .list (items.map change) := by
  rcases h with h | ⟨hbad, -⟩
  · exact h
  · cases hbad

theorem KeptBy.ne_list {e : Expr} (h : e.KeptBy change)
    (hbare : ∀ items, e ≠ .list items) (items : List Expr) :
    change e ≠ .list items := by
  intro hlist
  rcases h with h | ⟨-, hright⟩
  · rw [h] at hlist
    cases e with
    | list parts => exact hbare parts rfl
    | _ => cases hlist
  · rw [hlist] at hright
    cases hright

theorem KeptBy.binary {op : BinOp} {left right : Expr}
    (h : (Expr.binary op left right).KeptBy change) :
    change (.binary op left right) = .binary op (change left) (change right) := by
  rcases h with h | ⟨hbad, -⟩
  · exact h
  · cases hbad

theorem isLocal_change {e : Expr} (h : e.Everywhere (KeptBy change)) :
    (change e).isLocal = e.isLocal := by
  have hhere := h.here
  cases e with
  | ident name => rw [hhere.ident]
  | binary op left right =>
      have hleft : (change left).asIdent? = left.asIdent? :=
        (h.inside (by simp [children])).here.asIdent?
      rw [hhere.binary]
      cases op <;> first | rfl | skip
      cases left <;> cases hchange : change _ <;>
        simp_all [Expr.isLocal, Expr.asIdent?]
  | _ =>
      rcases hhere with hhere | ⟨-, hhere⟩
      · rw [hhere]
        rfl
      · cases hchange : change _ <;>
          simp_all [Expr.isLocal, Expr.isDeclarative]

end Kept

end Expr

namespace Eval

namespace Follows

variable {names : List String}

theorem compositional : Compositional fun {_} left right => Follows names left right where
  lifted _ := lifted _
  bind := bind
  trapped := trapped

section Parts

variable {ev other : Expr → Eval Value} {change : Expr → Expr}

/-- A change keeps an expression as far as its form counts, and what it gives
follows. -/
structure Carried (names : List String) (ev other : Expr → Eval Value)
    (change : Expr → Expr) (e : Expr) : Prop where
  kept : e.KeptBy change
  follows : Follows names (ev e) (other (change e))

theorem locals_refused {e : Expr} (h : e.isLocal = false) (rest : List Expr) :
    ∃ cause, ∀ ev, Eval.locals ev (e :: rest) = throw (.unsupported cause) := by
  cases e with
  | ident => cases h
  | binary op left right =>
      cases op with
      | assign =>
          cases left with
          | ident => cases h
          | _ => exact ⟨_, fun _ => rfl⟩
      | _ => exact ⟨_, fun _ => rfl⟩
  | _ => exact ⟨_, fun _ => rfl⟩

theorem locals {declarations : List Expr}
    (h : ∀ e ∈ declarations, e.Everywhere (Carried names ev other change)) :
    Follows names (Eval.locals ev declarations)
      (Eval.locals other (declarations.map change)) := by
  induction declarations with
  | nil => exact value []
  | cons e rest ih =>
      rw [List.forall_mem_cons] at h
      have hkept : e.Everywhere (Expr.KeptBy change) :=
        h.1.mono fun _ hcarried => hcarried.kept
      cases hlocal : e.isLocal with
      | false =>
          obtain ⟨cause, hleft⟩ := locals_refused hlocal rest
          obtain ⟨reason, hright⟩ :=
            locals_refused ((Expr.isLocal_change hkept).trans hlocal) (rest.map change)
          rw [List.map_cons, hleft, hright]
          exact failed (Or.inr ⟨cause, reason, rfl, rfl⟩)
      | true =>
          rcases Expr.exists_of_isLocal hlocal with
            ⟨name, rfl⟩ | ⟨name, right, rfl⟩
          · rw [List.map_cons, hkept.here.ident]
            exact (ih h.2).bind fun others => value _
          · obtain ⟨hname, -⟩ :=
              (Expr.forall_children_two rfl).mp fun _ hpart => hkept.inside hpart
            obtain ⟨-, hright⟩ :=
              (Expr.forall_children_two rfl).mp fun _ hpart => h.1.inside hpart
            rw [List.map_cons, hkept.here.binary, hname.here.ident]
            exact hright.here.follows.bind fun start => (ih h.2).bind fun others => value _

theorem block_bare {e : Expr} (h : ∀ items, e ≠ .list items) (rest : List Expr) :
    Eval.block ev (e :: rest) =
      catchReturn (inScope [] (Eval.sequence ev (.bool false) (e :: rest))) := by
  cases e with
  | list items => exact absurd rfl (h items)
  | _ => rfl

theorem block {args : List Expr}
    (h : ∀ e ∈ args, e.Everywhere (Carried names ev other change)) :
    Follows names (Eval.block ev args) (Eval.block other (args.map change)) := by
  have hfollows : ∀ e ∈ args, Follows names (ev e) (other (change e)) :=
    fun e he => (h e he).here.follows
  cases args with
  | nil => exact value _
  | cons e rest =>
      by_cases hlist : ∃ items, e = .list items
      · obtain ⟨items, rfl⟩ := hlist
        have hhead := h _ (List.mem_cons_self ..)
        rw [List.map_cons, hhead.here.kept.list]
        refine (locals fun part hpart => hhead.inside hpart).bind fun bindings => ?_
        have hbody := compositional.sequence other change
          (fun e he => hfollows e (List.mem_cons_of_mem _ he)) (.bool false)
        exact (hbody.within bindings).caught
      · have hbare : ∀ items, e ≠ .list items := fun items heq => hlist ⟨items, heq⟩
        have hchanged : ∀ items, change e ≠ .list items :=
          (h e (List.mem_cons_self ..)).here.kept.ne_list hbare
        rw [block_bare hbare, List.map_cons, block_bare hchanged,
          ← List.map_cons]
        exact ((compositional.sequence other change hfollows _).within []).caught

/-- What a call comes to in a machine. -/
def callee (ev : Expr → Eval Value) (name : String) (args : List Value)
    (machine : Machine) : Eval Value :=
  match machine.hosts.get? name with
  | some host => lift (host args)
  | none =>
      match machine.functions.get? name with
      | some function => Eval.applyClosure ev name function args
      | none =>
          match Builtin.ofName? name with
          | some builtin => lift (builtin.apply args)
          | none => throw (.unknownFunction name)

theorem apply_eq_callee (name : String) (args : List Value) (machine : Machine) :
    Eval.apply ev name args machine = callee ev name args machine machine := rfl

section Bodies

variable (hself : ∀ body, Follows names (ev body) (other body))

include hself

theorem apply (name : String) (args : List Value) :
    Follows names (Eval.apply ev name args) (Eval.apply other name args) := by
  refine of_looks fun machine => ⟨callee ev name args machine,
    callee other name args machine, ?_, apply_eq_callee name args machine, ?_⟩
  · unfold callee
    cases machine.hosts.get? name with
    | some host => exact lifted _
    | none =>
        cases machine.functions.get? name with
        | some function =>
            dsimp only
            unfold applyClosure
            split
            · exact (hself function.body).within _
            · exact failed (.refl _)
        | none =>
            cases Builtin.ofName? name with
            | some builtin => exact lifted _
            | none => exact failed (.refl _)
  · intro start hstart
    rw [apply_eq_callee]
    unfold callee
    rw [hstart.hosts, hstart.functions]

end Bodies

theorem assignment_refused (ev : Expr → Eval Value) {target : Expr} (h : target.asIdent? = none)
    (result : Expr) :
    ∃ cause, Eval.assignment ev target result = throw (.unsupported cause) := by
  unfold Eval.assignment
  split
  · cases h
  · exact ⟨_, rfl⟩

theorem assignment {target result : Expr} (htarget : target.KeptBy change)
    (h : Follows names (ev result) (other (change result))) :
    Follows names (Eval.assignment ev target result)
      (Eval.assignment other (change target) (change result)) := by
  have hname := htarget.asIdent?
  cases hleft : target.asIdent? with
  | some name =>
      rw [hleft] at hname
      cases target <;> cases hleft
      cases hright : change _ <;> rw [hright] at hname <;> cases hname
      exact h.bind fun _ => (modified _).bind fun _ => value _
  | none =>
      rw [hleft] at hname
      obtain ⟨cause, hrefused⟩ := assignment_refused ev hleft result
      obtain ⟨reason, hrefused'⟩ :=
        assignment_refused other hname (change result)
      rw [hrefused, hrefused']
      exact failed (Or.inr ⟨cause, reason, rfl, rfl⟩)

theorem definition (target body : Expr) :
    Follows names (Eval.definition target body) (Eval.definition target body) := by
  unfold Eval.definition
  split
  · exact (lifted _).bind fun _ => (defined _ _).bind fun _ => value _
  · exact failed (.refl _)

/-- One level of evaluation follows if the parts do. -/
theorem step (hself : ∀ body, Follows names (ev body) (other body)) {e : Expr}
    (hverbatim : e.isVerbatim = true → e.mapParts change = e)
    (h : ∀ part ∈ e.children, part.Everywhere (Carried names ev other change)) :
    Follows names (Eval.step ev e) (Eval.step other (e.mapParts change)) := by
  have hfollows : ∀ part ∈ e.children, Follows names (ev part) (other (change part)) :=
    fun part hpart => (h part hpart).here.follows
  by_cases hroutine : e.isRoutine = true
  · exact compositional.routine other change hroutine hfollows (apply hself)
  have hloop : ∀ {var : String} {body : Expr}, Follows names (ev body) (other (change body)) →
      ∀ values, Follows names (Eval.loop ev var body values)
        (Eval.loop other var (change body) values) := fun hbody =>
    compositional.loop other change (fun hrun => hrun.within []) (fun _ => modified _) hbody
  cases e with
  | ident name => exact read name
  | quote operand =>
      rw [hverbatim rfl]
      exact value _
  | call name args =>
      by_cases hblock : name = "block"
      · subst hblock
        exact block h
      · have hreturn : name = "return" := by simpa [Expr.isRoutine, hblock] using hroutine
        subst hreturn
        exact compositional.leave other change (fun _ => failed (.refl _)) hfollows
  | binary op left right =>
      rw [Expr.forall_children_two rfl] at h hfollows
      cases op with
      | assign => exact assignment h.1.here.kept hfollows.2
      | define =>
          rw [hverbatim rfl]
          exact definition left right
      | _ => exact absurd rfl hroutine
  | forIn var source body =>
      rw [Expr.forall_children_two rfl] at hfollows
      exact (compositional.members other change hfollows.1).bind fun _ => hloop hfollows.2 _
  | forRange var first width last body =>
      rw [Expr.forall_children_forRange] at hfollows
      obtain ⟨hfirst, hwidth, hlast, hbody⟩ := hfollows
      exact (compositional.rangeOf other change hfirst hwidth hlast).bind fun _ => hloop hbody _
  | _ => exact absurd rfl hroutine

end Parts

/-- Without fuel the budget ends a run at once. -/
theorem evalWithin_zero (e : Expr) (machine : Machine) :
    e.evalWithin 0 machine =
      .error .gasExhausted { machine with gas := machine.gas + 1 } := by
  rcases tick_cases machine with htick | htick
  · exact bind_ok htick
  · exact bind_failed htick

/-- A run that the budget does not end takes a first step. -/
theorem exists_step {e : Expr} {fuel : Nat} {before after : Machine}
    {outcome : Except EvalError Value} (h : e.evalWithin fuel before = lift outcome after)
    (hgas : outcome ≠ .error .gasExhausted) :
    ∃ rest, Eval.step (Expr.evalWithin rest) e
      { before with gas := before.gas + 1 } = lift outcome after := by
  cases fuel with
  | zero =>
      obtain ⟨rfl, -⟩ := lift_injective
        ((lift_error .gasExhausted _).trans ((evalWithin_zero e before).symm.trans h))
      exact absurd rfl hgas
  | succ fuel =>
      rcases tick_cases before with htick | htick
      · exact ⟨fuel, (bind_ok htick).symm.trans h⟩
      · obtain ⟨rfl, -⟩ := lift_injective
          ((lift_error .gasExhausted _).trans ((bind_failed htick).symm.trans h))
        exact absurd rfl hgas

theorem without_fuel (e : Expr) (right : Eval Value) :
    Follows names (e.evalWithin 0) right where
  grows {before _ _} h := by
    obtain ⟨-, rfl⟩ := lift_injective
      ((lift_error .gasExhausted _).trans ((evalWithin_zero e before).symm.trans h))
    exact ⟨rfl, fun _ h => h⟩
  leads {before _ _} h hgas _ := by
    obtain ⟨rfl, -⟩ := lift_injective
      ((lift_error .gasExhausted _).trans ((evalWithin_zero e before).symm.trans h))
    exact absurd rfl hgas

/-- Evaluations follow each other if their first levels do. -/
theorem of_step {left right : Expr} {fuel : Nat}
    (h : ∀ other, Follows names (Eval.step (Expr.evalWithin fuel) left)
      (Eval.step (Expr.evalWithin other) right)) (other : Nat) :
    Follows names (left.evalWithin (fuel + 1)) (right.evalWithin other) := by
  cases other with
  | zero =>
      refine ⟨(h 0).ticked.grows, fun _ _ _ start _ => Or.inl ?_⟩
      exact ⟨_, evalWithin_zero right start⟩
  | succ other => exact (h other).ticked

/-- An evaluation follows itself under any other budget. -/
theorem refl (e : Expr) (fuel other : Nat) :
    Follows names (e.evalWithin fuel) (e.evalWithin other) := by
  induction fuel generalizing e other with
  | zero => exact without_fuel e _
  | succ fuel ih =>
      refine of_step (fun other => ?_) other
      have hcarried : ∀ part : Expr, Carried names (Expr.evalWithin fuel)
          (Expr.evalWithin other) (fun part => part) part := fun part =>
        ⟨Or.inl part.mapParts_id.symm, ih part other⟩
      have hstep := step (fun body => ih body other) (fun _ => e.mapParts_id)
        fun part _ => Expr.Everywhere.of_forall hcarried part
      rwa [e.mapParts_id] at hstep

end Follows

end Eval

end SceneQuiz
