import SceneQuiz.Proofs.Machine.RestrainedRun
import SceneQuiz.Proofs.Machine.Tracking
import SceneQuiz.Proofs.ResponseTree.EmittedCode
/-!
Running the function of a response tree.  What is known of the variables stays
known to the end if the code of the plan, calls and the assignments of the
function uphold it.  So the function heeds a restraint that the code of its plan
is under: names that are kept it assigns only where they are its own locals, and
`simp` it sets back after every test.
-/

namespace SceneQuiz

namespace ResponseTree

namespace Emit

open Eval

section Upholding

variable (setting : Setting) (bound : Nat) (known : Environment → Prop)

/-- Code that keeps what is known however it ends, and leaves the function only
to give up. -/
def Steady (e : Expr) : Prop :=
  ∀ fuel < bound, Respects (setting.Still known) (· = .list []) (e.evalWithin fuel)

/-- The same of statements in sequence. -/
def SteadyAll (items : List Expr) : Prop :=
  ∀ fuel < bound, ∀ last, Respects (setting.Still known) (· = .list [])
    (sequence (Expr.evalWithin fuel) last items)

/-- What is known is upheld by code with `P`, by calls, by assignments to names
with `M` and by leaving for scenes with `S`. -/
structure Upholds (M S : String → Prop) (P : Expr → Prop) : Prop where
  planned : ∀ {e}, P e → Steady setting bound known e
  calls : ∀ fuel < bound, ∀ name args, Respects (setting.Still known) (· = .list [])
    (Eval.apply (Expr.evalWithin fuel) name args)
  assigned : ∀ {name}, M name → ∀ {env}, known env → ∀ value, known (env.assign name value)
  scene : ∀ {target}, S target → ∀ {env}, known env →
    known (env.assign Vars.nextScene (.str target))
  tested : ∀ {test}, P test → SteadyAll setting bound known (unsimplified test)

end Upholding

/-- An answer of the function: eight items, some of them read from variables that
are as `known` says. -/
def Answers (known : Environment → Prop) (found : Value) : Prop :=
  ∃ items : List Value, found = .list items ∧ items.length = 8 ∧
    ∀ slot ∈ [(2, Vars.path), (5, Vars.nextScene), (6, Vars.updates)],
      ∃ env, known env ∧ items[slot.1]? = some (env.reading slot.2)

theorem answers_of_forall {known : Environment → Prop} {items : List Value}
    (h : List.Forall₂ (fun e value => ∀ name, e = .ident name → ∃ env, known env ∧
      value = env.reading name) resultItems items) : Answers known (.list items) := by
  refine ⟨items, rfl, h.length_eq.symm, fun slot hslot => ?_⟩
  have hplaces : ∀ slot ∈ [(2, Vars.path), (5, Vars.nextScene), (6, Vars.updates)],
      resultItems[slot.1]? = some (Expr.ident slot.2) := by
    simp [resultItems]
  obtain ⟨hplace, hitem⟩ := List.getElem?_eq_some_iff.mp (hplaces slot hslot)
  obtain ⟨hlength, hitems⟩ := List.forall₂_iff_get.mp h
  obtain ⟨env, hknown, hvalue⟩ := hitems slot.1 hplace (hlength ▸ hplace) slot.2 hitem
  exact ⟨env, hknown, List.getElem?_eq_some_iff.mpr ⟨hlength ▸ hplace, hvalue⟩⟩

section Forms

variable {setting : Setting} {bound : Nat} {known : Environment → Prop} {M S : String → Prop}
  {P : Expr → Prop}

theorem steady_iff {e : Expr} : Steady setting bound known e ↔ ∀ fuel < bound,
    Brings setting known (fun _ => known) known (fun value env => value = .list [] ∧ known env)
      (e.evalWithin fuel) :=
  forall₂_congr fun _ _ => brings_iff_respects.symm

theorem steadyAll_iff {items : List Expr} : SteadyAll setting bound known items ↔
    ∀ fuel < bound, ∀ last, Brings setting known (fun _ => known) known
      (fun value env => value = .list [] ∧ known env)
      (sequence (Expr.evalWithin fuel) last items) :=
  forall₂_congr fun _ _ => forall_congr' fun _ => brings_iff_respects.symm

theorem steady_of_step {e : Expr}
    (h : ∀ fuel < bound, Respects (setting.Still known) (· = .list [])
      (Eval.step (Expr.evalWithin fuel) e)) : Steady setting bound known e :=
  fun _ hfuel => .of_step (setting.pairing_still known) fun less hless =>
    h less (hless.trans hfuel)

theorem steady_giveUp : Steady setting bound known giveUp := by
  rw [steady_iff]
  intro fuel _
  apply Brings.of_step
  intro less _
  have hnone : Brings setting known (fun found env => known env ∧ found = .list []) known
      (fun value env => value = .list [] ∧ known env) ((Expr.list []).evalWithin less) :=
    .emptyList
  apply hnone.bind
  intro found
  exact .failed fun _ hfound => hfound.symm

theorem steady_bool (truth : Bool) : Steady setting bound known (.bool truth) :=
  steady_of_step fun _ _ => .value _

theorem steady_ident (name : String) : Steady setting bound known (.ident name) :=
  steady_of_step fun _ _ => .read fun hstill => by rw [hstill.same]

theorem steady_assign {name : String} {source : Expr}
    (hname : ∀ {env}, known env → ∀ value, known (env.assign name value))
    (hsource : Steady setting bound known source) :
    Steady setting bound known (.assign name source) := by
  rw [steady_iff] at hsource ⊢
  intro fuel hfuel
  apply Brings.assign fun less hless => hsource less (hless.trans hfuel)
  exact fun found env hknown => hname hknown found

theorem steady_errcatch {items : List Expr} (h : SteadyAll setting bound known items) :
    Steady setting bound known (.call "errcatch" items) :=
  steady_of_step fun fuel hfuel => .trapped (h fuel hfuel _)

theorem steadyAll_of_forall {items : List Expr}
    (h : ∀ e ∈ items, Steady setting bound known e) : SteadyAll setting bound known items :=
  fun fuel hfuel last => Respects.inherited.sequence (fun e he => h e he fuel hfuel) last

/-- Where `simp` needs no care, switching simplification off and back is like any
other assignment. -/
theorem steadyAll_unsimplified {test : Expr} (htest : Steady setting bound known test)
    (hnames : ∀ name ∈ ["simp", Vars.savedSimp, Vars.testResult], ∀ {env}, known env →
      ∀ value, known (env.assign name value)) :
    SteadyAll setting bound known (unsimplified test) := by
  have hcaught := steady_errcatch (steadyAll_of_forall (List.forall_mem_singleton.mpr htest))
  apply steadyAll_of_forall
  simp only [unsimplified, List.forall_mem_cons]
  exact ⟨steady_assign (hnames _ (by decide)) (steady_ident _),
    steady_assign (hnames _ (by decide)) (steady_bool _),
    steady_assign (hnames _ (by decide)) hcaught,
    steady_assign (hnames _ (by decide)) (steady_ident _), List.forall_mem_nil _⟩

namespace Upholds

variable (h : Upholds setting bound known M S P)

include h

theorem routine {e : Expr} (he : e.isRoutine = true)
    (hparts : ∀ part ∈ e.children, Steady setting bound known part) :
    Steady setting bound known e :=
  steady_of_step fun fuel hfuel =>
    Respects.inherited.routine he (fun part hpart => hparts part hpart fuel hfuel)
      (h.calls fuel hfuel)

theorem forms :
    Forms (fun _ => True) M S P (Steady setting bound known) (SteadyAll setting bound known) where
  names _ _ := trivial
  planned := h.planned
  nil _ _ last := .value last
  one he fuel hfuel _ := (he fuel hfuel).bind fun found => .value found
  append hitems hothers fuel hfuel last := by
    rw [Expr.sequence_append]
    exact (hitems fuel hfuel last).bind fun found => hothers fuel hfuel found
  str _ := steady_of_step fun _ _ => .value _
  bool := steady_bool
  int n := by
    have hliteral : Steady setting bound known (.number (toString n.natAbs)) :=
      h.routine rfl nofun
    unfold Expr.int
    dsimp only
    split
    · exact h.routine rfl ((Expr.forall_children_one rfl).mpr hliteral)
    · exact hliteral
  ident _ := steady_ident _
  assign hname hsource := steady_assign (h.assigned hname) hsource
  call name hname args hargs := by
    have hplain : name ≠ "block" ∧ name ≠ "return" := by
      revert name
      decide
    exact h.routine (by simpa [Expr.isRoutine] using hplain) hargs
  errcatch := steady_errcatch
  giveUp := steady_giveUp
  index htarget hindices := h.routine rfl (Expr.forall_children_index.mpr ⟨htarget, hindices⟩)
  list _ hitems := h.routine rfl hitems
  group hitems := steady_of_step fun fuel hfuel => hitems fuel hfuel _
  not hoperand := h.routine rfl ((Expr.forall_children_one rfl).mpr hoperand)
  binary op hop _ _ hleft hright := by
    have hplain : op ≠ .assign ∧ op ≠ .define := by
      revert op
      decide
    exact h.routine (by simpa [Expr.isRoutine] using hplain)
      ((Expr.forall_children_two rfl).mpr ⟨hleft, hright⟩)
  cond htest hbody _ hotherwise :=
    h.routine rfl (Expr.forall_children_cond.mpr ⟨by simpa using ⟨htest, hbody⟩, hotherwise⟩)
  scene {target} htarget := by
    rw [steady_iff]
    intro fuel _
    apply Brings.assign fun _ _ => Brings.str target
    rintro _ env ⟨hknown, rfl⟩
    exact h.scene htarget hknown
  tested := h.tested

/-- What the function returns is read while all that is known holds. -/
theorem brings_result {fuel : Nat} (hfuel : fuel < bound) :
    Brings setting known (fun found _ => Answers known found) known
      (fun value env => value = .list [] ∧ known env) (result.evalWithin fuel) := by
  have hitems : ∀ less < bound, ∀ e ∈ resultItems, Brings setting known
      (fun found env => known env ∧
        ∀ name, e = .ident name → ∃ env, known env ∧ found = env.reading name) known
      (fun value env => value = .list [] ∧ known env) (e.evalWithin less) := by
    intro less hless e he
    by_cases hname : ∃ name, e = .ident name
    · obtain ⟨name, rfl⟩ := hname
      apply (Brings.ident name).giving
      rintro found env ⟨hknown, rfl⟩
      refine ⟨hknown, ?_⟩
      rintro _ ⟨⟩
      exact ⟨env, hknown, rfl⟩
    · apply (steady_iff.mp (h.forms.resultItems e he) less hless).giving
      exact fun _ _ hknown => ⟨hknown, fun name heq => absurd ⟨name, heq⟩ hname⟩
  apply Brings.of_step
  intro less hless
  apply (Brings.all (hitems less (hless.trans hfuel))).bind
  intro values
  apply Brings.value
  rintro env ⟨-, hvalues⟩
  exact answers_of_forall hvalues

end Upholds

end Forms

/-- A scope with the locals of the function.  Its own variables start empty, and
all others with what they are outside. -/
structure Opened (written : NameSet) (start : Environment) (scope : Scope) : Prop where
  declared : ∀ name, name ∈ ownNames ∨ name ∈ written → name ≠ "simp" →
    scope.contains name = true
  flag : scope.get? "simp" = none
  truths : ∀ name ∈ [Vars.nextScene, Vars.stop], name ∉ written →
    scope.get? name = some (.bool false)
  lists : ∀ name ∈ [Vars.path, Vars.updates], name ∉ written → scope.get? name = some (.list [])
  outer : ∀ name ∈ written, name ∉ "simp" :: ownNames →
    scope.get? name = some (start.reading name)

/-- What a local of the function may start with. -/
def Starts (written : NameSet) (start : Environment) (name : String) (value : Value) : Prop :=
  (name ∉ written → (name ∈ [Vars.nextScene, Vars.stop] → value = .bool false) ∧
    (name ∈ [Vars.path, Vars.updates] → value = .list [])) ∧
  (name ∉ ownNames → value = start.reading name)

theorem opened_of_starts {written : NameSet} {start : Environment}
    {bindings : List (String × Value)}
    (hnames : bindings.map Prod.fst = (locals written).filterMap Expr.declaredName?)
    (hstarts : ∀ binding ∈ bindings, Starts written start binding.1 binding.2) :
    Opened written start (NameMap.ofList bindings) := by
  rw [declaredNames_locals] at hnames
  have hdeclared : ∀ name, name ∈ ownNames ∨ name ∈ written → name ≠ "simp" →
      name ∈ bindings.map Prod.fst := by
    intro name hname hsimp
    rw [hnames, List.mem_append, List.mem_filter]
    refine hname.imp_right fun hwritten => ⟨NameSet.mem_names.mpr hwritten, ?_⟩
    simp [isGlobalFlag, globalFlags, hsimp]
  have hstart : ∀ name ∈ [Vars.nextScene, Vars.stop] ++ [Vars.path, Vars.updates], ∀ {value},
      (∀ binding ∈ bindings, binding.1 = name → binding.2 = value) →
        (NameMap.ofList bindings).get? name = some value := by
    intro name hname value hvalue
    have hown : ∀ name ∈ [Vars.nextScene, Vars.stop] ++ [Vars.path, Vars.updates],
        name ∈ ownNames ∧ name ≠ "simp" := by decide
    obtain ⟨hmem, hsimp⟩ := hown name hname
    exact NameMap.get?_ofList_of_forall (hdeclared name (.inl hmem) hsimp) hvalue
  constructor
  · exact fun name hname hsimp => NameMap.contains_ofList.mpr (hdeclared name hname hsimp)
  · have hfree : ¬ (NameMap.ofList bindings).contains "simp" = true := by
      rw [NameMap.contains_ofList, hnames, List.mem_append, List.mem_filter]
      rintro (hown | ⟨-, hflag⟩)
      · revert hown
        decide
      · revert hflag
        decide
    simpa [NameMap.contains] using hfree
  · intro name hname hwritten
    exact hstart name (List.mem_append_left _ hname) fun binding hmem heq =>
      ((hstarts binding hmem).1 (heq ▸ hwritten)).1 (heq ▸ hname)
  · intro name hname hwritten
    exact hstart name (List.mem_append_right _ hname) fun binding hmem heq =>
      ((hstarts binding hmem).1 (heq ▸ hwritten)).2 (heq ▸ hname)
  · intro name hwritten hname
    rw [List.mem_cons, not_or] at hname
    apply NameMap.get?_ofList_of_forall (hdeclared name (.inr hwritten) hname.1)
    rintro binding hmem rfl
    exact (hstarts binding hmem).2 hname.2

/-- The values that the variables of the function start with. -/
theorem right_of_mem_accumulators {name : String} {right : Expr}
    (h : .binary .assign (.ident name) right ∈ accumulators) : name ∈ ownNames ∧
      (right = .int 0 ∧ name ∉ [Vars.nextScene, Vars.stop] ∧ name ∉ [Vars.path, Vars.updates] ∨
        right = .list [] ∧ name ∉ [Vars.nextScene, Vars.stop] ∨
          right = .bool false ∧ name ∉ [Vars.path, Vars.updates]) := by
  simp only [accumulators, Expr.assign, List.mem_cons, Expr.binary.injEq, Expr.ident.injEq,
    true_and, reduceCtorEq, List.not_mem_nil, or_false] at h
  rcases h with ⟨rfl, rfl⟩ | ⟨rfl, rfl⟩ | ⟨rfl, rfl⟩ | ⟨rfl, rfl⟩ | ⟨rfl, rfl⟩ | ⟨rfl, rfl⟩ |
    ⟨rfl, rfl⟩ | ⟨rfl, rfl⟩ | ⟨rfl, rfl⟩ | ⟨rfl, rfl⟩
  all_goals refine ⟨by decide, ?_⟩
  all_goals first
    | exact .inl ⟨rfl, by decide, by decide⟩
    | exact .inr (.inl ⟨rfl, by decide⟩)
    | exact .inr (.inr ⟨rfl, by decide⟩)

section Function

variable {setting : Setting} {pre : Environment → Prop} {post : Value → Environment → Prop}
  {broken : Environment → Prop} {left : Value → Environment → Prop}

theorem brings_locals {written : NameSet} {start : Environment} (hbroken : broken start)
    (fuel : Nat) :
    Brings setting (· = start) (fun bindings env => env = start ∧
        Opened written start (NameMap.ofList bindings)) broken left
      (Eval.locals (Expr.evalWithin fuel) (locals written)) := by
  have hplain : ∀ name, .ident name ∈ locals written →
      Starts written start name (.symbol name) := by
    intro name hname
    have hunset : name ∈ [Vars.testResult, Vars.outcome, Vars.savedSimp, Vars.branchResult] := by
      simpa [locals, accumulators, Expr.assign, Expr.keep] using hname
    have hfree : ∀ name ∈ [Vars.testResult, Vars.outcome, Vars.savedSimp, Vars.branchResult],
        name ∈ ownNames ∧ name ∉ [Vars.nextScene, Vars.stop] ∧
          name ∉ [Vars.path, Vars.updates] := by decide
    obtain ⟨hown, htruths, hlists⟩ := hfree name hunset
    exact ⟨fun _ => ⟨fun h => absurd h htruths, fun h => absurd h hlists⟩, fun h => absurd hown h⟩
  have hvalues : ∀ name right, .binary .assign (.ident name) right ∈ locals written →
      Brings setting (· = start) (fun found env => env = start ∧ Starts written start name found)
        broken left (right.evalWithin fuel) := by
    intro name right hmem
    rcases List.mem_append.mp hmem with hmem | hmem
    · obtain ⟨hown, hright⟩ := right_of_mem_accumulators hmem
      have houter : ∀ value, name ∉ ownNames → value = start.reading name :=
        fun _ h => absurd hown h
      rcases hright with ⟨rfl, htruths, hlists⟩ | ⟨rfl, htruths⟩ | ⟨rfl, hlists⟩
      · apply (Brings.number "0" fun _ heq => heq ▸ hbroken).giving
        rintro value env ⟨heq, -⟩
        exact ⟨heq, fun _ => ⟨fun h => absurd h htruths, fun h => absurd h hlists⟩, houter value⟩
      · apply Brings.emptyList.giving
        rintro _ env ⟨heq, rfl⟩
        exact ⟨heq, fun _ => ⟨fun h => absurd h htruths, fun _ => rfl⟩, houter _⟩
      · apply (Brings.bool false).giving
        rintro _ env ⟨heq, rfl⟩
        exact ⟨heq, fun _ => ⟨fun _ => rfl, fun h => absurd h hlists⟩, houter _⟩
    · obtain ⟨kept, hkept, heq⟩ := List.mem_map.mp hmem
      cases heq
      have hwritten := NameSet.mem_names.mp (List.mem_filter.mp hkept).1
      apply (Brings.ident name).giving
      rintro _ _ ⟨rfl, rfl⟩
      exact ⟨rfl, fun h => absurd hwritten h, fun _ => rfl⟩
  apply (Brings.locals hplain hvalues fun _ heq => heq ▸ hbroken).giving
  rintro bindings env ⟨heq, hnames, hstarts⟩
  exact ⟨heq, opened_of_starts hnames hstarts⟩

/-- A call of the function opens a scope with its locals and runs its statements
there. -/
theorem brings_function {written : NameSet} {body : List Expr} {fuel : Nat}
    (h : ∀ less < fuel, ∀ start scope, pre start → Opened written start scope →
      Brings setting (· = start.under scope) (fun value env => post value env.pop)
        (fun env => broken env.pop) (fun value env => post value env.pop)
        (sequence (Expr.evalWithin less) (.bool false) body))
    (hbroken : ∀ env, pre env → broken env) :
    Brings setting pre post broken left
      ((Expr.block (locals written) body).evalWithin fuel) := by
  apply Brings.of_step
  intro less hless
  apply Brings.of_each
  intro start hstart
  apply (brings_locals (hbroken start hstart) less).bind
  intro bindings
  apply Brings.caught
  apply Brings.within
  rintro _ ⟨rfl, hopened⟩
  exact h less hless _ _ hstart hopened

end Function

section Restrained

variable {rule : Restraint} {trusted : Set Expr} {bound : Nat} {known : Environment → Prop}
  {M S : String → Prop} {start : Environment}

/-- What lasts as long as names are kept is kept by code that heeds the
restraint. -/
theorem respects_of_heeds {α : Type} {run : Eval α} (h : Heeds rule trusted false run)
    (hlasts : ∀ {env after}, known env → rule.Kept env after → known after) :
    Respects ((rule.setting trusted).Still known) (· = .list []) run := by
  rw [← brings_iff_respects]
  apply h.brings
  · exact fun _ _ hknown hkept => ⟨fun _ => hlasts hknown hkept, hlasts hknown hkept⟩
  · exact fun hcaught => absurd hcaught Bool.false_ne_true

section Trusting

variable (htrusted : ∀ less < bound, ∀ body ∈ trusted,
  Heeds rule trusted false (body.evalWithin less))

include htrusted

theorem heeds_of_trusted {e : Expr} (he : e.Restrained rule false) {fuel : Nat}
    (hfuel : fuel < bound) : Heeds rule trusted false (e.evalWithin fuel) :=
  heeds_of_restrained fuel (fun less hless => htrusted less (hless.trans hfuel)) he

theorem upholds_of_lasting
    (hlasts : ∀ {env after}, known env → rule.Kept env after → known after)
    (hassigned : ∀ {name}, M name → ∀ {env}, known env → ∀ value, known (env.assign name value))
    (hscene : ∀ {target}, S target → ∀ {env}, known env →
      known (env.assign Vars.nextScene (.str target)))
    (htested : ∀ {test : Expr}, test.Restrained rule false →
      SteadyAll (rule.setting trusted) bound known (unsimplified test)) :
    Upholds (rule.setting trusted) bound known M S (Expr.Restrained rule false) where
  planned he _ hfuel := respects_of_heeds (heeds_of_trusted htrusted he hfuel) hlasts
  calls fuel hfuel name args := by
    apply respects_of_heeds _ hlasts
    exact heeds_apply (fun hbody => heeds_of_trusted htrusted hbody hfuel) (htrusted fuel hfuel)
      name args
  assigned := hassigned
  scene := hscene
  tested := htested

/-- A test sets `simp` back to what was saved, and what was saved is allowed.  While
`simp` is off, only what is said of `simp` itself is given up. -/
theorem steadyAll_test (hkept : "simp" ∈ rule.kept) (hsaved : Vars.savedSimp ∈ rule.kept)
    {test : Expr} (htest : test.Restrained rule false) :
    SteadyAll (rule.setting trusted) bound (rule.Inside start) (unsimplified test) := by
  rw [steadyAll_iff]
  intro fuel hfuel last
  let allowed : Value → Prop := fun value =>
    value = start.reading "simp" ∨ value ∈ rule.flags
  let saved : Environment → Prop := fun env =>
    rule.Inside start env ∧ allowed (env.reading Vars.savedSimp)
  let off : Environment → Prop := fun env =>
    rule.loose.Inside start env ∧ allowed (env.reading Vars.savedSimp)
  have hsave : Brings (rule.setting trusted) (rule.Inside start) (fun _ => saved)
      (rule.Inside start) (fun value env => value = .list [] ∧ rule.Inside start env)
      ((Expr.assign Vars.savedSimp (.ident "simp")).evalWithin fuel) := by
    apply Brings.assign fun _ _ => Brings.ident "simp"
    rintro _ env ⟨hinside, rfl⟩
    refine ⟨hinside.assign (by decide) _, ?_⟩
    rw [Environment.reading_assign]
    exact hinside.allowed_simp hkept
  have hoff : Brings (rule.setting trusted) saved (fun _ => off)
      (rule.Inside start) (fun value env => value = .list [] ∧ rule.Inside start env)
      ((Expr.assign "simp" (.bool false)).evalWithin fuel) := by
    apply Brings.assign fun _ _ => Brings.bool false
    rintro _ env ⟨⟨hinside, hallowed⟩, rfl⟩
    refine ⟨hinside.switched hkept _, ?_⟩
    rwa [Environment.reading_of_column (Environment.column_assign_of_ne env _ (by decide))]
  have hrun : ∀ less < fuel, Brings (rule.setting trusted) off (fun _ => off) off
      (fun value env => value = .list [] ∧ rule.Inside start env) (test.evalWithin less) := by
    intro less hless
    have hlasts : ∀ env after, off env → rule.Kept env after → off after := by
      rintro env after ⟨hinside, hallowed⟩ hkeeps
      refine ⟨hinside.later hkeeps.loose, ?_⟩
      rwa [Environment.reading_of_column (hkeeps.columns _ hsaved (by decide))]
    apply (heeds_of_trusted htrusted htest (hless.trans hfuel)).brings
    · exact fun env after henv hkeeps =>
        ⟨fun _ => hlasts env after henv hkeeps, hlasts env after henv hkeeps⟩
    · exact fun hcaught => absurd hcaught Bool.false_ne_true
  have hcaught : Brings (rule.setting trusted) off (fun _ => off)
      (rule.Inside start) (fun value env => value = .list [] ∧ rule.Inside start env)
      ((Expr.assign Vars.testResult (.call "errcatch" [test])).evalWithin fuel) := by
    have htrap : ∀ less < fuel, Brings (rule.setting trusted) off (fun _ => off)
        (rule.Inside start) (fun value env => value = .list [] ∧ rule.Inside start env)
        ((Expr.call "errcatch" [test]).evalWithin less) := by
      intro less hless
      apply Brings.of_step
      intro fewer hfewer
      apply Brings.trapped (Brings.sequence_all (List.forall_mem_singleton.mpr
        (hrun fewer (hfewer.trans hless))) _)
      · exact fun _ _ henv => henv
      · exact fun _ henv => henv
    apply Brings.assign htrap
    rintro found env ⟨hinside, hallowed⟩
    refine ⟨hinside.assign (by decide) _, ?_⟩
    rwa [Environment.reading_of_column (Environment.column_assign_of_ne env _ (by decide))]
  have hback : Brings (rule.setting trusted) off (fun _ => rule.Inside start)
      (rule.Inside start) (fun value env => value = .list [] ∧ rule.Inside start env)
      ((Expr.assign "simp" (.ident Vars.savedSimp)).evalWithin fuel) := by
    apply Brings.assign fun _ _ => Brings.ident Vars.savedSimp
    rintro _ env ⟨⟨hinside, hallowed⟩, rfl⟩
    exact hinside.restored hkept hallowed
  apply Brings.sequence_cons hsave
  intro _
  apply Brings.sequence_cons hoff
  intro _
  apply Brings.sequence_cons hcaught
  intro _
  apply Brings.sequence_cons hback
  exact fun _ => .value fun _ hinside => hinside

/-- The function upholds what is kept outside: it assigns its own locals only. -/
theorem upholds_inside (hsaved : "simp" ∈ rule.kept → Vars.savedSimp ∈ rule.kept) :
    Upholds (rule.setting trusted) bound (rule.Inside start) (· ≠ "simp") (fun _ => True)
      (Expr.Restrained rule false) := by
  apply upholds_of_lasting htrusted
  · exact fun hinside hkeeps => hinside.later hkeeps
  · exact fun hname _ hinside value => hinside.assign hname value
  · exact fun _ _ hinside => hinside.assign (by decide) _
  · intro test htest
    by_cases hkept : "simp" ∈ rule.kept
    · exact steadyAll_test htrusted hkept (hsaved hkept) htest
    · apply steadyAll_unsimplified
      · exact fun fuel hfuel => respects_of_heeds (heeds_of_trusted htrusted htest hfuel)
          fun hinside hkeeps => hinside.later hkeeps
      · intro name _ env hinside value
        by_cases hsimp : name = "simp"
        · subst hsimp
          exact hinside.later (.assign rule env hkept value)
        · exact hinside.assign hsimp value

end Trusting

end Restrained

end Emit

/-- What the function of a tree evaluates. -/
def Plan.function (plan : Plan) (isScored : Bool) (ctx : TreeContext) : Expr :=
  .block (Emit.locals plan.writes) (plan.body isScored ctx)

/-- The function of a plan heeds the restraint that the code of the plan is
under, by induction on the fuel: it may be called again by that code. -/
theorem Plan.Has.heeds_function {rule : Restraint} {plan : Plan}
    (hplan : plan.Has (.throughout (Expr.Restrained rule false)))
    (hkept : ∀ name ∈ rule.kept, name ∈ "simp" :: Emit.ownNames)
    (hsaved : "simp" ∈ rule.kept → Vars.savedSimp ∈ rule.kept) (isScored : Bool)
    (ctx : TreeContext) (fuel : Nat) :
    Eval.Heeds rule {plan.function isScored ctx} false
      ((plan.function isScored ctx).evalWithin fuel) := by
  induction fuel using Nat.strongRecOn with
  | ind fuel ih =>
    have htrusted : ∀ less < fuel, ∀ body ∈ ({plan.function isScored ctx} : Set Expr),
        Eval.Heeds rule {plan.function isScored ctx} false (body.evalWithin less) := by
      rintro less hless _ rfl
      exact ih less hless
    intro start
    apply Emit.brings_function
    · rintro less hless start scope rfl hopened
      have hupholds : Emit.Upholds (rule.setting {plan.function isScored ctx}) fuel
          (rule.Inside start) (· ≠ "simp") (fun _ => True) (Expr.Restrained rule false) :=
        Emit.upholds_inside htrusted hsaved
      have hbody := hupholds.forms.body (by decide) hplan (fun _ _ _ _ _ => trivial)
        (fun _ _ => trivial) isScored ctx
      have hinside : rule.Inside start (start.under scope) := by
        apply Restraint.Inside.of_under
        · intro name hname hsimp
          have hown := (List.mem_cons.mp (hkept name hname)).resolve_left hsimp
          exact hopened.declared name (.inl hown) hsimp
        · exact fun _ => hopened.flag
      apply (Emit.steadyAll_iff.mp hbody less hless _).imp
      · rintro _ rfl
        exact hinside
      · exact fun _ _ hlast => hlast.kept
      · exact fun _ hlast => hlast.kept
      · exact fun _ _ hlast => hlast.2.kept
    · rintro _ rfl
      exact .refl rule _

end ResponseTree

end SceneQuiz
