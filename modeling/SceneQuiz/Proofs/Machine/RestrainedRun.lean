import SceneQuiz.Proofs.Machine.Course
import SceneQuiz.Proofs.Machine.Obedience
/-!
Evaluation of restrained code heeds the restraint, by induction on the fuel and
by the rule that the code is restrained by.  Calls of trusted functions are
taken at their word, as long as they heed it with less fuel.

Inside a block that declares the names that a restraint keeps they may be assigned,
for that does not reach the variables outside.  The block does not declare `simp`,
so setting `simp` does reach them, and has to be made up for.

A restraint keeps the names that code does not assign, and keeps the code inside its
blocks; a policy keeps all names that code assigns only where they are locals.  Code
under both leaves both kinds of names alone.
-/

namespace SceneQuiz

namespace Environment

theorem exists_under_of_open {env : Environment} (h : env.locals ≠ []) :
    ∃ scope, env = env.pop.under scope := by
  obtain ⟨locals, globals⟩ := env
  cases locals with
  | nil => exact absurd rfl h
  | cons scope outer => exact ⟨scope, rfl⟩

theorem define_under (env : Environment) (scope : Scope) (name : String) (value : Value) :
    (env.under scope).define name value = env.under (scope.insert name value) := rfl

end Environment

namespace Eval

open Machine

variable {rule : Restraint} {trusted : Set Expr} {caught : Bool}

/-- A relation that lasts as long as names are kept is respected by runs that
heed the restraint. -/
theorem Heeds.respects {α : Type} {rel : Machine → Machine → Prop} {run : Eval α}
    (h : Heeds rule trusted caught run)
    (hrel : ∀ {first second}, rel first second → second = first ∧ rule.Governs trusted first)
    (hlasts : ∀ {first after}, rel first first → rule.Governs trusted after →
      rule.Kept first.env after.env → rel after after) :
    Respects rel (fun _ => caught = true) run := by
  constructor
  intro first second outcome after hpair hrun
  obtain ⟨rfl, hgoverns⟩ := hrel hpair
  obtain ⟨final, hfinal, hsince, hreleases⟩ :=
    (heeds_iff.mp h second.env).ends ⟨rfl, hgoverns, .refl rule _⟩ hrun
  obtain ⟨-, rfl⟩ := lift_injective (hrun.symm.trans hfinal)
  refine ⟨after, hrun, fun hgas => ?_, hreleases⟩
  obtain ⟨-, hafter, hkept⟩ := hsince hgas
  exact hlasts hpair hafter hkept

theorem Heeds.weaken {α : Type} {run : Eval α} (h : Heeds rule trusted false run) :
    Heeds rule trusted caught run := by
  intro start
  exact (h start).imp (fun _ heq => heq) (fun _ _ hkept => hkept) (fun _ hkept => hkept)
    fun _ _ hleft => absurd hleft.1 Bool.false_ne_true

/-- A scope of its own. -/
theorem Heeds.within {α : Type} {run : Eval α} (h : Heeds rule trusted caught run)
    (bindings : List (String × Value)) : Heeds rule trusted caught (inScope bindings run) := by
  intro start
  apply Brings.within
  rintro _ rfl
  apply (h _).imp (fun _ heq => heq)
  · exact fun _ _ hkept => hkept.pop
  · exact fun _ hkept => hkept.pop
  · exact fun _ _ hkept => ⟨hkept.1, hkept.2.pop⟩

theorem heeds_sequence {ev : Expr → Eval Value} {items : List Expr}
    (h : ∀ e ∈ items, Heeds rule trusted caught (ev e)) (last : Value) :
    Heeds rule trusted caught (sequence ev last items) :=
  heeds_iff.mpr fun start =>
    Respects.inherited.sequence (fun e he => heeds_iff.mp (h e he) start) last

/-- A loop opens a scope and binds nothing outside of it. -/
theorem heeds_loop {ev : Expr → Eval Value} {var : String} {body : Expr}
    (h : Heeds rule trusted caught (ev body)) (values : List Value) :
    Heeds rule trusted caught (Eval.loop ev var body values) := by
  rw [heeds_iff]
  intro start
  apply Respects.loop
  intro first second hsince
  obtain ⟨rfl, hgoverns, hkept⟩ := hsince
  let inside : Machine → Machine → Prop := fun last final =>
    final = last ∧ rule.Governs trusted last ∧ last.env.locals ≠ [] ∧
      rule.Kept start last.env.pop
  refine ⟨inside, inside, ?_, ?_, ?_, fun hinside => hinside, ?_⟩
  · exact ⟨rfl, hgoverns.changed rfl rfl, List.cons_ne_nil _ _, hkept⟩
  · rintro last _ ⟨rfl, hlast, -, hpopped⟩
    exact ⟨rfl, hlast.changed rfl rfl, hpopped⟩
  · rintro value _ last ⟨rfl, hlast, hopen, hpopped⟩
    obtain ⟨scope, hunder⟩ := Environment.exists_under_of_open hopen
    refine ⟨rfl, hlast.changed rfl rfl, ?_, ?_⟩
    · rw [hunder, Environment.define_under]
      exact List.cons_ne_nil _ _
    · rw [hunder, Environment.define_under]
      exact hpopped
  · apply h.respects
    · exact fun hinside => ⟨hinside.1, hinside.2.1⟩
    · rintro last after ⟨-, -, hopen, hpopped⟩ hafter hround
      obtain ⟨scope, hunder⟩ := Environment.exists_under_of_open hopen
      have hlater : after.env.locals ≠ [] := by
        rw [← List.length_pos_iff, hround.depth, List.length_pos_iff]
        exact hopen
      rw [hunder] at hround
      exact ⟨rfl, hafter, hlater, hpopped.trans hround.pop⟩

/-- Setting `simp` for a while, statement by statement.  The block is entered with
the value of `simp` saved, so that its last statement can put it back. -/
theorem heeds_flagged {fuel : Nat} {flag : Bool} {value : Expr}
    (hsaved : Expr.savedFlag ∈ rule.kept) (hresult : "%_r" ∉ rule.kept)
    (hflag : .bool flag ∈ rule.flags)
    (hvalue : ∀ less < fuel, Heeds rule trusted true (value.evalWithin less)) :
    Heeds rule trusted caught (Eval.step (Expr.evalWithin fuel) (.flagged flag value)) := by
  intro start
  have hblock : Eval.step (Expr.evalWithin fuel) (.flagged flag value) =
      (do
        let found ← (Expr.ident "simp").evalWithin fuel
        catchReturn (inScope [(Expr.savedFlag, found), ("%_r", .symbol "%_r")]
          (sequence (Expr.evalWithin fuel) (.bool false)
            [.assign "simp" (.bool flag), .assign "%_r" value,
              .assign "simp" (.ident Expr.savedFlag), .ident "%_r"]))) := by
    simp only [Expr.flagged, Expr.block, Expr.assign, Eval.step, Eval.call, if_true, Eval.block,
      Eval.locals, bind_assoc, pure_bind]
  rw [hblock]
  apply (Brings.ident "simp").bind
  intro found
  apply Brings.of_each
  rintro _ ⟨rfl, rfl⟩
  apply Brings.caught
  apply Brings.within
  rintro start rfl
  let scope : Scope :=
    NameMap.ofList [(Expr.savedFlag, start.reading "simp"), ("%_r", .symbol "%_r")]
  let inner := start.under scope
  let set := inner.assign "simp" (.bool flag)
  have hset : rule.Kept inner set := (Restraint.Kept.refl rule inner).assign_simp (.inr hflag)
  have hcourse : Brings (rule.setting trusted) (· = inner) (fun _ => rule.Kept inner)
      (rule.Kept inner)
      (fun _ => rule.Kept inner) (sequence (Expr.evalWithin fuel) (.bool false)
        [.assign "simp" (.bool flag), .assign "%_r" value,
          .assign "simp" (.ident Expr.savedFlag), .ident "%_r"]) := by
    have hon : Brings (rule.setting trusted) (· = inner) (fun _ => (· = set)) (rule.Kept inner)
        (fun _ => rule.Kept inner) ((Expr.assign "simp" (.bool flag)).evalWithin fuel) := by
      apply Brings.assign (fun _ _ => Brings.bool flag)
      rintro _ _ ⟨rfl, rfl⟩
      rfl
    have hstore : Brings (rule.setting trusted) (· = set) (fun _ => rule.Kept set) (rule.Kept inner)
        (fun _ => rule.Kept inner) ((Expr.assign "%_r" value).evalWithin fuel) := by
      have hrun : ∀ less < fuel, Brings (rule.setting trusted) (· = set) (fun _ => rule.Kept set)
          (rule.Kept inner) (fun _ => rule.Kept inner) (value.evalWithin less) := by
        intro less hless
        apply (hvalue less hless).brings
        · rintro _ env rfl hkept
          exact ⟨fun _ => hkept, hset.trans hkept⟩
        · rintro - _ env rfl hkept _
          exact hset.trans hkept
      exact Brings.assign hrun fun found env hkept => hkept.trans (.assign rule env hresult found)
    have hback : Brings (rule.setting trusted) (rule.Kept set) (fun _ => rule.Kept inner)
        (rule.Kept inner) (fun _ => rule.Kept inner)
        ((Expr.assign "simp" (.ident Expr.savedFlag)).evalWithin fuel) := by
      apply Brings.assign (fun _ _ => Brings.ident Expr.savedFlag)
      rintro _ env ⟨hkept, rfl⟩
      have hcolumn : env.column Expr.savedFlag = inner.column Expr.savedFlag := by
        rw [hkept.columns _ hsaved (by decide)]
        exact Environment.column_assign_of_ne inner _ (by decide)
      apply (hset.trans hkept).assign_simp
      left
      rw [Environment.reading_of_column hcolumn]
      simp [inner, scope, Environment.reading, Environment.get?_eq_column, NameMap.ofList,
        NameMap.get?_insert, Expr.savedFlag]
    apply Brings.sequence_cons hon
    intro _
    apply Brings.sequence_cons hstore
    intro _
    apply Brings.sequence_cons hback
    intro _
    apply Brings.sequence_cons ((Brings.ident "%_r").imp (fun _ hkept => hkept)
      (fun _ _ hread => hread.1) (fun _ hbroken => hbroken) (fun _ _ hleft => hleft))
    exact fun _ => .value fun _ hkept => hkept
  exact hcourse.imp (fun _ heq => heq) (fun _ _ hkept => hkept.pop) (fun _ hkept => hkept.pop)
    fun _ _ hkept => hkept.pop

/-- Calls, where restrained functions are evaluated by `ev` and trusted ones heed
the restraint. -/
theorem heeds_apply {ev : Expr → Eval Value}
    (hev : ∀ {body : Expr}, body.Restrained rule false → Heeds rule trusted false (ev body))
    (htrusted : ∀ body ∈ trusted, Heeds rule trusted false (ev body)) (name : String)
    (args : List Value) : Heeds rule trusted caught (Eval.apply ev name args) := by
  rw [heeds_iff]
  intro start
  apply Respects.apply (Setting.pairing_still _ _)
  · intro first second hsince host hhost
    exact releases_of_unreturned (hsince.holds.hosts name host hhost args)
  · intro first second hsince function hfunction _
    have hbody : Heeds rule trusted false (ev function.body) := by
      rcases hsince.holds.functions name function hfunction with hmem | hrestrained
      · exact htrusted function.body hmem
      · exact hev hrestrained
    exact heeds_iff.mp (hbody.weaken.within _) start

theorem heeds_of_restrained (fuel : Nat)
    (htrusted : ∀ less < fuel, ∀ body ∈ trusted, Heeds rule trusted false (body.evalWithin less)) :
    ∀ {caught : Bool} {e : Expr}, e.Restrained rule caught →
      Heeds rule trusted caught (e.evalWithin fuel) := by
  induction fuel using Nat.strongRecOn with
  | ind fuel ih =>
    intro caught e he
    rw [heeds_iff]
    intro start
    apply Respects.of_step (Setting.pairing_still _ _)
    intro less hless
    have hpart : ∀ {caught : Bool} {part : Expr}, part.Restrained rule caught →
        Heeds rule trusted caught (part.evalWithin less) :=
      ih less hless fun fewer hfewer => htrusted fewer (by omega)
    revert start
    rw [← heeds_iff]
    cases he with
    | @node _ e he hparts =>
        have hrun : ∀ start part, part ∈ e.children →
            Respects ((rule.setting trusted).Still (rule.Kept start)) (fun _ => caught = true)
              (part.evalWithin less) :=
          fun start part hmem => heeds_iff.mp (hpart (hparts part hmem)) start
        apply heeds_iff.mpr
        intro start
        cases e with
        | ident name => exact .read fun hsince => by rw [hsince.same]
        | forIn var source body =>
            have hbody := hpart (hparts body (by simp [Expr.children]))
            apply (Respects.inherited.members (hrun start source (by simp [Expr.children]))).bind
            exact fun values => heeds_iff.mp (heeds_loop hbody values) start
        | forRange var first step last body =>
            obtain ⟨hfirst, hstep, hlast, -⟩ := Expr.forall_children_forRange.mp (hrun start)
            have hbody := hpart (hparts body (by simp [Expr.children]))
            apply (Respects.inherited.rangeOf hfirst hstep hlast).bind
            exact fun values => heeds_iff.mp (heeds_loop hbody values) start
        | quote => cases he
        | _ =>
            refine Respects.inherited.routine ?_ (hrun start) fun name args => ?_
            · exact he
            · exact heeds_iff.mp (heeds_apply hpart (htrusted less hless) name args) start
    | quote operand => exact heeds_iff.mpr fun _ => .value _
    | assign htarget hsource =>
        apply heeds_iff.mpr
        intro start
        apply Respects.assignment (heeds_iff.mp (hpart hsource) start)
        rintro name rfl value first _ ⟨rfl, hgoverns, hkept⟩
        exact ⟨rfl, hgoverns.changed rfl rfl,
          hkept.trans (.assign rule _ (htarget name rfl) value)⟩
    | define target hbody =>
        apply heeds_iff.mpr
        intro start
        apply Respects.definition
        rintro name params - names first _ ⟨rfl, hgoverns, hkept⟩
        refine ⟨rfl, ⟨fun other function hfunction => ?_, hgoverns.hosts⟩, hkept⟩
        rw [NameMap.get?_insert] at hfunction
        by_cases heq : other = name
        · rw [if_pos heq] at hfunction
          cases hfunction
          exact .inr hbody
        · rw [if_neg heq] at hfunction
          exact hgoverns.functions other function hfunction
    | leave hargs =>
        apply heeds_iff.mpr
        intro start
        apply Respects.inherited.leave fun _ => .failed rfl
        exact fun arg harg => heeds_iff.mp (hpart (hargs arg harg)) start
    | block hvalues _ hbody =>
        apply heeds_iff.mpr
        intro start
        apply Respects.block
        · exact fun name right hmem => heeds_iff.mp (hpart (hvalues _ right hmem)) start
        · intro bindings _
          have hinside := heeds_sequence (fun part hmem => hpart (hbody part hmem)) (.bool false)
          exact heeds_iff.mp (hinside.within bindings) start
    | bare hbare hargs =>
        apply heeds_iff.mpr
        intro start
        apply Respects.bare hbare
        have hinside := heeds_sequence (fun arg hmem => hpart (hargs arg hmem)) (.bool false)
        exact heeds_iff.mp (hinside.within []) start
    | flagged hsaved hresult hflag hvalue =>
        apply heeds_flagged hsaved hresult hflag
        intro fewer hfewer
        exact ih fewer (by omega) (fun fewest h => htrusted fewest (by omega)) hvalue

end Eval

namespace Restraint

/-- The variables inside the block, where those outside are kept. -/
structure Inside (rule : Restraint) (start env : Environment) : Prop where
  opened : env.locals ≠ []
  kept : rule.Kept start env.pop
  bound : ∀ name ∈ rule.kept, name ≠ "simp" → ∃ value outer, env.column name = some value :: outer
  flag : "simp" ∈ rule.kept → ∃ outer, env.column "simp" = none :: outer

/-- The same restraint, but `simp` may be set to anything. -/
def loose (rule : Restraint) : Restraint := { rule with flags := Set.univ }

variable {rule : Restraint} {start env after : Environment}

theorem Kept.loose (h : rule.Kept start env) : rule.loose.Kept start env :=
  ⟨h.depth, h.columns, fun hkept => ⟨(h.simp hkept).1, .inr trivial⟩⟩

/-- Setting `simp` to a value that is allowed makes up for what it was before. -/
theorem Kept.restored (h : rule.loose.Kept start env) {value : Value}
    (hvalue : value = start.reading "simp" ∨ value ∈ rule.flags) :
    rule.Kept start (env.assign "simp" value) := by
  have hset := h.assign_simp (.inr trivial : value = start.reading "simp" ∨ value ∈ Set.univ)
  refine ⟨hset.depth, hset.columns, fun hkept => ⟨(hset.simp hkept).1, ?_⟩⟩
  rw [Environment.reading_assign]
  exact hvalue

namespace Inside

theorem of_under {scope : Scope}
    (hbound : ∀ name ∈ rule.kept, name ≠ "simp" → scope.contains name = true)
    (hflag : "simp" ∈ rule.kept → scope.get? "simp" = none) :
    rule.Inside start (start.under scope) := by
  refine ⟨List.cons_ne_nil _ _, .refl rule start, fun name hname hne => ?_, fun hkept => ?_⟩
  · obtain ⟨value, hvalue⟩ := Option.isSome_iff_exists.mp (hbound name hname hne)
    exact ⟨value, start.column name, by rw [Environment.column_under, hvalue]⟩
  · exact ⟨start.column "simp", by rw [Environment.column_under, hflag hkept]⟩

theorem loose (h : rule.Inside start env) : rule.loose.Inside start env :=
  ⟨h.opened, h.kept.loose, h.bound, h.flag⟩

/-- The variables outside and the scope of the block. -/
theorem exists_scope (h : rule.Inside start env) :
    ∃ scope, env = env.pop.under scope ∧
      (∀ name ∈ rule.kept, name ≠ "simp" → scope.contains name = true) ∧
        ("simp" ∈ rule.kept → scope.get? "simp" = none) := by
  obtain ⟨scope, hunder⟩ := Environment.exists_under_of_open h.opened
  have hcolumn : ∀ name, env.column name = scope.get? name :: env.pop.column name := by
    intro name
    rw [← Environment.column_under, ← hunder]
  refine ⟨scope, hunder, fun name hname hne => ?_, fun hkept => ?_⟩
  · obtain ⟨value, outer, hbound⟩ := h.bound name hname hne
    rw [NameMap.contains, (List.cons.inj ((hcolumn name).symm.trans hbound)).1]
    rfl
  · obtain ⟨outer, hfree⟩ := h.flag hkept
    exact (List.cons.inj ((hcolumn "simp").symm.trans hfree)).1

/-- A run that keeps the names keeps those outside. -/
theorem later (h : rule.Inside start env) (hrun : rule.Kept env after) :
    rule.Inside start after := by
  obtain ⟨scope, hunder, -, hflag⟩ := h.exists_scope
  constructor
  · rw [← List.length_pos_iff, hrun.depth, List.length_pos_iff]
    exact h.opened
  · rw [hunder] at hrun
    exact h.kept.trans hrun.pop
  · intro name hname hne
    rw [hrun.columns name hname hne]
    exact h.bound name hname hne
  · intro hkept
    have hreassigned := (hrun.simp hkept).1
    rw [hunder, Environment.column_under, hflag hkept] at hreassigned
    obtain ⟨other, hother, -⟩ := hreassigned.of_free (by simp [Environment.column])
    exact ⟨other, hother⟩

/-- Names that the block declares may be assigned. -/
theorem assign (h : rule.Inside start env) {name : String} (hname : name ≠ "simp")
    (value : Value) : rule.Inside start (env.assign name value) := by
  by_cases hkept : name ∈ rule.kept
  · obtain ⟨scope, hunder, hbound, -⟩ := h.exists_scope
    have hassign : env.assign name value = env.pop.under (scope.insert name value) := by
      rw [hunder, Environment.assign_under_bound value (hbound name hkept hname)]
      rfl
    constructor
    · rw [hassign]
      exact List.cons_ne_nil _ _
    · rw [hassign]
      exact h.kept
    · intro other hother hne
      by_cases heq : other = name
      · subst heq
        exact ⟨value, env.pop.column other, by simp [hassign]⟩
      · rw [Environment.column_assign_of_ne env value heq]
        exact h.bound other hother hne
    · rw [Environment.column_assign_of_ne env value hname.symm]
      exact h.flag
  · exact h.later (.assign rule env hkept value)

/-- The block does not hide `simp`. -/
theorem reading_simp (h : rule.Inside start env) (hkept : "simp" ∈ rule.kept) :
    env.reading "simp" = env.pop.reading "simp" := by
  obtain ⟨scope, hunder, -, hflag⟩ := h.exists_scope
  rw [hunder, Environment.reading, Environment.get?_eq_column, Environment.column_under,
    hflag hkept, Environment.reading, Environment.get?_eq_column]
  rfl

/-- Setting `simp` to a value that is allowed, whatever it was set to before. -/
theorem restored (h : rule.loose.Inside start env) (hkept : "simp" ∈ rule.kept) {value : Value}
    (hvalue : value = start.reading "simp" ∨ value ∈ rule.flags) :
    rule.Inside start (env.assign "simp" value) := by
  obtain ⟨scope, hunder, hbound, hflag⟩ := h.exists_scope
  have hfree : scope.contains "simp" = false := by
    rw [NameMap.contains, hflag hkept]
    rfl
  have hassign : env.assign "simp" value = (env.pop.assign "simp" value).under scope := by
    rw [hunder, Environment.assign_under_free value hfree]
    rfl
  have hkeeps : rule.Kept start (env.pop.assign "simp" value) := h.kept.restored hvalue
  rw [hassign]
  have hinside : rule.Inside (env.pop.assign "simp" value)
      ((env.pop.assign "simp" value).under scope) := of_under hbound hflag
  exact ⟨hinside.opened, hkeeps, hinside.bound, hinside.flag⟩

/-- Setting `simp` to anything, for a while. -/
theorem switched (h : rule.Inside start env) (hkept : "simp" ∈ rule.kept) (value : Value) :
    rule.loose.Inside start (env.assign "simp" value) := by
  have hloose : rule.loose.loose.Inside start env := h.loose
  exact hloose.restored hkept (.inr trivial)

/-- What `simp` is set to inside the block is what it may be set to. -/
theorem allowed_simp (h : rule.Inside start env) (hkept : "simp" ∈ rule.kept) :
    env.reading "simp" = start.reading "simp" ∨ env.reading "simp" ∈ rule.flags := by
  rw [h.reading_simp hkept]
  exact (h.kept.simp hkept).2

end Inside

end Restraint

/-- Two things that are known of the functions of a machine. -/
def Setting.both (first second : Setting) : Setting where
  holds machine := first.holds machine ∧ second.holds machine
  steady h hfunctions hhosts :=
    ⟨first.steady h.1 hfunctions hhosts, second.steady h.2 hfunctions hhosts⟩

def Policy.setting (policy : Policy) : Setting := ⟨policy.Governs, .changed⟩

namespace Eval

variable {α : Type} {setting : Setting} {names : Set String}

/-- A run that leaves the columns of some names alone, and no block. -/
def Spares (setting : Setting) (names : Set String) (run : Eval α) : Prop :=
  ∀ start, Brings setting (· = start)
    (fun _ env => ∀ name ∈ names, env.column name = start.column name)
    (fun env => ∀ name ∈ names, env.column name = start.column name) (fun _ _ => False) run

theorem spares_of_heeds {rule : Restraint} {trusted : Set Expr} {policy : Policy}
    {written : Set String} {run : Eval α} (hheeds : Heeds rule trusted false run)
    (hkeeps : Keeps.Any policy written run)
    (hnames : ∀ name ∈ names, name ∈ rule.kept ∧ name ≠ "simp" ∨ name ∉ written) :
    Spares ((rule.setting trusted).both policy.setting) names run := by
  intro start
  constructor
  rintro before outcome after ⟨hrule, hpolicy⟩ rfl hrun hgas
  have hkept := hheeds.kept hrule hrun hgas
  obtain ⟨hafter, hends⟩ := (hheeds before.env).ends hrule rfl hrun hgas
  obtain ⟨hgoverns, -⟩ := hkeeps.ends hpolicy hrun
  have hcolumns : ∀ name ∈ names, after.env.column name = before.env.column name := by
    intro name hname
    rcases hnames name hname with ⟨hmem, hsimp⟩ | hfree
    · exact hkept.columns name hmem hsimp
    · exact (hgoverns.changes name).2 hfree
  refine ⟨⟨hafter, hgoverns.governs⟩, ?_⟩
  cases outcome with
  | ok value => exact hcolumns
  | error error =>
      cases error with
      | gasExhausted => trivial
      | returned => exact absurd hends.1 Bool.false_ne_true
      | _ => exact hcolumns

/-- What is known of the variables, as far as they are left alone. -/
theorem Spares.brings {run : Eval α} (h : Spares setting names run) {known : Environment → Prop}
    (hknown : ∀ {env after}, known env → (∀ name ∈ names, after.column name = env.column name) →
      known after) {left : Value → Environment → Prop} :
    Brings setting known (fun _ => known) known left run := by
  apply Brings.of_each
  intro start hstart
  apply (h start).imp (fun _ heq => heq)
  · exact fun _ _ hcolumns => hknown hstart hcolumns
  · exact fun _ hcolumns => hknown hstart hcolumns
  · exact fun _ _ hnever => hnever.elim

end Eval

end SceneQuiz
