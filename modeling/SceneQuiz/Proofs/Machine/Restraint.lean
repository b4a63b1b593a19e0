import SceneQuiz.Proofs.Machine.Nearness
import SceneQuiz.Proofs.Machine.Respect
/-!
Code that leaves some names alone and stays inside its blocks.  Restrained code
assigns none of the names that are kept, and uses `return` only where a block
around it takes that in; what it defines is restrained as well.  The one
exception is `simp`, which may be set for a while and set back: an error on the
way leaves it at the value it was set to.

Evaluation of restrained code keeps the names and leaves no block, however it
ends, unless it uses up the step budget.  The functions of a machine are
restrained too, or trusted to be as good.
-/

namespace SceneQuiz

/-- What code has to leave alone. -/
structure Restraint where
  /-- Names that are not assigned. -/
  kept : Set String
  /-- Values that `simp` may be set to for a while where it is kept. -/
  flags : Set Value

namespace Expr

/-- Code that is neither stored as it stands nor an assignment, and that leaves
or makes no block. -/
def isOpen : Expr → Bool
  | .quote _ => false
  | .binary op _ _ => op != .assign && op != .define
  | .call name _ => name != "block" && name != "return"
  | _ => true

/-- Where `simp` is saved while it is set. -/
def savedFlag : String := "%_s"

/-- `block([%_s: simp, %_r], simp: flag, %_r: value, simp: %_s, %_r)` -/
def flagged (flag : Bool) (value : Expr) : Expr :=
  .block [.assign savedFlag (.ident "simp"), .ident "%_r"]
    [.assign "simp" (.bool flag), .assign "%_r" value, .assign "simp" (.ident savedFlag),
      .ident "%_r"]

/-- Code under a restraint.  A `return` may be used if it is `caught`. -/
inductive Restrained (rule : Restraint) : (caught : Bool) → Expr → Prop where
  | node {caught : Bool} {e : Expr} (he : e.isOpen = true)
      (hparts : ∀ part ∈ e.children, Restrained rule caught part) : Restrained rule caught e
  | quote {caught : Bool} (operand : Expr) : Restrained rule caught (.quote operand)
  | assign {caught : Bool} {target source : Expr}
      (htarget : ∀ name, target = .ident name → name ∉ rule.kept)
      (hsource : Restrained rule caught source) :
      Restrained rule caught (.binary .assign target source)
  | define {caught : Bool} (target : Expr) {body : Expr} (hbody : Restrained rule false body) :
      Restrained rule caught (.binary .define target body)
  | leave {args : List Expr} (hargs : ∀ arg ∈ args, Restrained rule true arg) :
      Restrained rule true (.call "return" args)
  | block {caught : Bool} {declarations body : List Expr}
      (hvalues : ∀ left right, .binary .assign left right ∈ declarations →
        Restrained rule caught right)
      (hothers : ∀ e ∈ declarations, (∀ left right, e ≠ .binary .assign left right) →
        Restrained rule caught e)
      (hbody : ∀ part ∈ body, Restrained rule true part) :
      Restrained rule caught (.call "block" (.list declarations :: body))
  | bare {caught : Bool} {args : List Expr}
      (hbare : ∀ declarations body, args ≠ .list declarations :: body)
      (hargs : ∀ arg ∈ args, Restrained rule true arg) :
      Restrained rule caught (.call "block" args)
  | flagged {caught flag : Bool} {value : Expr} (hsaved : savedFlag ∈ rule.kept)
      (hresult : "%_r" ∉ rule.kept) (hflag : .bool flag ∈ rule.flags)
      (hvalue : Restrained rule true value) :
      Restrained rule caught (flagged flag value)

theorem Restrained.mono {rule : Restraint} {caught inside : Bool} {e : Expr}
    (h : e.Restrained rule caught) (hsub : caught = true → inside = true) :
    e.Restrained rule inside := by
  induction h generalizing inside with
  | node he _ ih => exact .node he fun part hpart => ih part hpart hsub
  | quote operand => exact .quote operand
  | assign htarget _ ih => exact .assign htarget (ih hsub)
  | define target hbody => exact .define target hbody
  | leave hargs =>
      obtain rfl := hsub rfl
      exact .leave hargs
  | block _ _ hbody ihvalues ihothers =>
      apply Restrained.block _ _ hbody
      · exact fun left right hmem => ihvalues left right hmem hsub
      · exact fun e he hother => ihothers e he hother hsub
  | bare hbare hargs => exact .bare hbare hargs
  | flagged hsaved hresult hflag hvalue => exact .flagged hsaved hresult hflag hvalue

end Expr

/-- The value of a name, or the name itself as a symbol. -/
def Environment.reading (env : Environment) (name : String) : Value :=
  (env.get? name).getD (.symbol name)

theorem Environment.reading_of_column {env other : Environment} {name : String}
    (h : other.column name = env.column name) : other.reading name = env.reading name := by
  rw [reading, reading, get?_eq_column, get?_eq_column, h]

theorem Environment.reading_assign (env : Environment) (name : String) (value : Value) :
    (env.assign name value).reading name = value := by
  rw [reading, get?_assign_self]
  rfl

/-- What is known of the functions of a machine.  Variables and budget play no
part in it. -/
structure Setting where
  holds : Machine → Prop
  steady : ∀ {before after}, holds before → after.functions = before.functions →
    after.hosts = before.hosts → holds after

/-- A machine in the setting whose variables are as `known` says, paired with
itself. -/
structure Setting.Still (setting : Setting) (known : Environment → Prop)
    (first second : Machine) : Prop where
  same : second = first
  holds : setting.holds first
  known : known first.env

theorem Setting.pairing_still (setting : Setting) (known : Environment → Prop) :
    Machine.Pairing (setting.Still known) where
  hosts h := by rw [h.same]
  functions h := by rw [h.same]
  gas h := by rw [h.same]
  limit h := by rw [h.same]
  counting h gas := ⟨by rw [h.same], setting.steady h.holds rfl rfl, h.known⟩

namespace Restraint

/-- What restrained code leaves of the variables. -/
structure Kept (rule : Restraint) (before after : Environment) : Prop where
  depth : after.locals.length = before.locals.length
  columns : ∀ name ∈ rule.kept, name ≠ "simp" → after.column name = before.column name
  simp : "simp" ∈ rule.kept → Reassigned (before.column "simp") (after.column "simp") ∧
    (after.reading "simp" = before.reading "simp" ∨ after.reading "simp" ∈ rule.flags)

namespace Kept

variable {rule : Restraint} {before middle after : Environment}

theorem refl (rule : Restraint) (env : Environment) : rule.Kept env env :=
  ⟨rfl, fun _ _ _ => rfl, fun _ => ⟨.same _, .inl rfl⟩⟩

theorem trans (hfirst : rule.Kept before middle) (hsecond : rule.Kept middle after) :
    rule.Kept before after := by
  constructor
  · exact hsecond.depth.trans hfirst.depth
  · exact fun name hname hne =>
      (hsecond.columns name hname hne).trans (hfirst.columns name hname hne)
  · intro hkept
    obtain ⟨hstart, hmiddle⟩ := hfirst.simp hkept
    obtain ⟨hrest, hlast⟩ := hsecond.simp hkept
    refine ⟨hstart.trans hrest, ?_⟩
    rcases hlast with heq | hflag
    · rwa [heq]
    · exact .inr hflag

theorem assign (rule : Restraint) (env : Environment) {name : String} (hname : name ∉ rule.kept)
    (value : Value) : rule.Kept env (env.assign name value) := by
  have hother : ∀ other ∈ rule.kept, (env.assign name value).column other = env.column other := by
    intro other hkept
    apply Environment.column_assign_of_ne
    rintro rfl
    exact hname hkept
  constructor
  · simpa [Environment.depth] using Environment.depth_assign name value env
  · exact fun other hkept _ => hother other hkept
  · intro hkept
    rw [hother "simp" hkept]
    exact ⟨.same _, .inl (Environment.reading_of_column (hother "simp" hkept))⟩

/-- Setting `simp` keeps all other names. -/
theorem assign_simp (h : rule.Kept before after) {value : Value}
    (hvalue : value = before.reading "simp" ∨ value ∈ rule.flags) :
    rule.Kept before (after.assign "simp" value) := by
  constructor
  · rw [← h.depth]
    simpa [Environment.depth] using Environment.depth_assign "simp" value after
  · intro name hname hne
    rw [Environment.column_assign_of_ne after value hne, h.columns name hname hne]
  · intro hkept
    rw [Environment.reading_assign]
    exact ⟨(h.simp hkept).1.trans (after.reassigned_assign "simp" value), hvalue⟩

/-- What a scope binds is gone once it is closed. -/
theorem pop {env : Environment} {scope : Scope} (h : rule.Kept (env.under scope) after) :
    rule.Kept env after.pop := by
  have hopen : after.locals ≠ [] := by
    intro hnil
    have hdepth := h.depth
    rw [hnil] at hdepth
    exact absurd hdepth (by simp [Environment.under])
  constructor
  · have hdepth := h.depth
    simp only [Environment.under, List.length_cons] at hdepth
    simp [Environment.pop, hdepth]
  · intro name hname hne
    rw [Environment.column_pop_of_open hopen, h.columns name hname hne, Environment.column_under]
    rfl
  · intro hkept
    obtain ⟨hreassigned, hreading⟩ := h.simp hkept
    rw [Environment.column_under] at hreassigned
    rw [Environment.column_pop_of_open hopen]
    refine ⟨hreassigned.tail, ?_⟩
    cases hbound : scope.get? "simp" with
    | some value =>
        rw [hbound] at hreassigned
        obtain ⟨other, hother⟩ := hreassigned.of_bound
        left
        apply Environment.reading_of_column
        rw [Environment.column_pop_of_open hopen, hother]
        rfl
    | none =>
        rw [hbound] at hreassigned
        have hcolumn : env.column "simp" ≠ [] := by simp [Environment.column]
        obtain ⟨other, hother, -⟩ := hreassigned.of_free hcolumn
        have hafter : after.pop.reading "simp" = after.reading "simp" := by
          rw [Environment.reading, Environment.reading, Environment.get?_eq_column,
            Environment.get?_eq_column, Environment.column_pop_of_open hopen, hother]
          rfl
        have hbefore : (env.under scope).reading "simp" = env.reading "simp" := by
          rw [Environment.reading, Environment.reading, Environment.get?_eq_column,
            Environment.get?_eq_column, Environment.column_under, hbound]
          rfl
        rwa [hafter, ← hbefore]

end Kept

/-- The functions of the machine are restrained or trusted, and what comes from
outside leaves no block. -/
structure Governs (rule : Restraint) (trusted : Set Expr) (machine : Machine) : Prop where
  functions : ∀ name function, machine.functions.get? name = some function →
    function.body ∈ trusted ∨ function.body.Restrained rule false
  hosts : ∀ name host, machine.hosts.get? name = some host → ∀ args, Unreturned (host args)

/-- Variables and budget play no part in whether a restraint governs. -/
theorem Governs.changed {rule : Restraint} {trusted : Set Expr} {before after : Machine}
    (h : rule.Governs trusted before) (hfunctions : after.functions = before.functions)
    (hhosts : after.hosts = before.hosts) : rule.Governs trusted after := by
  constructor
  · rw [hfunctions]
    exact h.functions
  · rw [hhosts]
    exact h.hosts

/-- The functions of the machine are restrained or trusted. -/
def setting (rule : Restraint) (trusted : Set Expr) : Setting := ⟨rule.Governs trusted, .changed⟩

end Restraint

end SceneQuiz
