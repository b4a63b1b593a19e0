import SceneQuiz.Machine.Value
import SceneQuiz.NameMap
/-!
Variables in nested scopes.  A look-up goes from the innermost scope outward to
the globals, and so does an assignment; a name bound nowhere is assigned as a
global.  Scoping is dynamic: a local hides a global from everything that runs
while its scope is open, called functions included.
-/

namespace SceneQuiz

/-- One scope. -/
abbrev Scope := NameMap Value

/-- Open scopes, the innermost first, over the globals. -/
structure Environment where
  locals : List Scope
  globals : Scope

namespace Environment

/-- No open scope, and the one global `simp: true`. -/
def initial : Environment := ⟨[], NameMap.empty.insert "simp" (.bool true)⟩

instance : Inhabited Environment := ⟨initial⟩

/-- The value of a name in the innermost of some scopes that binds it. -/
def lookup (name : String) : List Scope → Option Value
  | [] => none
  | scope :: rest =>
      match scope.get? name with
      | some value => some value
      | none => lookup name rest

/-- The value a name has here. -/
def get? (env : Environment) (name : String) : Option Value :=
  match lookup name env.locals with
  | some value => some value
  | none => env.globals.get? name

/-- Open a scope that binds nothing. -/
def push (env : Environment) : Environment :=
  { env with locals := .empty :: env.locals }

/-- Close the innermost scope; the globals always stay. -/
def pop (env : Environment) : Environment :=
  { env with locals := env.locals.tail }

/-- Bind a name in the innermost scope. -/
def define (name : String) (value : Value) (env : Environment) :
    Environment :=
  match env.locals with
  | [] => { env with globals := env.globals.insert name value }
  | scope :: rest => { env with locals := scope.insert name value :: rest }

/-- Bind several names in the innermost scope, one after the other. -/
def defineAll (bindings : List (String × Value)) (env : Environment) :
    Environment :=
  bindings.foldl (fun env binding => env.define binding.1 binding.2) env

/-- Scopes with a new value in the innermost one that binds the name. -/
def reassign? (name : String) (value : Value) :
    List Scope → Option (List Scope)
  | [] => none
  | scope :: rest =>
      if scope.contains name then some (scope.insert name value :: rest)
      else (reassign? name value rest).map (scope :: ·)

/-- Give a name a new value where it is bound, or as a global. -/
def assign (name : String) (value : Value) (env : Environment) : Environment :=
  match reassign? name value env.locals with
  | some locals => { env with locals := locals }
  | none => { env with globals := env.globals.insert name value }

/-- The number of scopes, the globals included. -/
def depth (env : Environment) : Nat := env.locals.length + 1

@[simp] theorem depth_push (env : Environment) :
    env.push.depth = env.depth + 1 := rfl

/-- Closing a scope undoes opening it. -/
@[simp] theorem pop_push (env : Environment) : env.push.pop = env := rfl

theorem length_of_reassign? {name : String} {value : Value}
    {scopes after : List Scope} (h : reassign? name value scopes = some after) :
    after.length = scopes.length := by
  induction scopes generalizing after with
  | nil => simp [reassign?] at h
  | cons scope rest ih =>
      simp only [reassign?] at h
      split at h
      · cases h
        rfl
      · obtain ⟨tail, htail, rfl⟩ := Option.map_eq_some_iff.mp h
        simp [ih htail]

/-- An assignment opens and closes no scope. -/
@[simp] theorem depth_assign (name : String) (value : Value)
    (env : Environment) : (env.assign name value).depth = env.depth := by
  unfold assign
  split
  · next after h => simp [depth, length_of_reassign? h]
  · rfl

@[simp] theorem depth_define (name : String) (value : Value)
    (env : Environment) : (env.define name value).depth = env.depth := by
  unfold define
  split
  · next h => simp [depth, h]
  · next h => simp [depth, h]

end Environment

end SceneQuiz
