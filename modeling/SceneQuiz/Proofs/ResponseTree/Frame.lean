import SceneQuiz.Proofs.Machine.Outcome
import SceneQuiz.Proofs.Machine.Scope
import SceneQuiz.ResponseTree.Code
/-!
The variables of the function of a response tree.  While the function runs,
its innermost scope binds exactly these, so the scope is a record of their
values: reading a variable reads a field, and assigning one updates a field.
-/

namespace SceneQuiz

namespace ResponseTree

/-- A variable of the function itself. -/
inductive Slot where
  | score
  | penalty
  | path
  | results
  | feedback
  | errors
  | nextScene
  | stop
  | updates
  | nodeErrors
  | testResult
  | outcome
  | savedSimp
  | branchResult
deriving DecidableEq

def Slot.name : Slot → String
  | .score => Vars.score
  | .penalty => Vars.penalty
  | .path => Vars.path
  | .results => Vars.results
  | .feedback => Vars.feedback
  | .errors => Vars.errors
  | .nextScene => Vars.nextScene
  | .stop => Vars.stop
  | .updates => Vars.updates
  | .nodeErrors => Vars.nodeErrors
  | .testResult => Vars.testResult
  | .outcome => Vars.outcome
  | .savedSimp => Vars.savedSimp
  | .branchResult => Vars.branchResult

/-- The values of the variables. -/
structure Frame where
  score : Value
  penalty : Value
  path : Value
  results : Value
  feedback : Value
  errors : Value
  nextScene : Value
  stop : Value
  updates : Value
  nodeErrors : Value
  testResult : Value
  outcome : Value
  savedSimp : Value
  branchResult : Value

namespace Frame

def get (frame : Frame) : Slot → Value
  | .score => frame.score
  | .penalty => frame.penalty
  | .path => frame.path
  | .results => frame.results
  | .feedback => frame.feedback
  | .errors => frame.errors
  | .nextScene => frame.nextScene
  | .stop => frame.stop
  | .updates => frame.updates
  | .nodeErrors => frame.nodeErrors
  | .testResult => frame.testResult
  | .outcome => frame.outcome
  | .savedSimp => frame.savedSimp
  | .branchResult => frame.branchResult

def set (frame : Frame) (slot : Slot) (value : Value) : Frame :=
  match slot with
  | .score => { frame with score := value }
  | .penalty => { frame with penalty := value }
  | .path => { frame with path := value }
  | .results => { frame with results := value }
  | .feedback => { frame with feedback := value }
  | .errors => { frame with errors := value }
  | .nextScene => { frame with nextScene := value }
  | .stop => { frame with stop := value }
  | .updates => { frame with updates := value }
  | .nodeErrors => { frame with nodeErrors := value }
  | .testResult => { frame with testResult := value }
  | .outcome => { frame with outcome := value }
  | .savedSimp => { frame with savedSimp := value }
  | .branchResult => { frame with branchResult := value }

/-- The variables in the order they are declared in. -/
def bindings (frame : Frame) : List (String × Value) :=
  [(Vars.score, frame.score), (Vars.penalty, frame.penalty),
    (Vars.path, frame.path), (Vars.results, frame.results),
    (Vars.feedback, frame.feedback), (Vars.errors, frame.errors),
    (Vars.nextScene, frame.nextScene), (Vars.stop, frame.stop),
    (Vars.updates, frame.updates), (Vars.nodeErrors, frame.nodeErrors),
    (Vars.testResult, frame.testResult), (Vars.outcome, frame.outcome),
    (Vars.savedSimp, frame.savedSimp), (Vars.branchResult, frame.branchResult)]

/-- The scope of the function.  Frames are compared as records, so the scope
itself stays closed. -/
@[irreducible] def scope (frame : Frame) : Scope :=
  NameMap.ofList frame.bindings

/-- The frame a call starts with. -/
def initial : Frame where
  score := .int 0
  penalty := .int 0
  path := .list []
  results := .list []
  feedback := .list []
  errors := .list []
  nextScene := .bool false
  stop := .bool false
  updates := .list []
  nodeErrors := .int 0
  testResult := .symbol Vars.testResult
  outcome := .symbol Vars.outcome
  savedSimp := .symbol Vars.savedSimp
  branchResult := .symbol Vars.branchResult

theorem nodup_bindings (frame : Frame) :
    (frame.bindings.map Prod.fst).Nodup := by
  change [Vars.score, Vars.penalty, Vars.path, Vars.results, Vars.feedback,
    Vars.errors, Vars.nextScene, Vars.stop, Vars.updates, Vars.nodeErrors,
    Vars.testResult, Vars.outcome, Vars.savedSimp, Vars.branchResult].Nodup
  decide

theorem get?_scope (frame : Frame) (slot : Slot) :
    frame.scope.get? slot.name = some (frame.get slot) := by
  rw [scope, NameMap.get?_ofList frame.nodup_bindings]
  cases slot <;> rfl

theorem get?_scope_simp (frame : Frame) : frame.scope.get? "simp" = none := by
  rw [scope, NameMap.get?_ofList frame.nodup_bindings]
  rfl

theorem get_set_self (frame : Frame) (slot : Slot) (value : Value) :
    (frame.set slot value).get slot = value := by
  cases slot <;> rfl

theorem insert_scope (frame : Frame) (slot : Slot) (value : Value) :
    frame.scope.insert slot.name value = (frame.set slot value).scope := by
  apply NameMap.eq_of_get?
  intro name
  rw [NameMap.get?_insert]
  by_cases hname : name = slot.name
  · subst hname
    rw [if_pos rfl, get?_scope, get_set_self]
  · rw [if_neg hname, scope, scope, NameMap.get?_ofList frame.nodup_bindings,
      NameMap.get?_ofList (frame.set slot value).nodup_bindings]
    cases slot <;> simp only [Slot.name] at hname <;>
      simp only [bindings, set, NameMap.lookup, hname, if_false]

theorem contains_scope (frame : Frame) (slot : Slot) :
    frame.scope.contains slot.name = true := by
  rw [NameMap.contains, get?_scope]
  rfl

theorem contains_scope_simp (frame : Frame) :
    frame.scope.contains "simp" = false := by
  rw [NameMap.contains, get?_scope_simp]
  rfl

end Frame

variable {machine : Machine} {env middle : Environment}

/-- Reading a variable of the function. -/
theorem evaluates_slot (frame : Frame) (slot : Slot) :
    (Expr.ident slot.name).Evaluates machine (env.under frame.scope)
      (.ok (frame.get slot)) (env.under frame.scope) := by
  have hread : (Expr.ident slot.name).Evaluates machine (env.under frame.scope)
      (.ok (((env.under frame.scope).get? slot.name).getD (.symbol slot.name)))
      (env.under frame.scope) := Expr.evaluates_ident slot.name
  rwa [Environment.get?_under_bound (frame.get?_scope slot),
    Option.getD_some] at hread

/-- Assigning a variable of the function. -/
theorem evaluates_set {frame later : Frame} (slot : Slot) {e : Expr}
    {value : Value}
    (h : e.Evaluates machine (env.under frame.scope) (.ok value)
      (middle.under later.scope)) :
    (Expr.assign slot.name e).Evaluates machine (env.under frame.scope)
      (.ok value) (middle.under (later.set slot value).scope) := by
  have hassign : (Expr.assign slot.name e).Evaluates machine
      (env.under frame.scope) (.ok value)
      ((middle.under later.scope).assign slot.name value) :=
    Expr.evaluates_assign h
  rwa [Environment.assign_under_bound value (later.contains_scope slot),
    Frame.insert_scope] at hassign

/-- The value that `simp` has, or the symbol it stands for. -/
def simpOf (env : Environment) : Value := (env.get? "simp").getD (.symbol "simp")

/-- Reading `simp` passes the function's own variables by. -/
theorem evaluates_simp (frame : Frame) :
    (Expr.ident "simp").Evaluates machine (env.under frame.scope)
      (.ok (simpOf env)) (env.under frame.scope) := by
  have hread : (Expr.ident "simp").Evaluates machine (env.under frame.scope)
      (.ok (((env.under frame.scope).get? "simp").getD (.symbol "simp")))
      (env.under frame.scope) := Expr.evaluates_ident "simp"
  rwa [Environment.get?_under_free frame.get?_scope_simp] at hread

/-- Assigning `simp` passes the function's own variables by. -/
theorem evaluates_set_simp {frame : Frame} {e : Expr} {value : Value}
    (h : e.Evaluates machine (env.under frame.scope) (.ok value)
      (env.under frame.scope)) :
    (Expr.assign "simp" e).Evaluates machine (env.under frame.scope)
      (.ok value) ((env.assign "simp" value).under frame.scope) := by
  have hassign : (Expr.assign "simp" e).Evaluates machine
      (env.under frame.scope) (.ok value)
      ((env.under frame.scope).assign "simp" value) :=
    Expr.evaluates_assign h
  rwa [Environment.assign_under_free value frame.contains_scope_simp] at hassign

end ResponseTree

end SceneQuiz
