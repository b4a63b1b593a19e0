import SceneQuiz.Proofs.ResponseTree.PlanProperty
/-!
Properties of the function of a response tree.  The function puts fixed
statements around the code of a plan.  A property that these statements have if
their parts do is one of the whole function if it is one of the plan.

Two places ask for more than can be told from their parts.  A test runs between
statements that set `simp` and set it back, and a branch leaves only for certain
scenes.
-/

namespace SceneQuiz

theorem getD_of_forall {α : Type} {good : α → Prop} {found : Option α} {other : α}
    (hfound : ∀ value ∈ found, good value) (hother : good other) : good (found.getD other) := by
  cases found with
  | none => exact hother
  | some value => exact hfound value rfl

namespace ResponseTree

/-- All branches of a plan leave for scenes with a property. -/
def Plan.LeadsTo (plan : Plan) (good : String → Prop) : Prop :=
  ∀ node ∈ plan.nodes, ∀ outcome, ∀ transition ∈ (node.branch outcome).transition,
    good transition.target

/-- What the function does before it returns. -/
def Plan.work (plan : Plan) (isScored : Bool) (ctx : TreeContext) : List Expr :=
  (if plan.setup.isEmpty then []
    else [Emit.orGiveUp (plan.setup.map Statement.expr)]) ++
    plan.nodes.map (fun node => Emit.node node ctx.options.nodeErrorLimit) ++
    Emit.updates ctx.stateVariables plan.transitionWrites ++
    (if isScored then
      [Emit.rounded Vars.score ctx.options.scoreScale,
        Emit.rounded Vars.penalty ctx.options.scoreScale]
    else [])

theorem Plan.body_eq (plan : Plan) (isScored : Bool) (ctx : TreeContext) :
    plan.body isScored ctx = plan.work isScored ctx ++ [Emit.result] := rfl

namespace Emit

/-- Variables of the function of a tree. -/
def ownNames : List String :=
  [Vars.score, Vars.penalty, Vars.path, Vars.results, Vars.feedback, Vars.errors,
    Vars.nextScene, Vars.stop, Vars.updates, Vars.nodeErrors, Vars.testResult, Vars.outcome,
    Vars.savedSimp, Vars.branchResult]

/-- Variables that the function assigns in the course of its work. -/
def workNames : List String :=
  [Vars.score, Vars.penalty, Vars.path, Vars.results, Vars.feedback, Vars.errors,
    Vars.stop, Vars.updates, Vars.nodeErrors, Vars.testResult, Vars.outcome,
    Vars.branchResult]

/-- The functions that the code of a tree calls, answer tests, `errcatch` and
`return` aside. -/
def called : List String :=
  ["append", "cons", "endcons", "first", "is", "max", "member", "min", "round"]

/-- The operators that the code of a tree uses. -/
def operators : List BinOp := [.add, .and, .div, .eq, .greater, .mul, .notEq, .or]

/-- A test between statements that switch simplification off and back. -/
def unsimplified (test : Expr) : List Expr :=
  [.assign Vars.savedSimp (.ident "simp"), .assign "simp" (.bool false),
    .assign Vars.testResult (.call "errcatch" [test]),
    .assign "simp" (.ident Vars.savedSimp)]

/-- The items of what the function returns. -/
def resultItems : List Expr :=
  [.ident Vars.score, .ident Vars.penalty, .ident Vars.path, .ident Vars.results,
    .call "append" [.list [.str rootTag], .ident Vars.feedback],
    .ident Vars.nextScene, .ident Vars.updates, .ident Vars.errors]

/-- The function declares its own variables and what its statements write, `simp`
aside. -/
theorem declaredNames_locals (written : NameSet) :
    (locals written).filterMap Expr.declaredName? =
      ownNames ++ written.names.filter fun name => !isGlobalFlag name := by
  have haccumulators : accumulators.filterMap Expr.declaredName? = ownNames := rfl
  have hkept : ∀ names : List String,
      (names.map Expr.keep).filterMap Expr.declaredName? = names := by
    intro names
    simp [List.filterMap_map, Function.comp_def, Expr.keep, Expr.assign, Expr.declaredName?,
      Expr.asIdent?]
  rw [locals, List.filterMap_append, haccumulators, hkept]

/-- Properties `Q` of code and `R` of statements in sequence that the code of a
tree has if its parts have them and the code of the plan has `P`.  Names with `N`
may be read, names with `M` assigned, and scenes with `S` left for. -/
structure Forms (N M S : String → Prop) (P Q : Expr → Prop) (R : List Expr → Prop) : Prop where
  names : ∀ name ∈ ownNames, N name
  planned : ∀ {e}, P e → Q e
  nil : R []
  one : ∀ {e}, Q e → R [e]
  append : ∀ {items others}, R items → R others → R (items ++ others)
  str : ∀ text, Q (.str text)
  bool : ∀ truth, Q (.bool truth)
  int : ∀ n, Q (.int n)
  ident : ∀ {name}, N name → Q (.ident name)
  assign : ∀ {name value}, M name → Q value → Q (.assign name value)
  call : ∀ name ∈ called, ∀ args, (∀ arg ∈ args, Q arg) → Q (.call name args)
  errcatch : ∀ {items}, R items → Q (.call "errcatch" items)
  giveUp : Q giveUp
  index : ∀ {target indices}, Q target → (∀ e ∈ indices, Q e) → Q (.index target indices)
  list : ∀ items, (∀ item ∈ items, Q item) → Q (.list items)
  group : ∀ {items}, R items → Q (.group items)
  not : ∀ {operand}, Q operand → Q (.not operand)
  binary : ∀ op ∈ operators, ∀ {left right}, Q left → Q right → Q (.binary op left right)
  cond : ∀ {test body}, Q test → Q body → ∀ otherwise, (∀ e ∈ otherwise, Q e) →
    Q (.ifThen test body otherwise)
  scene : ∀ {target}, S target → Q (.assign Vars.nextScene (.str target))
  tested : ∀ {test}, P test → R (unsimplified test)

namespace Forms

variable {N M S : String → Prop} {P Q : Expr → Prop} {R : List Expr → Prop}
  (hQ : Forms N M S P Q R)

include hQ

theorem all {items : List Expr} (h : ∀ e ∈ items, Q e) : R items := by
  induction items with
  | nil => exact hQ.nil
  | cons e rest ih =>
      rw [List.forall_mem_cons] at h
      exact hQ.append (hQ.one h.1) (ih h.2)

theorem slot {name : String} (h : name ∈ ownNames) : Q (.ident name) :=
  hQ.ident (hQ.names name h)

theorem appendTo {list : String} (h : list ∈ ownNames) (hset : M list) {item : Expr}
    (hitem : Q item) : Q (appendTo list item) :=
  hQ.assign hset (hQ.call _ (by decide) _ (by simpa [hitem] using hQ.slot h))

theorem increment {counter : String} (h : counter ∈ ownNames) (hset : M counter) :
    Q (increment counter) :=
  hQ.assign hset (hQ.binary _ (by decide) (hQ.slot h) (hQ.int 1))

theorem isEmptyList {e : Expr} (he : Q e) : Q (isEmptyList e) :=
  hQ.binary _ (by decide) he (hQ.list [] (List.forall_mem_nil _))

theorem nth {list : String} (h : list ∈ ownNames) (index : Nat) : Q (nth list index) :=
  hQ.index (hQ.slot h) (by simpa using hQ.int index)

theorem completed {statements : List Expr} (h : R statements) :
    Q (.call "errcatch" (statements ++ [Expr.bool true])) :=
  hQ.errcatch (hQ.append h (hQ.one (hQ.bool true)))

theorem orGiveUp {statements : List Expr} (h : R statements) : Q (orGiveUp statements) :=
  hQ.cond (hQ.isEmptyList (hQ.completed h)) hQ.giveUp none nofun

theorem rounded {name : String} (h : name ∈ ownNames) (hset : M name) (scale : Nat) :
    Q (rounded name scale) := by
  have hmin : Q (.call "min" [.int 1, .ident name]) :=
    hQ.call _ (by decide) _ (by simp [hQ.int, hQ.slot h])
  have hmax : Q (.call "max" [.int 0, .call "min" [.int 1, .ident name]]) :=
    hQ.call _ (by decide) _ (by simp [hQ.int, hmin])
  have hscaled := hQ.binary .mul (by decide) hmax (hQ.int scale)
  have hround : Q (.call "round" [.binary .mul
      (.call "max" [.int 0, .call "min" [.int 1, .ident name]]) (.int scale)]) :=
    hQ.call _ (by decide) _ (by simpa using hscaled)
  exact hQ.assign hset (hQ.binary _ (by decide) hround (hQ.int scale))

theorem fold {op : BinOp} (hop : op ∈ operators) {items : List Expr} (h : ∀ e ∈ items, Q e) :
    ∀ e ∈ Expr.fold op items, Q e := by
  cases items with
  | nil => exact nofun
  | cons first rest =>
      intro e he
      rw [← Option.some.inj he]
      rw [List.forall_mem_cons] at h
      obtain ⟨hfirst, hrest⟩ := h
      induction rest generalizing first e with
      | nil => exact hfirst
      | cons second rest ih =>
          rw [List.forall_mem_cons] at hrest
          exact ih _ _ rfl (hQ.binary op hop hfirst hrest.1) hrest.2

/-- Has one of the branches that lead to a node been taken? -/
theorem reached (entries : List String) :
    Q ((Expr.fold .or (entries.map fun token =>
      Expr.call "member" [.str token, .ident Vars.path])).getD (.bool false)) := by
  have htokens : ∀ e ∈ entries.map fun token =>
      Expr.call "member" [.str token, .ident Vars.path], Q e :=
    List.forall_mem_map.mpr fun token _ =>
      hQ.call _ (by decide) _ (by simp [hQ.str, hQ.slot (by decide : Vars.path ∈ ownNames)])
  exact getD_of_forall (hQ.fold (by decide : BinOp.or ∈ operators) htokens) (hQ.bool false)

theorem guard (isRoot : Bool) (entries : List String) : Q (guard isRoot entries) := by
  have hrunning : Q (.not (.ident Vars.stop)) := hQ.not (hQ.slot (by decide))
  unfold Emit.guard
  dsimp only
  split
  · exact hrunning
  · exact hQ.binary _ (by decide) hrunning (hQ.reached entries)

theorem runTest {test : Expr} (htest : P test)
    (hset : ∀ name ∈ [Vars.errors, Vars.nodeErrors, Vars.testResult], M name) (path : Locator) :
    R (runTest test path) := by
  simp only [List.forall_mem_cons] at hset
  obtain ⟨herrors, hcounter, hresult, -⟩ := hset
  have hnull := hQ.assign hcounter (hQ.int 0)
  have hrecord := hQ.appendTo (by decide) herrors
    (hQ.str (Locator.text (path ++ [Segment.field "test"])))
  have hcount := hQ.increment (by decide) hcounter
  have hfailed := hQ.assign hresult (hQ.list [.bool false, .str "ATError", .str ""]
    (by simp [hQ.bool, hQ.str]))
  have hfirst := hQ.assign hresult
    (hQ.call "first" (by decide) [.ident Vars.testResult]
      (by simpa using hQ.slot (by decide : Vars.testResult ∈ ownNames)))
  have hcases := hQ.cond (hQ.isEmptyList (hQ.slot (by decide : Vars.testResult ∈ ownNames)))
    (hQ.group (hQ.all (List.forall_mem_cons.mpr ⟨hrecord, List.forall_mem_cons.mpr
      ⟨hcount, List.forall_mem_singleton.mpr hfailed⟩⟩)))
    (some (.assign Vars.testResult (.call "first" [.ident Vars.testResult])))
    (by simpa using hfirst)
  exact hQ.append (hQ.append (hQ.one hnull) (hQ.tested htest)) (hQ.one hcases)

theorem judged (hset : M Vars.outcome) :
    Q (.assign Vars.outcome (.call "is" [Emit.nth Vars.testResult 1])) :=
  hQ.assign hset (hQ.call "is" (by decide) _ (by simpa using hQ.nth (by decide) 1))

/-- What is recorded of an outcome beside its mark. -/
theorem noted (hset : ∀ name ∈ [Vars.results, Vars.feedback], M name) (name : String)
    (quiet : Bool) :
    ∀ e ∈ [Emit.appendTo Vars.results
        (.list [.str name, .ident Vars.outcome, Emit.nth Vars.testResult 2])] ++
      if quiet then [] else [Emit.appendTo Vars.feedback (Emit.nth Vars.testResult 3)], Q e := by
  have hresult : Vars.testResult ∈ ownNames := by decide
  have houtcome : Vars.outcome ∈ ownNames := by decide
  have hnote := hQ.appendTo (by decide) (hset Vars.results (by decide))
    (hQ.list [.str name, .ident Vars.outcome, Emit.nth Vars.testResult 2]
      (by simp [hQ.str, hQ.slot houtcome, hQ.nth hresult]))
  have hshown := hQ.appendTo (by decide) (hset Vars.feedback (by decide)) (hQ.nth hresult 3)
  refine List.forall_mem_append.mpr ⟨List.forall_mem_singleton.mpr hnote, ?_⟩
  split
  · exact List.forall_mem_nil _
  · exact List.forall_mem_singleton.mpr hshown

theorem recordOutcome (hset : ∀ name ∈ workNames, M name) (name : String) (quiet : Bool) :
    R (recordOutcome name quiet) := by
  have hpath : Vars.path ∈ ownNames := by decide
  have htoken := hQ.cond (hQ.slot (by decide : Vars.outcome ∈ ownNames))
    (hQ.str (pathToken name true)) (some (.str (pathToken name false))) (by simpa using hQ.str _)
  have hmark := hQ.assign (hset Vars.path (by decide)) (hQ.call "cons" (by decide)
    [.ifThen (.ident Vars.outcome) (.str (pathToken name true))
      (some (.str (pathToken name false))), .ident Vars.path]
    (by simp [htoken, hQ.slot hpath]))
  have hnoted := hQ.noted (fun name hname => hset name (by revert name; decide)) name quiet
  apply hQ.all
  exact List.forall_mem_cons.mpr ⟨hQ.judged (hset _ (by decide)),
    List.forall_mem_cons.mpr ⟨hmark, hnoted⟩⟩

theorem assigned {target : String} (htarget : M target) {value : Option Expr}
    (hvalue : ∀ e ∈ value, P e) : ∀ e ∈ (value.map (Expr.assign target)).toList, Q e := by
  intro e he
  obtain ⟨before, hbefore, rfl⟩ := Option.map_eq_some_iff.mp (Option.mem_toList.mp he)
  exact hQ.assign htarget (hQ.planned (hvalue before hbefore))

theorem shown (hset : M Vars.feedback) {feedback : Option Expr} (h : ∀ e ∈ feedback, P e) :
    ∀ e ∈ (feedback.map (Emit.appendTo Vars.feedback)).toList, Q e := by
  intro e he
  obtain ⟨before, hbefore, rfl⟩ := Option.map_eq_some_iff.mp (Option.mem_toList.mp he)
  exact hQ.appendTo (by decide) hset (hQ.planned (h before hbefore))

/-- What the function takes from the plan of a branch. -/
theorem branchStatements (hset : ∀ name ∈ workNames, M name) {plan : BranchPlan}
    (h : plan.Has (.throughout P))
    (htarget : ∀ transition ∈ plan.transition, S transition.target) :
    ∀ e ∈ branchStatements plan, Q e := by
  have htransition : ∀ e ∈ (plan.transition.map transition).getD [], Q e := by
    cases hfound : plan.transition with
    | none => exact List.forall_mem_nil _
    | some found =>
        have hscene := hQ.scene (htarget found hfound)
        have hstop := hQ.assign (hset Vars.stop (by decide)) (hQ.bool true)
        exact List.forall_mem_append.mpr ⟨by simp [hscene, hstop],
          List.forall_mem_map.mpr fun statement hmem =>
            hQ.planned (h.transition found hfound statement hmem)⟩
  unfold Emit.branchStatements
  simp only [List.forall_mem_append]
  exact ⟨⟨⟨hQ.assigned (hset _ (by decide)) h.score, hQ.assigned (hset _ (by decide)) h.penalty⟩,
    htransition⟩, hQ.shown (hset _ (by decide)) h.feedback⟩

/-- What is done about an error in a branch. -/
theorem branchError (hset : ∀ name ∈ [Vars.errors, Vars.nodeErrors], M name) (path : Locator) :
    Q (.ifThen (Emit.isEmptyList (.ident Vars.branchResult))
      (.group [Emit.appendTo Vars.errors (.str path.text), Emit.increment Vars.nodeErrors])
      none) := by
  have hrecord := hQ.appendTo (by decide) (hset Vars.errors (by decide)) (hQ.str path.text)
  have hcount := hQ.increment (by decide) (hset Vars.nodeErrors (by decide))
  refine hQ.cond (hQ.isEmptyList (hQ.slot (by decide))) (hQ.group (hQ.all ?_)) none nofun
  exact List.forall_mem_cons.mpr ⟨hrecord, List.forall_mem_singleton.mpr hcount⟩

theorem branch (hset : ∀ name ∈ workNames, M name) {plan : BranchPlan}
    (h : plan.Has (.throughout P))
    (htarget : ∀ transition ∈ plan.transition, S transition.target) (path : Locator) :
    ∀ e ∈ branch plan path, Q e := by
  intro e he
  unfold Emit.branch at he
  split at he
  · cases he
  · rw [← Option.some.inj he]
    have hcaught := hQ.assign (hset Vars.branchResult (by decide))
      (hQ.completed (hQ.all (hQ.branchStatements hset h htarget)))
    have hcases := hQ.branchError
      (fun name hname => hset name (by revert name; decide)) path
    exact hQ.group (hQ.append (hQ.one hcaught) (hQ.one hcases))

theorem takeBranch (hset : ∀ name ∈ workNames, M name) {plan : NodePlan}
    (h : plan.Has (.throughout P))
    (htarget : ∀ outcome, ∀ transition ∈ (plan.branch outcome).transition, S transition.target)
    (path : Locator) : R (takeBranch plan path) := by
  have hsides : ∀ outcome, Q ((Emit.branch (plan.branch outcome)
      (path ++ [Segment.branch outcome])).getD (.bool false)) := fun outcome =>
    getD_of_forall (hQ.branch hset (h.branch outcome) (htarget outcome) _) (hQ.bool false)
  have hchoice := hQ.cond (hQ.slot (by decide : Vars.outcome ∈ ownNames)) (hsides true)
    (some _) (by simpa using hsides false)
  unfold Emit.takeBranch
  dsimp only
  split
  · exact hQ.one hchoice
  · exact hQ.nil

/-- A node with more errors than the limit ends the function. -/
theorem limit (errorLimit : Nat) :
    Q (.ifThen (.binary .greater (.ident Vars.nodeErrors) (.int errorLimit)) Emit.giveUp none) :=
  hQ.cond (hQ.binary .greater (by decide) (hQ.slot (by decide)) (hQ.int errorLimit)) hQ.giveUp
    none nofun

theorem node (hset : ∀ name ∈ workNames, M name) {plan : NodePlan}
    (h : plan.Has (.throughout P))
    (htarget : ∀ outcome, ∀ transition ∈ (plan.branch outcome).transition, S transition.target)
    (errorLimit : Nat) : Q (node plan errorLimit) := by
  have htest := hQ.runTest h.test (fun name hname => hset name (by revert name; decide))
    [.node plan.index]
  refine hQ.cond (hQ.guard _ _) (hQ.group ?_) none nofun
  exact hQ.append (hQ.append (hQ.append htest (hQ.recordOutcome hset _ _))
    (hQ.takeBranch hset h htarget _)) (hQ.one (hQ.limit errorLimit))

theorem updates (hset : M Vars.updates) (stateVariables : List StateVariable) {written : NameSet}
    (hwritten : ∀ name ∈ written, N name) : R (updates stateVariables written) := by
  unfold Emit.updates
  dsimp only
  split
  · exact hQ.nil
  · refine hQ.one (hQ.cond ?_ ?_ none nofun)
    · exact hQ.binary _ (by decide) (hQ.slot (by decide)) (hQ.bool false)
    · apply hQ.assign hset
      apply hQ.list
      refine List.forall_mem_map.mpr fun slot hslot => ?_
      have hname := hwritten slot.name (of_decide_eq_true (List.mem_filter.mp hslot).2)
      exact hQ.list _ (by simp [hQ.int, hQ.ident hname])

theorem resultItems : ∀ e ∈ resultItems, Q e := by
  have hslots : ∀ name ∈ ownNames, Q (.ident name) := fun name hname => hQ.slot hname
  simp only [ownNames, List.forall_mem_cons] at hslots
  have htag := hQ.list [.str rootTag] (by simpa using hQ.str rootTag)
  have hfeedback := hQ.call "append" (by decide)
    [.list [.str rootTag], .ident Vars.feedback] (by simp [htag, hslots])
  simp [Emit.resultItems, hslots, hfeedback]

theorem result : Q result := hQ.list _ hQ.resultItems

theorem setup {code : Fragment} (h : ∀ statement ∈ code, P statement.expr) :
    R (if code.isEmpty then [] else [Emit.orGiveUp (code.map Statement.expr)]) := by
  split
  · exact hQ.nil
  · refine hQ.one (hQ.orGiveUp (hQ.all (List.forall_mem_map.mpr fun statement hmem => ?_)))
    exact hQ.planned (h statement hmem)

theorem rounding (hset : ∀ name ∈ [Vars.score, Vars.penalty], M name) (isScored : Bool)
    (scale : Nat) :
    R (if isScored then [Emit.rounded Vars.score scale, Emit.rounded Vars.penalty scale]
      else []) := by
  have hscore := hQ.rounded (by decide) (hset Vars.score (by decide)) scale
  have hpenalty := hQ.rounded (by decide) (hset Vars.penalty (by decide)) scale
  split
  · exact hQ.append (hQ.one hscore) (hQ.one hpenalty)
  · exact hQ.nil

/-- The statements of the function but for the last, given those of the plan. -/
theorem work (hset : ∀ name ∈ workNames, M name) {plan : Plan} (h : plan.Has (.throughout P))
    (htarget : plan.LeadsTo S) (hwritten : ∀ name ∈ plan.transitionWrites, N name)
    (isScored : Bool) (ctx : TreeContext) : R (plan.work isScored ctx) := by
  have hnodes : ∀ e ∈ plan.nodes.map fun node =>
      Emit.node node ctx.options.nodeErrorLimit, Q e :=
    List.forall_mem_map.mpr fun node hnode =>
      hQ.node hset (h.nodes node hnode) (htarget node hnode) _
  have hrounding := hQ.rounding (fun name hname => hset name (by revert name; decide)) isScored
    ctx.options.scoreScale
  exact hQ.append (hQ.append (hQ.append (hQ.setup h.setup) (hQ.all hnodes))
    (hQ.updates (hset _ (by decide)) _ hwritten)) hrounding

theorem body (hset : ∀ name ∈ workNames, M name) {plan : Plan} (h : plan.Has (.throughout P))
    (htarget : plan.LeadsTo S) (hwritten : ∀ name ∈ plan.transitionWrites, N name)
    (isScored : Bool) (ctx : TreeContext) : R (plan.body isScored ctx) :=
  hQ.append (hQ.work hset h htarget hwritten isScored ctx) (hQ.one hQ.result)

end Forms

/-- A property that code of a tree has if its parts have it, where names with
`N` may be read and assigned, and statements need no more than each of them. -/
structure Builds (N : String → Prop) (Q : Expr → Prop) : Prop where
  names : ∀ name ∈ "simp" :: ownNames, N name
  str : ∀ text, Q (.str text)
  bool : ∀ truth, Q (.bool truth)
  int : ∀ n, Q (.int n)
  ident : ∀ {name}, N name → Q (.ident name)
  assign : ∀ {name value}, N name → Q value → Q (.assign name value)
  call : ∀ name ∈ "errcatch" :: "return" :: called, ∀ args, (∀ arg ∈ args, Q arg) →
    Q (.call name args)
  index : ∀ {target indices}, Q target → (∀ e ∈ indices, Q e) → Q (.index target indices)
  list : ∀ items, (∀ item ∈ items, Q item) → Q (.list items)
  group : ∀ items, (∀ item ∈ items, Q item) → Q (.group items)
  not : ∀ {operand}, Q operand → Q (.not operand)
  binary : ∀ op ∈ operators, ∀ {left right}, Q left → Q right → Q (.binary op left right)
  cond : ∀ {test body}, Q test → Q body → ∀ otherwise, (∀ e ∈ otherwise, Q e) →
    Q (.ifThen test body otherwise)

namespace Builds

variable {N : String → Prop} {Q : Expr → Prop} (hQ : Builds N Q)

include hQ

theorem known {name : String} (h : name ∈ ownNames) : N name :=
  hQ.names name (List.mem_cons_of_mem _ h)

theorem forms : Forms N N (fun _ => True) Q Q fun items => ∀ e ∈ items, Q e where
  names _ hname := hQ.known hname
  planned he := he
  nil := List.forall_mem_nil _
  one he := List.forall_mem_singleton.mpr he
  append hitems hothers := List.forall_mem_append.mpr ⟨hitems, hothers⟩
  str := hQ.str
  bool := hQ.bool
  int := hQ.int
  ident := hQ.ident
  assign := hQ.assign
  call name hname := hQ.call name (List.mem_cons_of_mem _ (List.mem_cons_of_mem _ hname))
  errcatch hitems := hQ.call _ (by decide) _ hitems
  giveUp := hQ.call _ (by decide) _ (by simpa using hQ.list [] (List.forall_mem_nil _))
  index := hQ.index
  list := hQ.list
  group hitems := hQ.group _ hitems
  not := hQ.not
  binary := hQ.binary
  cond := hQ.cond
  scene _ := hQ.assign (hQ.known (by decide)) (hQ.str _)
  tested {test} htest := by
    have hsimp : N "simp" := hQ.names _ List.mem_cons_self
    have hsaved : N Vars.savedSimp := hQ.known (by decide)
    have hresult : N Vars.testResult := hQ.known (by decide)
    have hcaught := hQ.assign hresult
      (hQ.call "errcatch" (by decide) [test] (List.forall_mem_singleton.mpr htest))
    simp only [unsimplified, List.forall_mem_cons]
    exact ⟨hQ.assign hsaved (hQ.ident hsimp), hQ.assign hsimp (hQ.bool false), hcaught,
      hQ.assign hsimp (hQ.ident hsaved), List.forall_mem_nil _⟩

theorem locals {written : NameSet} (hwritten : ∀ name ∈ written, N name) :
    ∀ e ∈ locals written, Q e := by
  have hslots : ∀ name ∈ ownNames, N name := fun name hname => hQ.known hname
  simp only [ownNames, List.forall_mem_cons] at hslots
  have hnone := hQ.list [] (List.forall_mem_nil _)
  refine List.forall_mem_append.mpr ⟨?_, List.forall_mem_map.mpr fun name hname => ?_⟩
  · simp [accumulators, hQ.assign, hQ.ident, hQ.int, hQ.bool, hnone, hslots]
  · have hname := hwritten name (NameSet.mem_names.mp (List.mem_filter.mp hname).1)
    exact hQ.assign hname (hQ.ident hname)

/-- All statements of the function, given those of the plan. -/
theorem body {plan : Plan} (h : plan.Has (.throughout Q))
    (hwritten : ∀ name ∈ plan.transitionWrites, N name) (isScored : Bool) (ctx : TreeContext) :
    ∀ e ∈ plan.body isScored ctx, Q e :=
  hQ.forms.body (fun name hname => hQ.known (by revert name; decide)) h
    (fun _ _ _ _ _ => trivial) hwritten isScored ctx

end Builds

end Emit

end ResponseTree

end SceneQuiz
