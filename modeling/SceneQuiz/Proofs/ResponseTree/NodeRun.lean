import SceneQuiz.Proofs.ResponseTree.Frame
import SceneQuiz.Proofs.ResponseTree.Silent
/-!
Runs of the code of one node.  The code takes a frame of the function to
another one: it runs the test, records what the test said, and follows the
branch of the outcome.  Each part has a statement of its own here, and the
statement about the whole node is put together from them.
-/

namespace SceneQuiz

namespace ResponseTree

open SceneQuiz.Expr (Evaluates AllEvaluate Run)

variable {machine : Machine} {outer middle after : Environment}

/-- Statements take one frame, over some outer variables, to another. -/
def Steps (machine : Machine) (outer : Environment) (frame : Frame)
    (statements : List Expr) (after : Environment) (result : Frame) : Prop :=
  ∀ last, ∃ value, Run machine (outer.under frame.scope) last statements
    (.ok value) (after.under result.scope)

namespace Steps

variable {frame between result : Frame}

theorem nil : Steps machine outer frame [] outer frame :=
  fun last => ⟨last, .nil⟩

theorem cons {e : Expr} {rest : List Expr} {value : Value}
    (hhead : e.Evaluates machine (outer.under frame.scope) (.ok value)
      (middle.under between.scope))
    (htail : Steps machine middle between rest after result) :
    Steps machine outer frame (e :: rest) after result := by
  intro last
  obtain ⟨final, hrun⟩ := htail value
  exact ⟨final, .cons hhead hrun⟩

theorem append {first second : List Expr}
    (hfirst : Steps machine outer frame first middle between)
    (hsecond : Steps machine middle between second after result) :
    Steps machine outer frame (first ++ second) after result := by
  intro last
  obtain ⟨value, hrun⟩ := hfirst last
  obtain ⟨final, hnext⟩ := hsecond value
  exact ⟨final, hrun.append hnext⟩

/-- Statements in a group have a value, the last one. -/
theorem group {statements : List Expr}
    (h : Steps machine outer frame statements after result) :
    ∃ value, (Expr.group statements).Evaluates machine
      (outer.under frame.scope) (.ok value) (after.under result.scope) := by
  obtain ⟨value, hrun⟩ := h (.bool false)
  exact ⟨value, Expr.evaluates_group hrun⟩

end Steps

theorem evaluates_appendTo {frame : Frame} (slot : Slot) {item : Expr}
    {value : Value} {items : List Value} (hplain : machine.HasBuiltins)
    (hitems : frame.get slot = .list items)
    (hitem : item.Evaluates machine (outer.under frame.scope) (.ok value)
      (outer.under frame.scope)) :
    (Emit.appendTo slot.name item).Evaluates machine (outer.under frame.scope)
      (.ok (.list (items ++ [value])))
      (outer.under (frame.set slot (.list (items ++ [value]))).scope) := by
  have hslot : (Expr.ident slot.name).Evaluates machine (outer.under frame.scope)
      (.ok (.list items)) (outer.under frame.scope) := by
    rw [← hitems]
    exact evaluates_slot frame slot
  exact evaluates_set slot
    (Expr.evaluates_builtin .endcons hplain (.cons hitem (.cons hslot .nil)) rfl)

theorem evaluates_increment {frame : Frame} (slot : Slot) {n : Nat}
    (hn : frame.get slot = .int n) (hsmall : n + 1 < Decimal.twoPow 63) :
    (Emit.increment slot.name).Evaluates machine (outer.under frame.scope)
      (.ok (.int (n + 1 : Nat)))
      (outer.under (frame.set slot (.int (n + 1 : Nat))).scope) := by
  have hslot : (Expr.ident slot.name).Evaluates machine (outer.under frame.scope)
      (.ok (.int n)) (outer.under frame.scope) := by
    rw [← hn]
    exact evaluates_slot frame slot
  have hfits : Decimal.fitsWord ((n + 1 : Nat) : Int) = true :=
    Decimal.fitsWord_of_lt hsmall
  have hsum : Value.applyOperator .add (.int n) (.int (1 : Nat)) =
      .ok (.int (n + 1 : Nat)) := by
    change Value.ofExact ((n + 1 : Nat) : Int) = _
    rw [Value.ofExact, if_pos hfits]
  exact evaluates_set slot
    (Expr.evaluates_operator rfl hslot (Expr.evaluates_nat (by decide)) hsum)

theorem evaluates_nth {frame : Frame} (slot : Slot) (index : Nat)
    {items : List Value} {value : Value} (hitems : frame.get slot = .list items)
    (hsmall : index + 1 < 0x8000000000000000)
    (hvalue : items[index]? = some value) :
    (Emit.nth slot.name (index + 1)).Evaluates machine (outer.under frame.scope)
      (.ok value) (outer.under frame.scope) := by
  have hslot : (Expr.ident slot.name).Evaluates machine (outer.under frame.scope)
      (.ok (.list items)) (outer.under frame.scope) := by
    rw [← hitems]
    exact evaluates_slot frame slot
  refine Expr.evaluates_item hslot (Expr.evaluates_nat hsmall) ?_
  have hpos : (1 : Int) ≤ ((index + 1 : Nat) : Int) := by omega
  have hplace : (((index + 1 : Nat) : Int) - 1).toNat = index := by omega
  simp only [Value.item, if_pos hpos, hplace, hvalue]

theorem evaluates_isEmptyList {env result : Environment} {e : Expr}
    {items : List Value}
    (h : e.Evaluates machine env (.ok (.list items)) result) :
    (Emit.isEmptyList e).Evaluates machine env (.ok (.bool items.isEmpty))
      result := by
  refine Expr.evaluates_operator rfl h (Expr.evaluates_list .nil) ?_
  cases items <;> rfl

theorem evaluates_member {frame : Frame} {tokens : List String} (token : String)
    (hplain : machine.HasBuiltins)
    (hpath : frame.path = .list (tokens.map Value.str)) :
    (Expr.call "member" [.str token, .ident Vars.path]).Evaluates machine
      (outer.under frame.scope) (.ok (.bool (decide (token ∈ tokens))))
      (outer.under frame.scope) := by
  have hslot : (Expr.ident Vars.path).Evaluates machine (outer.under frame.scope)
      (.ok (.list (tokens.map Value.str))) (outer.under frame.scope) := by
    rw [← hpath]
    exact evaluates_slot frame .path
  refine Expr.evaluates_builtin .member hplain
    (.cons (Expr.evaluates_str token) (.cons hslot .nil)) ?_
  have hany : (tokens.map Value.str).any
      (fun other => other.looselyEquals (.str token)) =
        decide (token ∈ tokens) := by
    rw [Bool.eq_iff_iff]
    simp [Value.looselyEquals]
  exact congrArg (fun truth => Except.ok (Value.bool truth)) hany

/-- A node that is not the root waits for the mark of a branch into it. -/
theorem evaluates_guard {frame : Frame} {tokens : List String} {stopped : Bool}
    (isRoot : Bool) (entries : List String) (hplain : machine.HasBuiltins)
    (hpath : frame.path = .list (tokens.map Value.str))
    (hstop : frame.stop = .bool stopped) :
    (Emit.guard isRoot entries).Evaluates machine (outer.under frame.scope)
      (.ok (.bool (!stopped &&
        (isRoot || entries.any fun token => decide (token ∈ tokens)))))
      (outer.under frame.scope) := by
  have hrunning : (Expr.not (.ident Vars.stop)).Evaluates machine
      (outer.under frame.scope) (.ok (.bool !stopped))
      (outer.under frame.scope) := by
    refine Expr.evaluates_not ?_
    rw [← hstop]
    exact evaluates_slot frame .stop
  have hfold : ∀ (rest : List String) {first : Expr} {truth : Bool},
      first.Evaluates machine (outer.under frame.scope) (.ok (.bool truth))
        (outer.under frame.scope) →
      ((rest.map fun token =>
          Expr.call "member" [.str token, .ident Vars.path]).foldl
        (Expr.binary .or) first).Evaluates machine (outer.under frame.scope)
        (.ok (.bool (truth || rest.any fun token => decide (token ∈ tokens))))
        (outer.under frame.scope) := by
    intro rest
    induction rest with
    | nil =>
        intro first truth hfirst
        simpa using hfirst
    | cons token rest ih =>
        intro first truth hfirst
        have hmore := ih (Expr.evaluates_or hfirst
          (evaluates_member token hplain hpath))
        rwa [Bool.or_assoc] at hmore
  unfold Emit.guard
  cases isRoot with
  | true => simpa using hrunning
  | false =>
      refine Expr.evaluates_and hrunning ?_
      cases entries with
      | nil => exact Expr.evaluates_bool false
      | cons token rest =>
          exact hfold rest (evaluates_member token hplain hpath)

/-- How the test of a node ends. -/
inductive Verdict where
  | judged (outcome : Bool) (note feedback : Value)
  | raised (error : EvalError)

namespace Verdict

/-- How the evaluation of the test ends. -/
def ending : Verdict → Except EvalError Value
  | .judged outcome note feedback => .ok (.list [.bool outcome, note, feedback])
  | .raised error => .error error

/-- A test that raises an error has failed. -/
def outcome : Verdict → Bool
  | .judged outcome _ _ => outcome
  | .raised _ => false

def note : Verdict → Value
  | .judged _ note _ => note
  | .raised _ => .str "ATError"

def feedback : Verdict → Value
  | .judged _ _ feedback => feedback
  | .raised _ => .str ""

def isRaised : Verdict → Bool
  | .judged _ _ _ => false
  | .raised _ => true

/-- The error of a test can be trapped. -/
def IsTrappable : Verdict → Prop
  | .judged _ _ _ => True
  | .raised error => error.isCatchable = true

/-- What the test is taken to have answered. -/
def answer (verdict : Verdict) : Value :=
  .list [.bool verdict.outcome, verdict.note, verdict.feedback]

/-- The number of errors of a test. -/
def errorCount (verdict : Verdict) : Nat := if verdict.isRaised then 1 else 0

end Verdict

/-- Where the error of a test is recorded. -/
def testLocator (index : Nat) : Locator := [.node index, .field "test"]

/-- The frame in which a test runs. -/
def Frame.testing (frame : Frame) (simp : Value) : Frame :=
  { frame with nodeErrors := .int 0, savedSimp := simp }

/-- The frame after a test. -/
def Frame.tested (frame : Frame) (simp : Value) (verdict : Verdict)
    (errors : List Value) (index : Nat) : Frame :=
  { frame with
    nodeErrors := .int verdict.errorCount
    savedSimp := simp
    testResult := verdict.answer
    errors := .list (errors ++
      if verdict.isRaised then [.str (testLocator index).text] else []) }

/-- The test runs without simplification, which is on again afterwards if it was
before; an error of the test is recorded.  The trap wraps what was judged in a list,
and gives the empty list for an error. -/
theorem steps_runTest {frame : Frame} {test : Expr} {verdict : Verdict}
    {errors : List Value} (index : Nat) (hplain : machine.HasBuiltins)
    (herrors : frame.errors = .list errors) (htrap : verdict.IsTrappable)
    (htest : test.Evaluates machine
      ((outer.assign "simp" (.bool false)).under
        (frame.testing (simpOf outer)).scope) verdict.ending
      ((outer.assign "simp" (.bool false)).under
        (frame.testing (simpOf outer)).scope)) :
    Steps machine outer frame (Emit.runTest test [.node index])
      (outer.assign "simp" (simpOf outer))
      (frame.tested (simpOf outer) verdict errors index) := by
  have hrestore : ∀ trapped : Frame, trapped.savedSimp = simpOf outer →
      (Expr.assign "simp" (.ident Vars.savedSimp)).Evaluates machine
        ((outer.assign "simp" (.bool false)).under trapped.scope)
        (.ok (simpOf outer))
        ((outer.assign "simp" (simpOf outer)).under trapped.scope) := by
    intro trapped hsaved
    have hread : (Expr.ident Vars.savedSimp).Evaluates machine
        ((outer.assign "simp" (.bool false)).under trapped.scope)
        (.ok (simpOf outer))
        ((outer.assign "simp" (.bool false)).under trapped.scope) := by
      rw [← hsaved]
      exact evaluates_slot trapped .savedSimp
    have hset := evaluates_set_simp hread
    rwa [Environment.assign_assign] at hset
  refine .cons (evaluates_set .nodeErrors (Expr.evaluates_nat (by decide))) ?_
  refine .cons (evaluates_set .savedSimp (evaluates_simp _)) ?_
  refine .cons (evaluates_set_simp (Expr.evaluates_bool false)) ?_
  cases verdict with
  | judged outcome note feedback =>
      refine .cons (evaluates_set .testResult
        (Expr.evaluates_errcatch (.cons htest .nil))) ?_
      refine .cons (hrestore _ rfl) ?_
      let trapped := (frame.testing (simpOf outer)).set .testResult
        (.list [.list [.bool outcome, note, feedback]])
      have hanswer : (Expr.ident Vars.testResult).Evaluates machine
          ((outer.assign "simp" (simpOf outer)).under trapped.scope)
          (.ok (.list [.list [.bool outcome, note, feedback]]))
          ((outer.assign "simp" (simpOf outer)).under trapped.scope) :=
        evaluates_slot trapped .testResult
      have hfirst := evaluates_set .testResult
        (Expr.evaluates_builtin .first hplain (.cons hanswer .nil) rfl)
      have hsame : frame.tested (simpOf outer) (.judged outcome note feedback)
          errors index =
            trapped.set .testResult (.list [.bool outcome, note, feedback]) := by
        simp [trapped, Frame.tested, Frame.testing, Frame.set,
          Verdict.errorCount, Verdict.isRaised, Verdict.answer, Verdict.outcome,
          Verdict.note, Verdict.feedback, herrors]
      rw [hsame]
      exact .cons
        (Expr.evaluates_ifThen_else (evaluates_isEmptyList hanswer) hfirst) .nil
  | raised error =>
      refine .cons (evaluates_set .testResult
        (Expr.evaluates_errcatch_error htrap (.cons_error htest))) ?_
      refine .cons (hrestore _ rfl) ?_
      let trapped := (frame.testing (simpOf outer)).set .testResult (.list [])
      have hanswer : (Expr.ident Vars.testResult).Evaluates machine
          ((outer.assign "simp" (simpOf outer)).under trapped.scope)
          (.ok (.list []))
          ((outer.assign "simp" (simpOf outer)).under trapped.scope) :=
        evaluates_slot trapped .testResult
      have hrecord : Steps machine (outer.assign "simp" (simpOf outer)) trapped
          [Emit.appendTo Vars.errors (.str (testLocator index).text),
            Emit.increment Vars.nodeErrors,
            .assign Vars.testResult
              (.list [.bool false, .str "ATError", .str ""])]
          (outer.assign "simp" (simpOf outer))
          (frame.tested (simpOf outer) (.raised error) errors index) := by
        refine .cons (evaluates_appendTo .errors hplain herrors
          (Expr.evaluates_str _)) ?_
        refine .cons (evaluates_increment .nodeErrors rfl (by decide)) ?_
        exact .cons (evaluates_set .testResult (Expr.evaluates_list
          (.cons (Expr.evaluates_bool false) (.cons (Expr.evaluates_str _)
            (.cons (Expr.evaluates_str _) .nil))))) .nil
      obtain ⟨value, hgroup⟩ := hrecord.group
      exact .cons
        (Expr.evaluates_ifThen (evaluates_isEmptyList hanswer) hgroup) .nil

/-- The frame after the outcome of a test is recorded. -/
def Frame.recorded (frame : Frame) (name : String) (quiet : Bool)
    (verdict : Verdict) (path results feedback : List Value) : Frame :=
  { frame with
    outcome := .bool verdict.outcome
    path := .list (.str (pathToken name verdict.outcome) :: path)
    results := .list
      (results ++ [.list [.str name, .bool verdict.outcome, verdict.note]])
    feedback := .list
      (feedback ++ if quiet then [] else [verdict.feedback]) }

theorem steps_recordOutcome {frame : Frame} {verdict : Verdict}
    {path results feedback : List Value} (name : String) (quiet : Bool)
    (hplain : machine.HasBuiltins) (hanswer : frame.testResult = verdict.answer)
    (hpath : frame.path = .list path) (hresults : frame.results = .list results)
    (hfeedback : frame.feedback = .list feedback) :
    Steps machine outer frame (Emit.recordOutcome name quiet) outer
      (frame.recorded name quiet verdict path results feedback) := by
  have hquiet : Steps machine outer frame
      [.assign Vars.outcome (.call "is" [Emit.nth Vars.testResult 1]),
        .assign Vars.path
          (.call "cons" [
            .ifThen (.ident Vars.outcome) (.str (pathToken name true))
              (some (.str (pathToken name false))),
            .ident Vars.path]),
        Emit.appendTo Vars.results
          (.list [.str name, .ident Vars.outcome, Emit.nth Vars.testResult 2])]
      outer (frame.recorded name true verdict path results feedback) := by
    refine .cons (evaluates_set .outcome (Expr.evaluates_builtin .is hplain
      (.cons (evaluates_nth .testResult 0 hanswer (by decide) rfl) .nil) rfl)) ?_
    let decided := frame.set .outcome (.bool verdict.outcome)
    let marked := decided.set .path
      (.list (.str (pathToken name verdict.outcome) :: path))
    have htoken : (Expr.ifThen (.ident Vars.outcome) (.str (pathToken name true))
        (some (.str (pathToken name false)))).Evaluates machine
          (outer.under decided.scope)
          (.ok (.str (pathToken name verdict.outcome)))
          (outer.under decided.scope) := by
      have hread : (Expr.ident Vars.outcome).Evaluates machine
          (outer.under decided.scope) (.ok (.bool verdict.outcome))
          (outer.under decided.scope) := evaluates_slot decided .outcome
      cases hverdict : verdict.outcome with
      | true =>
          rw [hverdict] at hread
          exact Expr.evaluates_ifThen hread (Expr.evaluates_str _)
      | false =>
          rw [hverdict] at hread
          exact Expr.evaluates_ifThen_else hread (Expr.evaluates_str _)
    have hread : (Expr.ident Vars.path).Evaluates machine
        (outer.under decided.scope) (.ok (.list path))
        (outer.under decided.scope) := by
      rw [← hpath]
      exact evaluates_slot decided .path
    refine .cons (evaluates_set .path (Expr.evaluates_builtin .cons hplain
      (.cons htoken (.cons hread .nil)) rfl)) ?_
    have hkept : marked.get .results = .list results := hresults
    have hsaid : marked.get .testResult = verdict.answer := hanswer
    have hsame : frame.recorded name true verdict path results feedback =
        marked.set .results (.list (results ++
          [Value.list [.str name, .bool verdict.outcome, verdict.note]])) := by
      simp [decided, marked, Frame.recorded, Frame.set, hfeedback]
    rw [hsame]
    exact .cons (evaluates_appendTo .results hplain hkept
      (Expr.evaluates_list (.cons (Expr.evaluates_str name)
        (.cons (evaluates_slot marked .outcome)
          (.cons (evaluates_nth .testResult 1 hsaid (by decide) rfl) .nil)))))
      .nil
  have hshown : Steps machine outer
      (frame.recorded name true verdict path results feedback)
      (if quiet then [] else [Emit.appendTo Vars.feedback
        (Emit.nth Vars.testResult 3)]) outer
      (frame.recorded name quiet verdict path results feedback) := by
    cases quiet with
    | true => exact .nil
    | false =>
        have hsaid : (frame.recorded name true verdict path results
            feedback).get .testResult = verdict.answer := hanswer
        have hkept : (frame.recorded name true verdict path results
            feedback).get .feedback = .list feedback := by
          simp [Frame.recorded, Frame.get]
        exact .cons (evaluates_appendTo .feedback hplain hkept
          (evaluates_nth .testResult 2 hsaid (by decide) rfl)) .nil
  exact hquiet.append hshown

/-- The frame after a branch that leaves for a scene, or for none. -/
def Frame.left (frame : Frame) : Option String → Frame
  | none => frame
  | some target =>
      { frame with
        nextScene := .str target
        stop := .bool true
        branchResult := .list [.bool true] }

theorem evaluates_branch {ctx : TreeContext} (branch : Branch) (path : Locator)
    (frame : Frame) :
    ∃ value, ((Emit.branch (branch.silentPlan ctx) path).getD
        (.bool false)).Evaluates machine (outer.under frame.scope) (.ok value)
      (outer.under (frame.left (branch.exit.leavesFor? ctx.scene)).scope) := by
  unfold Branch.silentPlan
  cases branch.exit.leavesFor? ctx.scene with
  | none => exact ⟨_, Expr.evaluates_bool false⟩
  | some target =>
      let moved := (frame.set .nextScene (.str target)).set .stop (.bool true)
      have hmoved : Run machine (outer.under frame.scope) (.bool false)
          [.assign Vars.nextScene (.str target), .assign Vars.stop (.bool true),
            .bool true] (.ok (.bool true)) (outer.under moved.scope) :=
        .cons (evaluates_set .nextScene (Expr.evaluates_str target))
          (.cons (evaluates_set .stop (Expr.evaluates_bool true))
            (.cons (Expr.evaluates_bool true) .nil))
      have htrapped := evaluates_set .branchResult
        (Expr.evaluates_errcatch hmoved)
      have hresult : (Expr.ident Vars.branchResult).Evaluates machine
          (outer.under (frame.left (some target)).scope)
          (.ok (.list [.bool true]))
          (outer.under (frame.left (some target)).scope) :=
        evaluates_slot (frame.left (some target)) .branchResult
      exact Steps.group (.cons htrapped
        (.cons (Expr.evaluates_ifThen_skip (evaluates_isEmptyList hresult)) .nil))

theorem leavesFor?_of_branch {ctx : TreeContext} {branch : Branch}
    {path : Locator} (h : (Emit.branch (branch.silentPlan ctx) path).isSome = false) :
    branch.exit.leavesFor? ctx.scene = none := by
  unfold Branch.silentPlan at h
  cases htarget : branch.exit.leavesFor? ctx.scene with
  | none => rfl
  | some target =>
      rw [htarget] at h
      cases h

theorem steps_takeBranch {tree : ResponseTree} {ctx : TreeContext}
    {traversal : Traversal} {index : Nat} {node : Node} {frame : Frame}
    {outcome : Bool} (path : Locator) (houtcome : frame.outcome = .bool outcome) :
    Steps machine outer frame
      (Emit.takeBranch (node.silentPlan tree ctx traversal index) path) outer
      (frame.left ((node.branch outcome).exit.leavesFor? ctx.scene)) := by
  have hread : (Expr.ident Vars.outcome).Evaluates machine
      (outer.under frame.scope) (.ok (.bool outcome))
      (outer.under frame.scope) := by
    rw [← houtcome]
    exact evaluates_slot frame .outcome
  unfold Emit.takeBranch
  dsimp only
  split
  · cases outcome with
    | true =>
        obtain ⟨value, hbranch⟩ :=
          evaluates_branch node.onTrue (path ++ [Segment.branch true]) frame
        exact .cons (Expr.evaluates_ifThen hread hbranch) .nil
    | false =>
        obtain ⟨value, hbranch⟩ :=
          evaluates_branch node.onFalse (path ++ [Segment.branch false]) frame
        exact .cons (Expr.evaluates_ifThen_else hread hbranch) .nil
  · next hnone =>
      rw [Bool.not_eq_true, Bool.or_eq_false_iff] at hnone
      have hstays : (node.branch outcome).exit.leavesFor? ctx.scene = none := by
        cases outcome with
        | true => exact leavesFor?_of_branch hnone.1
        | false => exact leavesFor?_of_branch hnone.2
      rw [hstays]
      exact .nil

/-- Counts of less than 32 bits compare as the numbers they are. -/
theorem applyOperator_greater {count limit : Nat}
    (hcount : count < Decimal.twoPow 32) (hlimit : limit < Decimal.twoPow 32) :
    Value.applyOperator .greater (.int count) (.int limit) =
      .ok (.bool (decide (limit < count))) := by
  have hexact : ∀ n : Nat, n < 4294967296 → Decimal.nearestInt (n : Int) = n := by
    intro n hn
    have hbits : ((n : Int).natAbs) < 9007199254740992 := by omega
    exact Decimal.nearestInt_of_small hbits
  have hgreater : Value.compareInts .greater count limit =
      decide (limit < count) := by
    simp only [Value.compareInts, hexact count hcount, hexact limit hlimit]
    exact decide_eq_decide.mpr (by omega)
  simp only [Value.applyOperator, Value.compare?, hgreater]

/-- A node that stays within the limit of errors does not give up. -/
theorem steps_limit {frame : Frame} {count limit : Nat}
    (hcount : frame.nodeErrors = .int count) (hbelow : count ≤ limit)
    (hsmall : limit < Decimal.twoPow 32) :
    Steps machine outer frame
      [.ifThen (.binary .greater (.ident Vars.nodeErrors) (.int limit))
        Emit.giveUp none] outer frame := by
  have hread : (Expr.ident Vars.nodeErrors).Evaluates machine
      (outer.under frame.scope) (.ok (.int count)) (outer.under frame.scope) := by
    rw [← hcount]
    exact evaluates_slot frame .nodeErrors
  have hcompare : Value.applyOperator .greater (.int count) (.int limit) =
      .ok (.bool false) :=
    (applyOperator_greater (Nat.lt_of_le_of_lt hbelow hsmall) hsmall).trans
      (by rw [decide_eq_false (Nat.not_lt.mpr hbelow)])
  have hword : limit < 4294967296 := hsmall
  exact .cons (Expr.evaluates_ifThen_skip (Expr.evaluates_operator rfl hread
    (Expr.evaluates_nat (by omega)) hcompare)) .nil

/-- A node whose guard holds runs its test, records the verdict and follows the
branch of the outcome. -/
theorem evaluates_node {tree : ResponseTree} {ctx : TreeContext}
    {traversal : Traversal} {index limit : Nat} {node : Node} {frame : Frame}
    {verdict : Verdict} {path results feedback errors : List Value}
    (hplain : machine.HasBuiltins) (hlimit : 1 ≤ limit)
    (hsmall : limit < Decimal.twoPow 32) (hpath : frame.path = .list path)
    (hresults : frame.results = .list results)
    (hfeedback : frame.feedback = .list feedback)
    (herrors : frame.errors = .list errors) (htrap : verdict.IsTrappable)
    (hguard : (Emit.guard (traversal.root? == some index)
        (traversal.entries tree index)).Evaluates machine
      (outer.under frame.scope) (.ok (.bool true)) (outer.under frame.scope))
    (htest : (node.testCall ctx).Evaluates machine
      ((outer.assign "simp" (.bool false)).under
        (frame.testing (simpOf outer)).scope) verdict.ending
      ((outer.assign "simp" (.bool false)).under
        (frame.testing (simpOf outer)).scope)) :
    ∃ value, (Emit.node (node.silentPlan tree ctx traversal index)
        limit).Evaluates machine (outer.under frame.scope) (.ok value)
      ((outer.assign "simp" (simpOf outer)).under
        (((frame.tested (simpOf outer) verdict errors index).recorded node.name
          node.quiet verdict path results feedback).left
            ((node.branch verdict.outcome).exit.leavesFor? ctx.scene)).scope) := by
  let tested := frame.tested (simpOf outer) verdict errors index
  let recorded := tested.recorded node.name node.quiet verdict path results
    feedback
  have hrecord : Steps machine (outer.assign "simp" (simpOf outer)) tested
      (Emit.recordOutcome node.name node.quiet)
      (outer.assign "simp" (simpOf outer)) recorded :=
    steps_recordOutcome node.name node.quiet hplain rfl hpath hresults hfeedback
  have htake : Steps machine (outer.assign "simp" (simpOf outer)) recorded
      (Emit.takeBranch (node.silentPlan tree ctx traversal index) [.node index])
      (outer.assign "simp" (simpOf outer))
      (recorded.left ((node.branch verdict.outcome).exit.leavesFor? ctx.scene)) :=
    steps_takeBranch _ rfl
  have hcount : verdict.errorCount ≤ limit := by
    unfold Verdict.errorCount
    split <;> omega
  have hkept : (recorded.left
      ((node.branch verdict.outcome).exit.leavesFor? ctx.scene)).nodeErrors =
        .int verdict.errorCount := by
    cases (node.branch verdict.outcome).exit.leavesFor? ctx.scene <;> rfl
  obtain ⟨value, hgroup⟩ := ((((steps_runTest index hplain herrors htrap
    htest).append hrecord).append htake).append
      (steps_limit hkept hcount hsmall)).group
  exact ⟨value, Expr.evaluates_ifThen hguard hgroup⟩

end ResponseTree

end SceneQuiz
