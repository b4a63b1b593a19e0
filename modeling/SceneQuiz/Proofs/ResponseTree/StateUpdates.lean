import Mathlib.Algebra.Group.Nat.Defs
import SceneQuiz.Proofs.ResponseTree.HarmlessTree
import SceneQuiz.Proofs.ResponseTree.StateReport
/-!
Which values the function of a response tree reports for the state.  The author
of the tree makes no function and leaves the variables of the function alone.
Then a reported value is the one from before the call unless the feedback
variables, an expression of a visited node or the transition code of the last
visit assigns the variable.  That transition code is not the only one: the
function shares its locals among all code of the author.
-/

namespace SceneQuiz

namespace ResponseTree

open Eval

/-- The restraint on all variables of the function. -/
def ownRule : Restraint := ⟨{name | name ∈ Emit.ownNames}, ∅⟩

/-- What code of a tree may do where its function is the only one. -/
def Compiled.policy (compiled : Compiled) (tree : ResponseTree) : Policy where
  writes := compiled.leaks tree
  defines := {name | name ≠ "cons"}
  hosts := {name | name ≠ "cons"}
  returns := True

/-- What is known of the functions where the function of the tree runs. -/
def Compiled.setting (compiled : Compiled) (tree : ResponseTree) (body : Expr) : Setting :=
  (ownRule.setting {body}).both (compiled.policy tree).setting

/-- A machine with no function but that of the tree.  What comes from outside
leaves no block and does not hide `cons`. -/
structure Compiled.Alone (compiled : Compiled) (machine : Machine) : Prop where
  functions : ∀ name, name ≠ compiled.function → machine.functions.get? name = none
  hosts : ∀ name host, machine.hosts.get? name = some host →
    name ≠ "cons" ∧ ∀ args, Unreturned (host args)

variable {tree : ResponseTree} {ctx : TreeContext} {compiled : Compiled} {plan : Plan}

theorem bounds_ownRule : Bounds ownRule tree ctx Emit.ownNames where
  kept _ hname := hname
  own _ hname := List.mem_cons_of_mem _ hname
  saved hsimp := absurd hsimp (by change "simp" ∉ Emit.ownNames; decide)
  flags hsimp := absurd hsimp (by change "simp" ∉ Emit.ownNames; decide)

/-- What the function declares is not assigned outside. -/
theorem not_mem_leaks {isScored : Bool}
    (hbody : compiled.expr = .defineFunction compiled.function (plan.function isScored ctx))
    {name : String} (hname : name ∈ plan.pool) : name ∉ compiled.leaks tree := by
  rintro (hsimp | ⟨-, hfree⟩)
  · exact hname.2 hsimp
  · apply hfree
    rw [Compiled.locals, hbody]
    change name ∈ (Emit.locals plan.writes).filterMap Expr.declaredName?
    rw [Emit.declaredNames_locals, List.mem_append, List.mem_filter]
    refine .inr ⟨NameSet.mem_names.mpr hname.1, ?_⟩
    simp [isGlobalFlag, globalFlags, hname.2]

section Authored

variable {policy : Policy} (hreturns : policy.returns)
  (hauthored : ∀ e ∈ tree.authored ctx, e.Everywhere fun part => part.makesFunction = false)

include hreturns hauthored

theorem obeys_expression {source : String} (hsource : source ∈ tree.expressions) {e : Expr}
    (he : Expr.parse source = .ok e) : e.Obeys policy {name | name ∈ expressionWrites source} := by
  apply Expr.obeys_of_usage hreturns
    (hauthored e (mem_authored_expression (mem_nodeExpressions hsource he)))
  intro name hname
  change name ∈ expressionWrites source
  unfold expressionWrites
  rw [he]
  exact NameSet.mem_names.mpr hname

theorem obeys_statement {source : String} (hsource : source ∈ tree.fragments) {code : Fragment}
    (hcode : Fragment.parse source = .ok code) {statement : Statement} (hmem : statement ∈ code) :
    statement.expr.Obeys policy {name | name ∈ fragmentWrites source} := by
  apply Expr.obeys_of_usage hreturns
    (hauthored _ (mem_authored_statement (mem_statements hsource hcode hmem)))
  intro name hname
  change name ∈ fragmentWrites source
  unfold fragmentWrites
  rw [hcode]
  exact NameSet.mem_names.mpr (Fragment.mem_usage_write hmem hname)

theorem TestFrom.obeys {node : Node} (hnode : node ∈ tree.nodes) {e : Expr}
    (h : TestFrom ctx node e) : e.Obeys policy {name | name ∈ node.testWrites} := by
  have hread : ∀ source ∈ [node.studentAnswer, node.teacherAnswer, node.options],
      ∀ e, Expr.parse source = .ok e → e.Obeys policy {name | name ∈ node.testWrites} := by
    intro source hsource e he
    have hmem : source ∈ tree.expressions :=
      List.mem_flatMap.mpr ⟨node, hnode, List.mem_append_left _ hsource⟩
    apply (obeys_expression hreturns hauthored hmem he).mono
    exact fun name hname => List.mem_flatMap.mpr ⟨source, hsource, hname⟩
  obtain ⟨entry, -, call, rfl, hstudent, hteacher, hoptions⟩ := h
  apply obeys_invocation hreturns
  · exact hread _ (by simp) _ hstudent
  · exact fun e he => hread node.teacherAnswer (by simp) e (hteacher e he)
  · exact fun e he => hread node.options (by simp) e (hoptions e he)

theorem ScoreFrom.obeys {visit : Visit} (hnode : visit.node ∈ tree.nodes)
    {source : Option String} (hsource : ∀ text ∈ source,
      text ∈ visit.branch.score.toList ++ visit.branch.penalty.toList)
    {change : ScoreChange} {accumulator : String} {e : Expr}
    (h : ScoreFrom source change accumulator e) :
    e.Obeys policy {name | name ∈ visit.scoreWrites} := by
  obtain ⟨text, htext, value, hvalue, rfl⟩ := h
  have hmem : text ∈ tree.expressions := List.mem_flatMap.mpr ⟨visit.node, hnode,
    List.mem_append_right _ (List.mem_flatMap.mpr
      ⟨visit.outcome, mem_outcomes _, hsource text htext⟩)⟩
  apply obeys_changedScore
  apply (obeys_expression hreturns hauthored hmem hvalue).mono
  exact fun name hname => List.mem_flatMap.mpr ⟨text, hsource text htext, hname⟩

end Authored

section Settings

variable {isScored : Bool}
  (hbody : compiled.expr = .defineFunction compiled.function (plan.function isScored ctx))
  (htrusted : ∀ fuel, ∀ body ∈ ({plan.function isScored ctx} : Set Expr),
    Heeds ownRule {plan.function isScored ctx} false (body.evalWithin fuel))

include hbody htrusted

/-- Code of the author assigns what it is found to assign. -/
theorem sparing_of_obeys {e : Expr} (he : e.Restrained ownRule false) {written : List String}
    (hobeys : e.Obeys (compiled.policy tree) (compiled.leaks tree ∪ {name | name ∈ written})) :
    Emit.Sparing (compiled.setting tree (plan.function isScored ctx)) plan.pool written e := by
  intro fuel
  apply spares_of_heeds (heeds_of_restrained fuel (fun less _ => htrusted less) he)
    (Keeps.evalWithin fuel Set.subset_union_left hobeys)
  rintro name (hown | ⟨hpool, hfree⟩)
  · exact .inl ⟨hown, fun hsimp => absurd (hsimp ▸ hown) (by decide)⟩
  · exact .inr fun hmem => hmem.elim (not_mem_leaks hbody hpool) hfree

theorem watches_of_trusted (hown : ∀ name ∈ Emit.ownNames, name ∉ plan.writes) :
    Emit.Watches (compiled.setting tree (plan.function isScored ctx)) plan.pool := by
  constructor
  · intro name hname hmem
    rcases List.mem_cons.mp hmem with hsimp | hmem
    · exact hname.2 hsimp
    · exact hown name hmem hname.1
  · rintro machine ⟨-, hgoverns⟩
    constructor
    · cases hhost : machine.hosts.get? "cons" with
      | none => rfl
      | some host => exact absurd rfl (hgoverns.hosts _ host hhost).1
    · cases hfunction : machine.functions.get? "cons" with
      | none => rfl
      | some function => exact absurd rfl (hgoverns.functions _ function hfunction).1
  · intro fuel name args
    have hheeds : Heeds ownRule {plan.function isScored ctx} false
        (Eval.apply (Expr.evalWithin fuel) name args) :=
      heeds_apply (fun hother => heeds_of_restrained fuel (fun less _ => htrusted less) hother)
        (htrusted fuel) name args
    apply spares_of_heeds hheeds
      (Keeps.apply (Keeps.evalWithin fuel) (Set.Subset.refl (compiled.leaks tree)) name args)
    rintro name (hown | hpool)
    · exact .inl ⟨hown, fun hsimp => absurd (hsimp ▸ hown) (by decide)⟩
    · exact .inr (not_mem_leaks hbody hpool)

section Reading

variable
  (hauthored : ∀ e ∈ tree.authored ctx, e.Everywhere fun part => part.makesFunction = false)

include hauthored

theorem BranchPlan.From.sparing {visit : Visit} (hnode : visit.node ∈ tree.nodes)
    {branch : BranchPlan} (h : branch.From ctx visit.branch)
    (hcode : branch.Has (.throughout (Expr.Restrained ownRule false))) :
    branch.Sparing (compiled.setting tree (plan.function isScored ctx)) plan.pool visit := by
  have hreturns : (compiled.policy tree).returns := trivial
  constructor
  · intro e he
    apply sparing_of_obeys hbody htrusted (hcode.score e he)
    apply ((h.score e he).obeys hreturns hauthored hnode _).mono Set.subset_union_right
    exact fun text htext => List.mem_append_left _ (Option.mem_toList.mpr htext)
  · intro e he
    apply sparing_of_obeys hbody htrusted (hcode.penalty e he)
    apply ((h.penalty e he).obeys hreturns hauthored hnode _).mono Set.subset_union_right
    exact fun text htext => List.mem_append_right _ (Option.mem_toList.mpr htext)
  · intro transition htransition statement hmem
    have hsource : visit.branch.transitionCode ∈ tree.fragments :=
      List.mem_cons_of_mem _ (List.mem_flatMap.mpr ⟨visit.node, hnode,
        List.mem_map.mpr ⟨visit.outcome, mem_outcomes _, rfl⟩⟩)
    apply sparing_of_obeys hbody htrusted (hcode.transition transition htransition statement hmem)
    exact (obeys_statement hreturns hauthored hsource (h.code transition htransition) hmem).mono
      Set.subset_union_right
  · intro e he
    obtain ⟨feedback, hfeedback, rfl⟩ := h.feedback e he
    have hsource : visit.branch.feedback ∈ tree.feedbacks := List.mem_flatMap.mpr
      ⟨visit.node, hnode, List.mem_map.mpr ⟨visit.outcome, mem_outcomes _, rfl⟩⟩
    apply sparing_of_obeys hbody htrusted (hcode.feedback _ he)
    apply ((frugal_offered hauthored).feedbacks _ hsource _ hfeedback _ hreturns).mono
    rintro _ rfl
    exact .inl (.inl rfl)

/-- The code of a plan assigns what was read from the tree. -/
theorem Plan.From.sparing (h : plan.From tree ctx)
    (hplan : plan.Has (.throughout (Expr.Restrained ownRule false))) :
    plan.Sparing (compiled.setting tree (plan.function isScored ctx)) plan.pool tree := by
  have hreturns : (compiled.policy tree).returns := trivial
  constructor
  · intro statement hmem
    apply sparing_of_obeys hbody htrusted (hplan.setup statement hmem)
    exact (obeys_statement hreturns hauthored List.mem_cons_self h.setup hmem).mono
      Set.subset_union_right
  · intro found hfound
    obtain ⟨node, hnode, hfrom⟩ := h.nodes found hfound
    have hcode := hplan.nodes found hfound
    refine ⟨node, hnode, hfrom.name, ?_, fun outcome => ?_⟩
    · apply sparing_of_obeys hbody htrusted hcode.test
      rcases hfrom.test with hnone | htest
      · rw [hnone]
        exact .node trivial nofun
      · exact (htest.obeys hreturns hauthored hnode).mono Set.subset_union_right
    · have hvisit : (found.branch outcome).From ctx (Visit.mk node outcome).branch :=
        hfrom.branch outcome
      exact hvisit.sparing hbody htrusted hauthored hnode (hcode.branch outcome)

end Reading

end Settings

/-- Where no other function is defined, all functions keep to the policy. -/
theorem Compiled.Alone.holds {machine : Machine} (h : compiled.Alone machine)
    (hcompiled : (tree.compile ctx).1 = some compiled)
    (hauthored : ∀ e ∈ tree.authored ctx, e.Everywhere fun part => part.makesFunction = false)
    (hloaded : compiled.IsLoaded machine) {body : Expr}
    (hbody : compiled.expr = .defineFunction compiled.function body) :
    (compiled.setting tree body).holds machine := by
  obtain ⟨-, other, hother, hfunction⟩ := hloaded
  obtain rfl : other = body := by
    rw [hbody] at hother
    injection hother with _ _ hsame
    exact hsame.symm
  have honly : ∀ name function, machine.functions.get? name = some function →
      name = compiled.function ∧ function.body = other := by
    intro name function hfound
    by_cases hname : name = compiled.function
    · subst hname
      rw [hfunction] at hfound
      cases hfound
      exact ⟨rfl, rfl⟩
    · rw [h.functions name hname] at hfound
      cases hfound
  have hplain : compiled.function ≠ "cons" := by
    obtain ⟨traversal, plan, -, rfl⟩ := exists_plan_from hcompiled
    exact functionName_ne (by decide)
  refine ⟨⟨?_, fun name host hhost => (h.hosts name host hhost).2⟩, ?_,
    fun name host hhost => ⟨(h.hosts name host hhost).1, .inl trivial⟩⟩
  · exact fun name function hfound => .inl (honly name function hfound).2
  · intro name function hfound
    obtain ⟨rfl, hsame⟩ := honly name function hfound
    rw [hsame]
    exact ⟨hplain, obeys_of_compile hcompiled hauthored hother trivial⟩

/-- An answer of the function of a tree reports state variables only, each with
its value from before the call unless it was assigned by the feedback variables,
by an expression of a visited node, or by the transition code of the branch that
was taken last. -/
theorem invoke_reports_assigned (hcompiled : (tree.compile ctx).1 = some compiled)
    (hauthored : ∀ e ∈ tree.authored ctx, e.Everywhere fun part => part.makesFunction = false)
    (halone : tree.LeavesAlone ctx Emit.ownNames)
    (hwritten : ∀ name ∈ Emit.ownNames, name ∉ tree.written)
    (hstorage : ∀ slot ∈ ctx.stateVariables, slot.storage < 2 ^ 32) {machine after : Machine}
    (hmachine : compiled.Alone machine) (hloaded : compiled.IsLoaded machine)
    {args items : List Value}
    (hrun : Eval.invoke compiled.function args machine = Eval.lift (.ok (.list items)) after)
    (hitems : items.length = 8) :
    ∃ visits, (∀ visit ∈ visits, visit.node ∈ tree.nodes) ∧ items[2]? = some (trail visits) ∧
      ∃ updates, items[6]? = some (.list updates) ∧
        tree.Reports ctx.stateVariables machine.env visits updates := by
  obtain ⟨plan, hfrom, hplan, hbody, htrusted⟩ := halone.exists_plan bounds_ownRule hcompiled
  have hown : ∀ name ∈ Emit.ownNames, name ∉ plan.writes := fun name hname hmem =>
    hwritten name hname (hfrom.mem_written hmem)
  have hsmall : ∀ slot ∈ ctx.stateVariables, slot.storage < 0x8000000000000000 :=
    fun slot hslot => (hstorage slot hslot).trans (by decide)
  have hcourse : Brings (compiled.setting tree (plan.function tree.isScored ctx)) _ _ _ _
      ((plan.function tree.isScored ctx).evalWithin machine.remaining) :=
    Emit.brings_answer (watches_of_trusted hbody htrusted hown)
      (hfrom.sparing hbody htrusted hauthored hplan) hown hsmall (machine.env.under .empty)
      tree.isScored
  have hholds := hmachine.holds hcompiled hauthored hloaded hbody
  rcases hloaded.value_of_brings hbody hholds hcourse hrun with hnone | hanswered
  · cases hnone
    cases hitems
  · obtain ⟨visits, updates, _, hvisits, hreports, ⟨⟩, -, hpath, hupdates⟩ := hanswered
    refine ⟨visits, hvisits, hpath, updates, hupdates, ?_⟩
    have hread : ∀ name, (machine.env.under .empty).reading name = machine.env.reading name :=
      fun name => congrArg (Option.getD · _) (Environment.get?_under_free rfl)
    simpa only [Reports, hread] using hreports

/-- In a machine made for a tree, its function stands alone. -/
theorem Compiled.alone_inMachine (hcompiled : (tree.compile ctx).1 = some compiled) :
    compiled.Alone compiled.inMachine := by
  constructor
  · intro name hname
    obtain ⟨traversal, plan, -, rfl⟩ := exists_plan_from hcompiled
    have hother : name ≠ functionName ctx.scene tree.name := hname
    simp [inMachine, assemble, Expr.defineFunction, NameMap.get?_insert, hother]
  · intro name host hhost
    refine ⟨?_, (Compiled.suits_inMachine hcompiled []).hosts name host hhost⟩
    rintro rfl
    simp [inMachine, Machine.register, Machine.fresh, NameMap.get?_insert] at hhost

/-- A tree where the branch that is taken assigns nothing, but the other one
does. -/
def presettingTree (feedbackVariables answer : String) (exit : Exit) : ResponseTree :=
  { assigningTree with
    feedbackVariables := feedbackVariables
    nodes :=
      [⟨"a", "Same", answer, "1", "", false, { Branch.plain with exit := exit },
        { Branch.plain with exit := .stateTransition, transitionCode := "c: c + 1" }⟩] }

/-- Is a value an answer with one mark on the path and one reported number? -/
def reportsOne (token : String) (storage number : Int) : Value → Bool
  | .list [_, _, .list [.str mark], _, _, _, .list [.list [.int slot, .int found]], _] =>
      mark == token && slot == storage && found == number
  | _ => false

theorem exists_of_reportsOne {token : String} {storage number : Int} {value : Value}
    (h : reportsOne token storage number value = true) :
    ∃ items, value = .list items ∧ items.length = 8 ∧ items[2]? = some (Value.list [.str token]) ∧
      items[6]? = some (Value.list [.list [.int storage, .int number]]) := by
  unfold reportsOne at h
  split at h
  · simp only [Bool.and_eq_true, beq_iff_eq] at h
    obtain ⟨⟨rfl, rfl⟩, rfl⟩ := h
    exact ⟨_, rfl, rfl, rfl, rfl⟩
  · cases h

/-- The state variable is reported, with the value that it had. -/
theorem presettingTree_reports_assigned : ∃ compiled items after,
    ((presettingTree "y: 4" "1" (.scene "end")).compile assigningContext).1 = some compiled ∧
      Eval.invoke compiled.function [] compiled.inMachine = Eval.lift (.ok (.list items)) after ∧
        items.length = 8 ∧ items[6]? = some (.list [.list [.int 1, .int 3]]) ∧
          ∃ visits,
            (∀ visit ∈ visits, visit.node ∈ (presettingTree "y: 4" "1" (.scene "end")).nodes) ∧
              items[2]? = some (trail visits) ∧ ∃ updates, items[6]? = some (.list updates) ∧
                (presettingTree "y: 4" "1" (.scene "end")).Reports
                  assigningContext.stateVariables compiled.inMachine.env visits updates := by
  obtain ⟨compiled, value, after, hcompiled, hrun, hone⟩ := exists_of_endsIn
    (by decide +kernel : (presettingTree "y: 4" "1" (.scene "end")).endsIn assigningContext
      (fun value _ => reportsOne "a-T" 1 3 value) = true)
  obtain ⟨items, rfl, hitems, -, hupdates⟩ := exists_of_reportsOne hone
  refine ⟨compiled, items, after, hcompiled, hrun, hitems, hupdates, ?_⟩
  exact invoke_reports_assigned hcompiled (by decide +kernel) (by decide +kernel)
    (by decide +kernel) (by decide) (Compiled.alone_inMachine hcompiled)
    (Compiled.isLoaded_inMachine hcompiled) hrun hitems

/-- A call of the function of a tree reports another value than the one from
before, though the transition code of the last visit does not assign the
variable. -/
def Misreports (tree : ResponseTree) : Prop :=
  ∃ compiled items after, (tree.compile assigningContext).1 = some compiled ∧
    compiled.Alone compiled.inMachine ∧ compiled.IsLoaded compiled.inMachine ∧
      Eval.invoke compiled.function [] compiled.inMachine = Eval.lift (.ok (.list items)) after ∧
        items.length = 8 ∧
          ¬ ∃ visits updates, (∀ visit ∈ visits, visit.node ∈ tree.nodes) ∧
            items[2]? = some (trail visits) ∧ items[6]? = some (.list updates) ∧
              ∀ update ∈ updates, ∃ slot ∈ assigningContext.stateVariables, ∃ value,
                update = .list [.int slot.storage, value] ∧ (slot.name ∉ assignedLast visits →
                  value = compiled.inMachine.env.reading slot.name)

theorem misreports_of_endsIn {feedbackVariables answer : String} {exit : Exit}
    (h : (presettingTree feedbackVariables answer exit).endsIn assigningContext
      (fun value _ => reportsOne "a-T" 1 7 value) = true) :
    (presettingTree feedbackVariables answer exit).Misreports := by
  obtain ⟨compiled, value, after, hcompiled, hrun, hone⟩ := exists_of_endsIn h
  obtain ⟨items, rfl, hitems, hpath, hupdates⟩ := exists_of_reportsOne hone
  refine ⟨compiled, items, after, hcompiled, Compiled.alone_inMachine hcompiled,
    Compiled.isLoaded_inMachine hcompiled, hrun, hitems, ?_⟩
  rintro ⟨visits, updates, hvisits, htrail, hreported, hvalues⟩
  cases hreported.symm.trans hupdates
  obtain ⟨slot, hslot, value, heq, hvalue⟩ := hvalues _ List.mem_cons_self
  obtain rfl : slot = ⟨"c", 1, "", "0"⟩ := List.mem_singleton.mp hslot
  cases heq
  have htokens : visits.map (fun visit => Value.str visit.token) = [.str "a-T"] :=
    Value.list.inj (Option.some.inj (htrail.symm.trans hpath))
  obtain ⟨⟨node, outcome⟩, rest, rfl, htoken, -⟩ := List.map_eq_cons_iff.mp htokens
  obtain rfl := List.mem_singleton.mp (hvisits _ List.mem_cons_self)
  have hread : compiled.inMachine.env.reading "c" = .int 3 := rfl
  rw [hread] at hvalue
  refine absurd (hvalue ?_) nofun
  cases outcome with
  | true => exact (by decide +kernel : "c" ∉ fragmentWrites "")
  | false => exact absurd (Value.str.inj htoken) (by decide : pathToken "a" false ≠ "a-T")

/-- The value comes from the feedback variables, from an argument of the test,
from an assignment to the report itself, or from a `return` of the author.  In
the last two trees the analysis finds no assignment: the name is bound where the
function `g` is defined, and a `lambda` binds nothing when it is evaluated. -/
theorem presettingTree_misreports :
    (presettingTree "c: 7" "1" (.scene "end")).Misreports ∧
      (presettingTree "" "c: 7" (.scene "end")).Misreports ∧
        (presettingTree "%_updates: [[1, 7]]" "1" .finish).Misreports ∧
          (presettingTree "return([0, 0, [\"a-T\"], [], [], false, [[1, 7]], []])" "1"
            .finish).Misreports ∧
            (presettingTree "block([c], g(x) := (c: 7)); g(0)" "1" (.scene "end")).Misreports ∧
              (presettingTree "errcatch(lambda([c], c: 7))" "1" (.scene "end")).Misreports := by
  have hends : ∀ entry ∈ [("c: 7", "1", Exit.scene "end"), ("", "c: 7", .scene "end"),
      ("%_updates: [[1, 7]]", "1", .finish),
      ("return([0, 0, [\"a-T\"], [], [], false, [[1, 7]], []])", "1", .finish),
      ("block([c], g(x) := (c: 7)); g(0)", "1", .scene "end"),
      ("errcatch(lambda([c], c: 7))", "1", .scene "end")],
      (presettingTree entry.1 entry.2.1 entry.2.2).endsIn assigningContext
        (fun value _ => reportsOne "a-T" 1 7 value) = true := by
    decide +kernel
  simp only [List.forall_mem_cons] at hends
  obtain ⟨hsetup, hargument, hreport, hreturn, hfunction, hlambda, -⟩ := hends
  exact ⟨misreports_of_endsIn hsetup, misreports_of_endsIn hargument,
    misreports_of_endsIn hreport, misreports_of_endsIn hreturn,
    misreports_of_endsIn hfunction, misreports_of_endsIn hlambda⟩

end ResponseTree

end SceneQuiz
