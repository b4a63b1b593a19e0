import SceneQuiz.Proofs.Machine.Reads
import SceneQuiz.Proofs.ResponseTree.AuthoredCode
import SceneQuiz.Proofs.ResponseTree.KeptBindings
/-!
The inputs that a compiled tree lists are all that its function looks at.  The
value of any other input, and the raw text of it, make no difference to what a
call gives, whether that is a value or an error.
-/

namespace SceneQuiz

/-- Machines that differ in nothing but what some names are bound to. -/
structure Machine.SameBut (hidden : Set String) (first second : Machine) : Prop where
  functions : second.functions = first.functions
  hosts : second.hosts = first.hosts
  gas : second.gas = first.gas
  limit : second.limit = first.limit
  columns : ∀ name, name ∉ hidden → second.env.column name = first.env.column name

/-- The scopes are as many on both machines if there is a name that is not
hidden. -/
theorem Machine.SameBut.apart {hidden : Set String} {first second : Machine}
    (h : first.SameBut hidden second) {name : String} (hname : name ∉ hidden)
    (hshielded : ∀ name function, first.functions.get? name = some function →
      function.body.Shielded hidden ∅) : Apart hidden [] first second := by
  refine ⟨h.functions, h.hosts, h.gas, h.limit, h.columns, fun other _ => ?_, hshielded⟩
  have hlength := congrArg List.length (h.columns name hname)
  simp only [Environment.length_column] at hlength
  apply Veiled.outside
  · simp only [Environment.length_column, hlength]
  · simp [Environment.column]

theorem Expr.makesFunction_binary {op : BinOp} (h : op ≠ .define) (left right : Expr) :
    (Expr.binary op left right).makesFunction = false := by
  cases op with
  | define => exact absurd rfl h
  | _ => rfl

namespace ResponseTree

variable {tree : ResponseTree} {ctx : TreeContext}

theorem extends_makesFunction : PlanProperty.Extends fun e =>
    e.Everywhere fun part => part.makesFunction = false where
  str _ := .leaf rfl rfl
  ident _ := .leaf rfl rfl
  noTest := .leaf rfl rfl
  changed op hop left right hleft hright := by
    have hdefine : op ≠ .define := by
      rintro rfl
      revert hop
      decide
    exact .node (Expr.makesFunction_binary hdefine left right)
      ((Expr.forall_children_two rfl).mpr ⟨hleft, hright⟩)
  invoked codename args hargs := by
    have hname : AnswerTest.functionName codename ≠ "lambda" :=
      AnswerTest.functionName_ne codename (by decide)
    exact .node (by simpa [Expr.makesFunction] using hname) hargs

theorem Emit.builds_makesFunction :
    Builds (fun _ => True) fun e => e.Everywhere fun part => part.makesFunction = false where
  names _ _ := trivial
  str _ := .leaf rfl rfl
  bool _ := .leaf rfl rfl
  int n := by
    have hliteral : (Expr.number (toString n.natAbs)).Everywhere
        fun part => part.makesFunction = false := .leaf rfl rfl
    unfold Expr.int
    dsimp only
    split
    · exact .node rfl ((Expr.forall_children_one rfl).mpr hliteral)
    · exact hliteral
  ident _ := .leaf rfl rfl
  assign _ hvalue := .node rfl ((Expr.forall_children_two rfl).mpr ⟨.leaf rfl rfl, hvalue⟩)
  call name hname args hargs := by
    have hlambda : name ≠ "lambda" := by
      rintro rfl
      revert hname
      decide
    exact .node (by simpa [Expr.makesFunction] using hlambda) hargs
  index htarget hindices := .node rfl (Expr.forall_children_index.mpr ⟨htarget, hindices⟩)
  list _ hitems := .node rfl hitems
  group _ hitems := .node rfl hitems
  not hoperand := .node rfl ((Expr.forall_children_one rfl).mpr hoperand)
  binary op hop left right hleft hright := by
    have hdefine : op ≠ .define := by
      rintro rfl
      revert hop
      decide
    exact .node (Expr.makesFunction_binary hdefine left right)
      ((Expr.forall_children_two rfl).mpr ⟨hleft, hright⟩)
  cond htest hbody _ hotherwise :=
    .node rfl (Expr.forall_children_cond.mpr ⟨by simpa using ⟨htest, hbody⟩, hotherwise⟩)

/-- The function of a tree makes no function if its author makes none. -/
theorem makesFunction_of_compile {compiled : Compiled}
    (hcompiled : (tree.compile ctx).1 = some compiled)
    (hauthored : ∀ e ∈ tree.authored ctx, e.Everywhere fun part => part.makesFunction = false)
    {body : Expr} (hbody : compiled.expr = .defineFunction compiled.function body) :
    body.Everywhere fun part => part.makesFunction = false := by
  have hoffered : (PlanProperty.throughout fun e =>
      e.Everywhere fun part => part.makesFunction = false).Offered tree ctx := by
    apply PlanProperty.offered_throughout extends_makesFunction
    · exact fun e he => hauthored e (mem_authored_expression he)
    · exact fun e he => hauthored e (mem_authored_statement he)
    · intro feedback hfeedback compiled hfound
      obtain ⟨normal, hnormal, hexpr⟩ := TemplateContext.exists_everywhere
        Expr.labelled_makesFunction Emit.admits_makesFunction (fun _ _ _ => trivial)
        (Template.compileWith_of_compile hfound) fun block hblock =>
          ⟨fun e he => hauthored e (mem_authored_feedback hfeedback hblock he), fun _ _ => trivial⟩
      rw [hexpr]
      exact TemplateContext.everywhere_localizeWrites Emit.admits_makesFunction
        (fun _ _ _ => trivial) hnormal
  obtain ⟨traversal, plan, hplan, rfl⟩ := exists_plan hoffered hcompiled
  cases hbody
  have hlocals : ∀ e ∈ Emit.locals plan.writes, e.Everywhere fun part =>
      part.makesFunction = false := Emit.builds_makesFunction.locals fun _ _ => trivial
  have hstatements := Emit.builds_makesFunction.body hplan (fun _ _ => trivial) tree.isScored ctx
  exact .node rfl (List.forall_mem_cons.mpr ⟨.node rfl hlocals, hstatements⟩)

/-- An input that is not listed is not read, neither as a value nor as text. -/
theorem spares_of_unlisted {name input : String} {body : Expr} {inputs : List String}
    (hinput : input ∈ inputs)
    (hunlisted : input ∉ readInputs (.defineFunction name body) inputs) :
    body.usage.Spares {input, rawInput input} := by
  have hread : ∀ other ∈ body.usage.read, other ∈ (Expr.defineFunction name body).usage.read :=
    fun other hother => NameSet.mem_union.mpr (.inr hother)
  rintro other hother (rfl | rfl)
  · exact hunlisted (List.mem_filter.mpr ⟨hinput, by simp [hread _ hother]⟩)
  · exact hunlisted (List.mem_filter.mpr ⟨hinput, by simp [hread _ hother]⟩)

theorem exists_other_name (input : String) :
    ∃ name, name ∉ ({input, rawInput input} : Set String) := by
  by_cases hempty : input = ""
  · subst hempty
    exact ⟨"a", by decide⟩
  · refine ⟨"", ?_⟩
    rintro (hinput | hraw)
    · exact hempty hinput.symm
    · have hlength := congrArg String.length (Set.mem_singleton_iff.mp hraw)
      have hstem : rawInputStem.length = 6 := by decide
      rw [rawInput, String.length_append, hstem, String.length_empty] at hlength
      omega

/-- A call of the function of a tree ends in the same value or the same error on
machines that differ only in an input that the compiled tree does not list. -/
theorem invoke_ignores_unlisted {compiled : Compiled}
    (hcompiled : (tree.compile ctx).1 = some compiled)
    (hauthored : ∀ e ∈ tree.authored ctx, e.Everywhere fun part => part.makesFunction = false)
    {input : String} (hinput : input ∈ ctx.inputs) (hunlisted : input ∉ compiled.inputs)
    {first second : Machine} (hsame : first.SameBut {input, rawInput input} second)
    (hfunctions : ∀ name function, first.functions.get? name = some function →
      compiled.expr = .defineFunction compiled.function function.body)
    (args : List Value) :
    ∃ outcome after final, Eval.invoke compiled.function args first = Eval.lift outcome after ∧
      Eval.invoke compiled.function args second = Eval.lift outcome final := by
  have hinputs : compiled.inputs = readInputs compiled.expr ctx.inputs := by
    obtain ⟨traversal, plan, -, rfl⟩ := exists_plan_from hcompiled
    rfl
  have hshielded : ∀ name function, first.functions.get? name = some function →
      function.body.Shielded {input, rawInput input} ∅ := by
    intro name function hfunction
    have hbody := hfunctions name function hfunction
    rw [hinputs, hbody] at hunlisted
    exact Expr.shielded_of_usage (makesFunction_of_compile hcompiled hauthored hbody)
      (spares_of_unlisted hinput hunlisted)
  obtain ⟨name, hname⟩ := exists_other_name input
  have hapart := hsame.apart hname hshielded
  have hcall : Eval.Indistinct {input, rawInput input} []
      (Eval.apply (Expr.evalWithin first.remaining) compiled.function args) :=
    Eval.indistinct_apply
      (fun hbody => Eval.indistinct_of_shielded first.remaining hbody (.none _ _)) _ _
  have hremaining : second.remaining = first.remaining := by
    rw [Machine.remaining, Machine.remaining, hsame.gas, hsame.limit]
  obtain ⟨outcome, after, hrun⟩ := Eval.exists_eq_lift
    (Eval.apply (Expr.evalWithin first.remaining) compiled.function args first)
  obtain ⟨final, hfinal, -⟩ := hcall.ends hapart hrun
  refine ⟨outcome, after, final, hrun, ?_⟩
  rw [Eval.invoke, hremaining]
  exact hfinal

/-- A tree that looks at one of two inputs. -/
def answeringTree : ResponseTree where
  name := "p"
  value := 1.0
  scoreMode := .best
  feedbackVariables := ""
  root := "a"
  nodes := [⟨"a", "Same", "y", "2", "", false, .plain, .plain⟩]

def answeringContext : TreeContext := { assigningContext with inputs := ["y", "z"] }

theorem answeringTree_authored : ∀ e ∈ answeringTree.authored answeringContext,
    e.Everywhere fun part => part.makesFunction = false := by
  decide +kernel

/-- Whatever the student gives for `z`, the outcome is as if there were no answer. -/
theorem answeringTree_ignores_unlisted : ∃ compiled,
    (answeringTree.compile answeringContext).1 = some compiled ∧
      compiled.inputs = ["y"] ∧ ∀ value text, ∃ outcome after final,
        Eval.invoke compiled.function [] compiled.inMachine = Eval.lift outcome after ∧
          Eval.invoke compiled.function []
            ((compiled.inMachine.assign "z" value).assign (rawInput "z") text) =
              Eval.lift outcome final := by
  have hcompiles : ((answeringTree.compile answeringContext).1.map Compiled.inputs) =
      some ["y"] := by
    decide +kernel
  obtain ⟨compiled, hcompiled, hinputs⟩ := Option.map_eq_some_iff.mp hcompiles
  refine ⟨compiled, hcompiled, hinputs, fun value text => ?_⟩
  have hsame : compiled.inMachine.SameBut {"z", rawInput "z"}
      ((compiled.inMachine.assign "z" value).assign (rawInput "z") text) := by
    refine ⟨rfl, rfl, rfl, rfl, fun name hname => ?_⟩
    rw [Set.mem_insert_iff, Set.mem_singleton_iff, not_or] at hname
    exact (Environment.column_assign_of_ne _ _ hname.2).trans
      (Environment.column_assign_of_ne _ _ hname.1)
  apply invoke_ignores_unlisted hcompiled answeringTree_authored _ _ hsame
  · exact Compiled.functions_inMachine hcompiled
  · decide
  · rw [hinputs]
    decide

end ResponseTree

end SceneQuiz
