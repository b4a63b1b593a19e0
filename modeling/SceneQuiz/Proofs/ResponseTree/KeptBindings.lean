import SceneQuiz.Machine.Run
import SceneQuiz.Proofs.ResponseTree.EmittedCode
import SceneQuiz.Proofs.Template.Frame
/-!
What the function of a response tree does to the variables of its caller.  The
names that feedback variables and transition code write are locals of the
function, so updates of the state are reported and not applied, and feedback
keeps to itself.  The expressions of a node, its test and its scores, are not
looked at: what they alone assign is assigned outside.
-/

namespace SceneQuiz

/-- A statement writes what its sequence is found to write. -/
theorem Fragment.mem_usage_write {code : Fragment} {statement : Statement}
    (hmem : statement ∈ code) {name : String} (hname : name ∈ statement.expr.usage.write) :
    name ∈ (Fragment.usage code).write := by
  have hown : name ∈ statement.usage.write := by
    refine List.foldlRecOn (motive := fun usage : Usage => name ∈ usage.write)
      statement.flags _ hname ?_
    intro usage husage flag _
    split
    · exact NameSet.mem_union.mpr (.inl husage)
    · exact husage
  have hfold : ∀ (code : Fragment) (usage : Usage),
      name ∈ usage.write ∨ statement ∈ code →
        name ∈ (code.foldl (fun usage statement => usage ∪ statement.usage) usage).write := by
    intro code
    induction code with
    | nil => exact fun _ h => h.resolve_right List.not_mem_nil
    | cons first rest ih =>
        intro usage h
        apply ih
        rcases h with h | h
        · exact .inl (NameSet.mem_union.mpr (.inl h))
        · rcases List.mem_cons.mp h with rfl | h
          · exact .inl (NameSet.mem_union.mpr (.inr hown))
          · exact .inr h
  exact hfold code .empty (.inr hmem)

namespace ResponseTree

/-- The expressions of the nodes: the arguments of tests, scores and penalties. -/
def nodeExpressions (tree : ResponseTree) : List Expr :=
  tree.expressions.filterMap fun source => (Expr.parse source).toOption

/-- The feedback variables and the transition code. -/
def statements (tree : ResponseTree) : List Expr :=
  tree.fragments.flatMap fun source =>
    ((Fragment.parse source).toOption.getD []).map Statement.expr

/-- All code that the author of a tree wrote. -/
def authored (tree : ResponseTree) (ctx : TreeContext) : List Expr :=
  tree.nodeExpressions ++ tree.statements ++ tree.feedbacks.flatMap fun feedback =>
    (ctx.templates.blocksWithin ctx.options.inlineDepth feedback).flatMap Block.authored

/-- Names that expressions of nodes assign. -/
def assigned (tree : ResponseTree) : List String :=
  tree.nodeExpressions.flatMap fun e => e.usage.write.names

/-- Names that the function of a tree declares. -/
def Compiled.locals (compiled : Compiled) : List String :=
  match compiled.expr with
  | .binary .define _ (.call _ (.list declarations :: _)) =>
      declarations.filterMap Expr.declaredName?
  | _ => []

variable {tree : ResponseTree} {ctx : TreeContext}

theorem mem_nodeExpressions {source : String} (hsource : source ∈ tree.expressions) {e : Expr}
    (he : Expr.parse source = .ok e) : e ∈ tree.nodeExpressions :=
  List.mem_filterMap.mpr ⟨source, hsource, by rw [he]; rfl⟩

theorem mem_statements {source : String} (hsource : source ∈ tree.fragments) {code : Fragment}
    (hcode : Fragment.parse source = .ok code) {statement : Statement}
    (hmem : statement ∈ code) : statement.expr ∈ tree.statements := by
  refine List.mem_flatMap.mpr ⟨source, hsource, ?_⟩
  rw [hcode]
  exact List.mem_map_of_mem hmem

/-- Code of a tree whose author makes no function: expressions assign the names
in `assigned`, feedback assigns `simp` at most. -/
def PlanProperty.frugal (assigned : List String) : PlanProperty where
  expr e := ∀ policy : Policy, policy.returns → e.Obeys policy {name | name ∈ assigned}
  code code := ∀ statement ∈ code,
    statement.expr.Everywhere fun part => part.makesFunction = false
  feedback e := ∀ policy : Policy, policy.returns → e.Obeys policy {"simp"}

/-- Changing a score assigns no more than the change itself. -/
theorem obeys_changedScore {policy : Policy} {written : Set String} (change : ScoreChange)
    (accumulator : String) {value : Expr} (h : value.Obeys policy written) :
    (changedScore change accumulator value).Obeys policy written := by
  have hread : (Expr.ident accumulator).Obeys policy written := .node trivial nofun
  cases change with
  | set => exact h
  | add | subtract =>
      apply Expr.Obeys.node
      · trivial
      · exact (Expr.forall_children_two rfl).mpr ⟨hread, h⟩

/-- Reading what a test looks at assigns no more than the answer itself. -/
theorem obeys_seenAnswer {policy : Policy} {written : Set String} (test : AnswerTest)
    {call : TestCall} (h : call.studentAnswer.Obeys policy written) :
    (test.seenAnswer call).Obeys policy written := by
  unfold AnswerTest.seenAnswer
  split
  · split <;> exact .node trivial nofun
  · exact h

theorem obeys_invocation {policy : Policy} {written : Set String} (hreturns : policy.returns)
    (test : AnswerTest) {call : TestCall} (hstudent : call.studentAnswer.Obeys policy written)
    (hteacher : ∀ e ∈ call.teacherAnswer, e.Obeys policy written)
    (hoptions : ∀ e ∈ call.options, e.Obeys policy written) :
    (test.invocation call).Obeys policy written := by
  have hcompared : (call.teacherAnswer.getD (.str "")).Obeys policy written := by
    cases hfound : call.teacherAnswer with
    | none => exact .node trivial nofun
    | some e => exact hteacher e hfound
  have hargs : ∀ arg ∈ [test.seenAnswer call, call.teacherAnswer.getD (.str "")] ++
      call.options.toList, arg.Obeys policy written := by
    simp only [List.forall_mem_append, List.forall_mem_cons]
    exact ⟨⟨obeys_seenAnswer test hstudent, hcompared, List.forall_mem_nil _⟩,
      fun e he => hoptions e (Option.mem_toList.mp he)⟩
  have hhere : policy.Permits written (test.invocation call) := fun _ => hreturns
  exact .node hhere hargs

theorem frugal_offered
    (hauthored : ∀ e ∈ tree.authored ctx, e.Everywhere fun part => part.makesFunction = false) :
    (PlanProperty.frugal tree.assigned).Offered tree ctx := by
  unfold authored at hauthored
  simp only [List.forall_mem_append] at hauthored
  obtain ⟨⟨hexpressions, hstatements⟩, hfeedbacks⟩ := hauthored
  constructor
  · intro source hsource e he policy hreturns
    have hmem := mem_nodeExpressions hsource he
    apply Expr.obeys_of_usage hreturns (hexpressions e hmem)
    exact fun name hname => List.mem_flatMap.mpr ⟨e, hmem, NameSet.mem_names.mpr hname⟩
  · intro source hsource code hcode statement hmem
    exact hstatements _ (mem_statements hsource hcode hmem)
  · intro feedback hmem compiled hcompiled policy hreturns
    obtain ⟨normal, hnormal, hexpr⟩ := TemplateContext.exists_everywhere
      Expr.labelled_makesFunction Emit.admits_makesFunction (fun _ _ _ => trivial)
      (Template.compileWith_of_compile hcompiled) fun block hblock =>
        ⟨fun e he => hfeedbacks e (List.mem_flatMap.mpr
          ⟨feedback, hmem, List.mem_flatMap.mpr ⟨block, hblock, he⟩⟩), fun _ _ => trivial⟩
    rw [hexpr]
    exact TemplateContext.obeys_localizeWrites hreturns hnormal
  · exact fun _ _ => .node trivial nofun
  · exact fun change accumulator _ value hvalue policy hreturns =>
      obeys_changedScore change accumulator (hvalue policy hreturns)
  · intro entry _ call hstudent hteacher hoptions policy hreturns
    exact obeys_invocation hreturns entry.2 (hstudent policy hreturns)
      (fun e he => hteacher e he policy hreturns) fun e he => hoptions e he policy hreturns

namespace Emit

/-- The variables of the function are declared, and so is what its statements
write, but for `simp`. -/
theorem mem_declared_locals {written : NameSet} {name : String}
    (h : name ∈ ownNames ∨ name ∈ written) :
    name ∈ ({"simp"} : Set String) ∪ Expr.declared (locals written) := by
  by_cases hflag : isGlobalFlag name = true
  · exact .inl (by simpa [isGlobalFlag, globalFlags] using hflag)
  · right
    change name ∈ (locals written).filterMap Expr.declaredName?
    rw [declaredNames_locals, List.mem_append]
    exact h.imp_right fun hwritten =>
      List.mem_filter.mpr ⟨NameSet.mem_names.mpr hwritten, by simpa using hflag⟩

theorem builds_obeys {policy : Policy} {written : Set String} (hreturns : policy.returns)
    (hvariables : ∀ name ∈ "simp" :: ownNames, name ∈ written) :
    Builds (· ∈ written) (Expr.Obeys policy written) where
  names := hvariables
  str _ := .node trivial nofun
  bool _ := .node trivial nofun
  int n := by
    have hliteral : (Expr.number (toString n.natAbs)).Obeys policy written := .node trivial nofun
    unfold Expr.int
    dsimp only
    split
    · exact .node trivial ((Expr.forall_children_one rfl).mpr hliteral)
    · exact hliteral
  ident _ := .node trivial nofun
  assign {name value} hname hvalue := by
    have htarget : (Expr.ident name).Obeys policy written := .node trivial nofun
    apply Expr.Obeys.node
    · exact hname
    · exact (Expr.forall_children_two rfl).mpr ⟨htarget, hvalue⟩
  call _ _ _ hargs := .node (fun _ => hreturns) hargs
  index htarget hindices := .node trivial (Expr.forall_children_index.mpr ⟨htarget, hindices⟩)
  list _ hitems := .node trivial hitems
  group _ hitems := .node trivial hitems
  not hoperand := .node trivial ((Expr.forall_children_one rfl).mpr hoperand)
  binary op hop _ _ hleft hright := by
    have hplain : op ≠ .assign ∧ op ≠ .define := by
      revert op
      decide
    apply Expr.Obeys.node
    · cases op with
      | assign => exact absurd rfl hplain.1
      | define => exact absurd rfl hplain.2
      | _ => trivial
    · exact (Expr.forall_children_two rfl).mpr ⟨hleft, hright⟩
  cond htest hbody _ hotherwise := by
    apply Expr.Obeys.node
    · trivial
    · exact Expr.forall_children_cond.mpr ⟨by simpa using ⟨htest, hbody⟩, hotherwise⟩

/-- The locals of the function start without assigning anything. -/
theorem obeys_of_locals {policy : Policy} {written : Set String} {names : NameSet}
    {left right : Expr} (h : .binary .assign left right ∈ locals names) :
    right.Obeys policy written := by
  have hleaf : ∀ e : Expr, e.children = [] → policy.Permits written e →
      e.Obeys policy written := by
    intro e hchildren hhere
    apply Expr.Obeys.node hhere
    rw [hchildren]
    exact List.forall_mem_nil _
  rcases List.mem_append.mp h with hmem | hmem
  · simp only [accumulators, Expr.assign, List.mem_cons, Expr.binary.injEq, true_and,
      reduceCtorEq, List.not_mem_nil, or_false] at hmem
    rcases hmem with ⟨-, rfl⟩ | ⟨-, rfl⟩ | ⟨-, rfl⟩ | ⟨-, rfl⟩ | ⟨-, rfl⟩ | ⟨-, rfl⟩ | ⟨-, rfl⟩ |
      ⟨-, rfl⟩ | ⟨-, rfl⟩ | ⟨-, rfl⟩
    all_goals exact hleaf _ rfl trivial
  · obtain ⟨name, -, heq⟩ := List.mem_map.mp hmem
    cases heq
    exact hleaf _ rfl trivial

end Emit

/-- The code of a plan assigns what its expressions assign and its own locals. -/
theorem Plan.Has.body_obeys {plan : Plan} {assigned : List String} {written : Set String}
    (h : plan.Has (.frugal assigned)) (hassigned : ∀ name ∈ assigned, name ∈ written)
    (hlocals : {"simp"} ∪ Expr.declared (Emit.locals plan.writes) ⊆ written) {policy : Policy}
    (hreturns : policy.returns) (isScored : Bool) (ctx : TreeContext) :
    ∀ e ∈ plan.body isScored ctx, e.Obeys policy written := by
  have hknown : ∀ name, name ∈ Emit.ownNames ∨ name ∈ plan.writes → name ∈ written :=
    fun name hname => hlocals (Emit.mem_declared_locals hname)
  have hnames : ∀ name ∈ "simp" :: Emit.ownNames, name ∈ written :=
    List.forall_mem_cons.mpr ⟨hlocals (.inl rfl), fun name hname => hknown name (.inl hname)⟩
  have htransitions : ∀ name ∈ plan.transitionWrites, name ∈ plan.writes := fun name hname =>
    NameSet.mem_union.mpr (.inr hname)
  apply (Emit.builds_obeys hreturns hnames).body
  · apply h.imp
    · exact fun e he => (he policy hreturns).mono hassigned
    · intro code hcode hplain statement hmem
      apply Expr.obeys_of_usage hreturns (hplain statement hmem)
      intro name hname
      have hwrite := Fragment.mem_usage_write hmem hname
      apply hknown name (.inr _)
      rcases List.mem_cons.mp hcode with rfl | hcode
      · exact NameSet.mem_union.mpr (.inl hwrite)
      · exact htransitions name (Plan.mem_transitionWrites.mpr ⟨code, hcode, hwrite⟩)
    · exact fun e he => (he policy hreturns).mono (Set.subset_union_left.trans hlocals)
  · exact fun name hname => hknown name (.inr (htransitions name hname))

/-- Names that the function of a tree may assign outside: `simp`, and what
expressions of nodes assign, its locals aside. -/
def Compiled.leaks (compiled : Compiled) (tree : ResponseTree) : Set String :=
  {name | name = "simp" ∨ name ∈ tree.assigned ∧ name ∉ compiled.locals}

theorem obeys_of_compile {compiled : Compiled} (hcompiled : (tree.compile ctx).1 = some compiled)
    (hauthored : ∀ e ∈ tree.authored ctx, e.Everywhere fun part => part.makesFunction = false)
    {body : Expr} (hbody : compiled.expr = .defineFunction compiled.function body)
    {policy : Policy} (hreturns : policy.returns) :
    body.Obeys policy (compiled.leaks tree) := by
  obtain ⟨traversal, plan, hplan, rfl⟩ := exists_plan (frugal_offered hauthored) hcompiled
  cases hbody
  apply Expr.Obeys.block
  · exact fun left right hmem => Emit.obeys_of_locals hmem
  · apply hplan.body_obeys _ _ hreturns
    · intro name hname
      by_cases hlocal : name ∈ Expr.declared (Emit.locals plan.writes)
      · exact .inr hlocal
      · exact .inl (.inr ⟨hname, hlocal⟩)
    · exact Set.union_subset_union_left _ fun name hname => .inl hname

/-- A call of the function of a tree, however it ends, leaves every variable of
the caller with the binding it had before, in every scope.  The exceptions are
`simp` and names that expressions of nodes assign although they are no locals of
the function. -/
theorem invoke_keeps_bindings {compiled : Compiled}
    (hcompiled : (tree.compile ctx).1 = some compiled)
    (hauthored : ∀ e ∈ tree.authored ctx, e.Everywhere fun part => part.makesFunction = false)
    {machine after : Machine}
    (hfunctions : ∀ name function, machine.functions.get? name = some function →
      compiled.expr = .defineFunction compiled.function function.body)
    {args : List Value} {outcome : Except EvalError Value}
    (hrun : Eval.invoke compiled.function args machine = Eval.lift outcome after)
    {name : String} (hname : name ≠ "simp")
    (hlocal : name ∈ tree.assigned → name ∈ compiled.locals) :
    after.env.column name = machine.env.column name := by
  let policy := Policy.assigning (compiled.leaks tree)
  have hgoverns : policy.Governs machine := by
    apply Policy.governs_assigning
    intro other function hfunction
    exact obeys_of_compile hcompiled hauthored (hfunctions other function hfunction) trivial
  have hkeeps : Eval.Keeps.Any policy (compiled.leaks tree)
      (Eval.apply (Expr.evalWithin machine.remaining) compiled.function args) :=
    .apply (Eval.Keeps.evalWithin machine.remaining) (Set.Subset.refl _) _ _
  obtain ⟨hkept, -⟩ := hkeeps.ends hgoverns hrun
  apply (hkept.changes name).2
  rintro (hsimp | ⟨hassigned, hfree⟩)
  · exact hname hsimp
  · exact hfree (hlocal hassigned)

/-- A tree that assigns in its feedback variables, in the arguments of a test and
on the way to a scene.  Feedback variables make `y` a local, but not `x`. -/
def assigningTree : ResponseTree where
  name := "p"
  value := 1.0
  scoreMode := .best
  feedbackVariables := "y: 1"
  root := "a"
  nodes :=
    [⟨"a", "Same", "x: 5", "y: 5", "", false,
      { Branch.plain with exit := .scene "end", transitionCode := "c: 9" }, .plain⟩]

def assigningContext : TreeContext where
  options := .default
  registry := Registry.register .empty ⟨"Same", .none, true, false⟩
  scene := "start"
  sceneNames := ["start", "end"]
  inputs := []
  stateVariables := [⟨"c", 1, "", "0"⟩]
  reader := none

/-- A machine with the function of a tree and no other, where the names of the
tree are bound. -/
def Compiled.inMachine (compiled : Compiled) : Machine :=
  { (Machine.fresh 1000).register "ATSame" fun args =>
      .ok (.list [.bool (args.length == 2), .str "", .str ""]) with
    env := ⟨[NameMap.ofList [("y", .int 2)]],
      NameMap.ofList [("c", .int 3), ("x", .int 1), ("simp", .bool true)]⟩
    functions := match compiled.expr with
      | .binary .define _ body => NameMap.empty.insert compiled.function ⟨[], body⟩
      | _ => .empty }

theorem Compiled.functions_inMachine {tree : ResponseTree} {ctx : TreeContext}
    {compiled : Compiled} (hcompiled : (tree.compile ctx).1 = some compiled) (name : String)
    (function : Closure) (h : compiled.inMachine.functions.get? name = some function) :
    compiled.expr = .defineFunction compiled.function function.body := by
  obtain ⟨traversal, plan, -, rfl⟩ := exists_plan_from hcompiled
  simp only [Compiled.inMachine, assemble, Expr.defineFunction, NameMap.get?_insert] at h
  by_cases heq : name = functionName ctx.scene tree.name
  · rw [if_pos heq] at h
    cases h
    rfl
  · rw [if_neg heq] at h
    cases h

/-- Does a call of the function end in a value, with a property of the value and
of the variables? -/
def endsIn (tree : ResponseTree) (ctx : TreeContext) (good : Value → Environment → Bool) : Bool :=
  match (tree.compile ctx).1 with
  | none => false
  | some compiled =>
      match Eval.invoke compiled.function [] compiled.inMachine with
      | .ok value after => good value after.env
      | .error _ _ => false

theorem exists_of_endsIn {good : Value → Environment → Bool} (h : tree.endsIn ctx good = true) :
    ∃ compiled value after, (tree.compile ctx).1 = some compiled ∧
      Eval.invoke compiled.function [] compiled.inMachine = Eval.lift (.ok value) after ∧
        good value after.env = true := by
  unfold endsIn at h
  split at h
  · cases h
  · next compiled hcompiled =>
      split at h
      · next value after hrun => exact ⟨compiled, value, after, hcompiled, hrun, h⟩
      · cases h

/-- Is a name unbound inside and this integer outside? -/
def isOuterInt (n : Int) : List (Option Value) → Bool
  | [none, some (.int found)] => found == n
  | _ => false

theorem eq_of_isOuterInt {n : Int} {column : List (Option Value)}
    (h : isOuterInt n column = true) : column = [none, some (Value.int n)] := by
  unfold isOuterInt at h
  split at h
  · rw [beq_iff_eq.mp h]
  · cases h

theorem assigningTree_authored : ∀ e ∈ assigningTree.authored assigningContext,
    e.Everywhere fun part => part.makesFunction = false := by
  decide +kernel

/-- A call of the function of `assigningTree`: it ends in a value, and of the
names that the tree assigns only `x` is assigned outside. -/
theorem assigningTree_run : ∃ compiled value after,
    (assigningTree.compile assigningContext).1 = some compiled ∧
      Eval.invoke compiled.function [] compiled.inMachine = Eval.lift (.ok value) after ∧
      ("y" ∈ assigningTree.assigned ∧ "y" ∈ compiled.locals) ∧ "c" ∉ assigningTree.assigned ∧
      after.env.column "x" = [none, some (.int 5)] := by
  obtain ⟨compiled, value, after, hcompiled, hrun, hcolumn⟩ := exists_of_endsIn
    (by decide +kernel : assigningTree.endsIn assigningContext
      (fun _ env => isOuterInt 5 (env.column "x")) = true)
  have hlocals : (assigningTree.compile assigningContext).1.all
      (fun compiled => decide ("y" ∈ compiled.locals)) = true := by
    decide +kernel
  rw [hcompiled] at hlocals
  refine ⟨compiled, value, after, hcompiled, hrun, ⟨?_, of_decide_eq_true hlocals⟩, ?_,
    eq_of_isOuterInt hcolumn⟩
  · decide +kernel
  · decide +kernel

/-- Feedback variables and updates are kept from the caller, though an argument
of the test assigns to a feedback variable. -/
theorem assigningTree_keeps_bindings : ∃ compiled value after,
    (assigningTree.compile assigningContext).1 = some compiled ∧
      Eval.invoke compiled.function [] compiled.inMachine = Eval.lift (.ok value) after ∧
      ∀ name ∈ ["y", "c"],
        after.env.column name = compiled.inMachine.env.column name := by
  obtain ⟨compiled, value, after, hcompiled, hrun, hlocal, hfree, -⟩ := assigningTree_run
  have hkept : ∀ {name : String}, name ≠ "simp" →
      (name ∈ assigningTree.assigned → name ∈ compiled.locals) →
        after.env.column name = compiled.inMachine.env.column name :=
    fun hname => invoke_keeps_bindings hcompiled assigningTree_authored
      (Compiled.functions_inMachine hcompiled) hrun hname
  refine ⟨compiled, value, after, hcompiled, hrun, ?_⟩
  simp only [List.forall_mem_cons]
  exact ⟨hkept (by decide) fun _ => hlocal.2, hkept (by decide) fun h => absurd h hfree,
    List.forall_mem_nil _⟩

/-- The assignment in the other argument of the test reaches the caller. -/
theorem assigningTree_leaks :
    (∀ e ∈ assigningTree.authored assigningContext,
      e.Everywhere fun part => part.makesFunction = false) ∧
    ∃ compiled value after, (assigningTree.compile assigningContext).1 = some compiled ∧
      (∀ name function, compiled.inMachine.functions.get? name = some function →
        compiled.expr = .defineFunction compiled.function function.body) ∧
      Eval.invoke compiled.function [] compiled.inMachine = Eval.lift (.ok value) after ∧
      after.env.column "x" ≠ compiled.inMachine.env.column "x" := by
  obtain ⟨compiled, value, after, hcompiled, hrun, -, -, hcolumn⟩ := assigningTree_run
  refine ⟨assigningTree_authored, compiled, value, after, hcompiled,
    Compiled.functions_inMachine hcompiled, hrun, ?_⟩
  rw [hcolumn]
  intro heq
  cases heq

end ResponseTree

end SceneQuiz
