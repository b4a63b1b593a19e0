import SceneQuiz.Proofs.ResponseTree.AuthoredCode
import SceneQuiz.Proofs.ResponseTree.FunctionRun
import SceneQuiz.Proofs.ResponseTree.Refinement
import SceneQuiz.Proofs.Template.Harmless
/-!
Trees whose author leaves some variables of the function alone.  The author
assigns none of them, binds none of them in a template, and uses `return` only
inside blocks.  Then the code of the plan is restrained, and so the function
heeds the restraint as long as the other functions of the machine are as
harmless.
-/

namespace SceneQuiz

namespace Emit

/-- Helper variables of loops go on with a digit where no other variable does. -/
theorem isDigit_loopStem (n : Nat) (rest : String) :
    ((loopStem n ++ rest).toList[4]?).any Char.isDigit = true := by
  have hdigits : ∀ c ∈ Nat.toDigits 10 n, c.isDigit = true := fun c hc =>
    Nat.isDigit_of_mem_toDigits (by omega) (by omega) hc
  cases htext : Nat.toDigits 10 n with
  | nil => exact absurd htext Nat.toDigits_ne_nil
  | cons first others =>
      rw [htext, List.forall_mem_cons] at hdigits
      simp [loopStem, htext, hdigits.1]

end Emit

namespace ResponseTree

/-- A restraint on variables of the function is one that feedback is able to
heed. -/
theorem fits_of_own {rule : Restraint}
    (hkept : ∀ name ∈ rule.kept, name ∈ "simp" :: Emit.ownNames)
    (hsaved : "simp" ∈ rule.kept → Vars.savedSimp ∈ rule.kept) : rule.Fits := by
  have hown : ∀ name ∈ "simp" :: Emit.ownNames, (name.toList[4]?).any Char.isDigit = false := by
    decide
  have hhelper : ∀ n rest, SceneQuiz.Emit.loopStem n ++ rest ∉ rule.kept := by
    intro n rest hmem
    have hdigit := hown _ (hkept _ hmem)
    rw [SceneQuiz.Emit.isDigit_loopStem] at hdigit
    cases hdigit
  refine ⟨fun hmem => absurd (hkept _ hmem) (by decide), hsaved, fun n => ⟨?_, ?_, fun i => ?_⟩⟩
  · exact hhelper n "_i"
  · exact hhelper n "_o"
  · rw [SceneQuiz.Emit.loopList, String.append_assoc]
    exact hhelper n _

/-- Blocks of the feedback of a tree, inlined templates included. -/
def feedbackBlocks (tree : ResponseTree) (ctx : TreeContext) : List Block :=
  tree.feedbacks.flatMap fun feedback =>
    ctx.templates.blocksWithin ctx.options.inlineDepth feedback

/-- Names that the feedback of a tree binds. -/
def binders (tree : ResponseTree) (ctx : TreeContext) : List String :=
  (tree.feedbackBlocks ctx).flatMap Block.binders

/-- Values that the feedback of a tree sets `simp` to for a while. -/
def flags (tree : ResponseTree) (ctx : TreeContext) : List Bool :=
  (tree.feedbackBlocks ctx).flatMap Block.flags

/-- The author of a tree leaves some names alone, and the blocks around the code. -/
structure LeavesAlone (tree : ResponseTree) (ctx : TreeContext) (names : List String) : Prop where
  authored : ∀ e ∈ tree.authored ctx, e.Harmless names
  binders : ∀ name ∈ tree.binders ctx, name ∉ names

theorem leavesAlone_iff {tree : ResponseTree} {ctx : TreeContext} {names : List String} :
    tree.LeavesAlone ctx names ↔
      (∀ e ∈ tree.authored ctx, e.Harmless names) ∧ ∀ name ∈ tree.binders ctx, name ∉ names :=
  ⟨fun h => ⟨h.authored, h.binders⟩, fun h => ⟨h.1, h.2⟩⟩

instance (tree : ResponseTree) (ctx : TreeContext) (names : List String) :
    Decidable (tree.LeavesAlone ctx names) :=
  decidable_of_iff _ leavesAlone_iff.symm

/-- The functions of a machine leave the names alone, except that of the tree
itself; what comes from outside leaves no block. -/
structure Compiled.Suits (compiled : Compiled) (names : List String) (machine : Machine) :
    Prop where
  functions : ∀ name function, machine.functions.get? name = some function →
    compiled.expr = .defineFunction compiled.function function.body ∨
      function.body.Harmless names
  hosts : ∀ name host, machine.hosts.get? name = some host → ∀ args, Unreturned (host args)

variable {tree : ResponseTree} {ctx : TreeContext} {rule : Restraint}

theorem extends_restrained : PlanProperty.Extends (Expr.Restrained rule false) where
  str _ := .node rfl nofun
  ident _ := .node rfl nofun
  noTest := .node rfl nofun
  changed op hop left right hleft hright := by
    have hplain : op ≠ .assign ∧ op ≠ .define := by
      revert op
      decide
    exact .node (by simpa [Expr.isOpen] using hplain)
      ((Expr.forall_children_two rfl).mpr ⟨hleft, hright⟩)
  invoked codename args hargs := by
    have hblock : AnswerTest.functionName codename ≠ "block" :=
      AnswerTest.functionName_ne codename (by decide)
    have hreturn : AnswerTest.functionName codename ≠ "return" :=
      AnswerTest.functionName_ne codename (by decide)
    exact .node (by simp [Expr.isOpen, hblock, hreturn]) hargs

/-- A restraint that the author keeps to. -/
structure Bounds (rule : Restraint) (tree : ResponseTree) (ctx : TreeContext)
    (names : List String) : Prop where
  kept : ∀ name ∈ rule.kept, name ∈ names
  own : ∀ name ∈ rule.kept, name ∈ "simp" :: Emit.ownNames
  saved : "simp" ∈ rule.kept → Vars.savedSimp ∈ rule.kept
  flags : "simp" ∈ rule.kept → ∀ flag ∈ tree.flags ctx, .bool flag ∈ rule.flags

theorem LeavesAlone.offered {names : List String} (h : tree.LeavesAlone ctx names)
    (hbounds : Bounds rule tree ctx names) :
    (PlanProperty.throughout (Expr.Restrained rule false)).Offered tree ctx := by
  have hauthored : ∀ e ∈ tree.authored ctx, e.Restrained rule false := fun e he =>
    (h.authored e he).restrained hbounds.kept
  apply PlanProperty.offered_throughout extends_restrained
  · exact fun e he => hauthored e (mem_authored_expression he)
  · exact fun e he => hauthored e (mem_authored_statement he)
  · intro feedback hfeedback compiled hcompiled
    apply Template.restrained_of_compile (fits_of_own hbounds.own hbounds.saved) hcompiled
    intro block hblock
    have hmem : block ∈ tree.feedbackBlocks ctx :=
      List.mem_flatMap.mpr ⟨feedback, hfeedback, hblock⟩
    refine ⟨fun e he => hauthored e (mem_authored_feedback hfeedback hblock he), ?_, ?_⟩
    · intro name hname hkept
      exact h.binders name (List.mem_flatMap.mpr ⟨block, hmem, hname⟩) (hbounds.kept name hkept)
    · exact fun flag hflag hsimp =>
        hbounds.flags hsimp flag (List.mem_flatMap.mpr ⟨block, hmem, hflag⟩)

/-- The function of a tree whose author leaves names alone, and what it is made
of. -/
theorem LeavesAlone.exists_plan {names : List String} (h : tree.LeavesAlone ctx names)
    (hbounds : Bounds rule tree ctx names) {compiled : Compiled}
    (hcompiled : (tree.compile ctx).1 = some compiled) :
    ∃ plan : Plan, plan.From tree ctx ∧ plan.Has (.throughout (Expr.Restrained rule false)) ∧
      compiled.expr = .defineFunction compiled.function (plan.function tree.isScored ctx) ∧
        ∀ fuel, ∀ body ∈ ({plan.function tree.isScored ctx} : Set Expr),
          Eval.Heeds rule {plan.function tree.isScored ctx} false (body.evalWithin fuel) := by
  obtain ⟨traversal, plan, hfrom, rfl⟩ := exists_plan_from hcompiled
  have hplan := hfrom.has (h.offered hbounds)
  refine ⟨plan, hfrom, hplan, rfl, ?_⟩
  rintro fuel _ rfl
  exact hplan.heeds_function hbounds.own hbounds.saved _ _ fuel

/-- Where the function of the tree runs, the restraint governs. -/
theorem Compiled.Suits.governs {names : List String} {compiled : Compiled} {machine : Machine}
    (h : compiled.Suits names machine) (hkept : ∀ name ∈ rule.kept, name ∈ names) {body : Expr}
    (hbody : compiled.expr = .defineFunction compiled.function body) :
    (rule.setting {body}).holds machine := by
  refine ⟨fun name function hfunction => ?_, h.hosts⟩
  rcases h.functions name function hfunction with hown | hharmless
  · left
    rw [hbody] at hown
    injection hown with _ _ hsame
    exact hsame.symm
  · exact .inr (hharmless.restrained hkept)

/-- Names that statements of the author are found to write, whether they run or
not. -/
def written (tree : ResponseTree) : List String :=
  tree.fragments.flatMap fun source =>
    (Fragment.usage ((Fragment.parse source).toOption.getD [])).write.names

theorem Plan.From.mem_written {plan : Plan} (h : plan.From tree ctx) {name : String}
    (hname : name ∈ plan.writes) : name ∈ tree.written := by
  have hsource : ∀ source ∈ tree.fragments, ∀ code, Fragment.parse source = .ok code →
      name ∈ (Fragment.usage code).write → name ∈ tree.written := by
    intro source hsource code hcode hwrite
    refine List.mem_flatMap.mpr ⟨source, hsource, ?_⟩
    rw [hcode]
    exact NameSet.mem_names.mpr hwrite
  rcases NameSet.mem_union.mp hname with hsetup | htransition
  · exact hsource _ List.mem_cons_self _ h.setup hsetup
  · obtain ⟨code, hcode, hwrite⟩ := Plan.mem_transitionWrites.mp htransition
    obtain ⟨found, hfound, outcome, transition, hmem, rfl⟩ := Plan.mem_transitions.mp hcode
    obtain ⟨node, hnode, hfrom⟩ := h.nodes found hfound
    refine hsource _ (List.mem_cons_of_mem _ ?_) _ ((hfrom.branch outcome).code _ hmem) hwrite
    exact List.mem_flatMap.mpr ⟨node, hnode, List.mem_map.mpr ⟨outcome, mem_outcomes outcome, rfl⟩⟩

/-- A call of the function that ends in a value is a run of its body. -/
theorem Compiled.IsLoaded.value_of_brings {compiled : Compiled} {machine after : Machine}
    (h : compiled.IsLoaded machine) {body : Expr}
    (hbody : compiled.expr = .defineFunction compiled.function body) {setting : Setting}
    (hholds : setting.holds machine) {good : Value → Prop} {left : Value → Environment → Prop}
    (hbrings : Eval.Brings setting (· = machine.env.under .empty) (fun value _ => good value)
      (fun _ => True) left (body.evalWithin machine.remaining)) {args : List Value} {value : Value}
    (hrun : Eval.invoke compiled.function args machine = Eval.lift (.ok value) after) :
    good value := by
  obtain ⟨hhost, other, hother, hfunction⟩ := h
  have hsame : other = body := by
    rw [hbody] at hother
    injection hother with _ _ hsame
    exact hsame.symm
  rw [Eval.invoke, Eval.Follows.apply_eq_callee, Eval.Follows.callee, hhost, hfunction,
    hsame] at hrun
  dsimp only [Eval.applyClosure] at hrun
  split at hrun
  · next hargs =>
      obtain rfl : args = [] := List.length_eq_zero_iff.mp hargs.symm
      have hcall : Eval.Brings setting (· = machine.env) (fun value _ => good value)
          (fun _ => True) (fun _ _ => True)
          (Eval.inScope [] (body.evalWithin machine.remaining)) := by
        apply Eval.Brings.within
        rintro _ rfl
        exact hbrings.imp (fun _ heq => heq) (fun _ _ hgood => hgood) (fun _ _ => trivial)
          fun _ _ _ => trivial
      exact (hcall.ends hholds rfl hrun (by simp)).2
  · cases hrun

/-- A machine with the function of a tree and no other suits it. -/
theorem Compiled.suits_inMachine {compiled : Compiled}
    (hcompiled : (tree.compile ctx).1 = some compiled) (names : List String) :
    compiled.Suits names compiled.inMachine := by
  constructor
  · exact fun name function hfunction =>
      .inl (Compiled.functions_inMachine hcompiled name function hfunction)
  · intro name host hhost args
    simp only [Compiled.inMachine, Machine.register, Machine.fresh, NameMap.get?_insert] at hhost
    by_cases heq : name = "ATSame"
    · rw [if_pos heq] at hhost
      cases hhost
      trivial
    · rw [if_neg heq] at hhost
      cases hhost

theorem Compiled.isLoaded_inMachine {compiled : Compiled}
    (hcompiled : (tree.compile ctx).1 = some compiled) :
    compiled.IsLoaded compiled.inMachine := by
  obtain ⟨traversal, plan, -, rfl⟩ := exists_plan_from hcompiled
  have hname : functionName ctx.scene tree.name ≠ "ATSame" := functionName_ne (by decide)
  refine ⟨?_, _, rfl, ?_⟩
  · simp [Compiled.inMachine, Machine.register, Machine.fresh, assemble, hname]
  · simp [Compiled.inMachine, assemble, Expr.defineFunction]

end ResponseTree

end SceneQuiz
