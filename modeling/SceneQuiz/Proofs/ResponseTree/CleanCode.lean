import SceneQuiz.Proofs.ResponseTree.EmittedCode
import SceneQuiz.Proofs.Template.CleanCode
/-!
The words of compiled response trees are clean, as long as the registered answer
tests have clean names.  All other words come from code that was read, from
templates, or from compilation itself.
-/

namespace SceneQuiz

/-- Registered tests have names that can stand in code. -/
def Registry.Clean (registry : Registry) : Prop :=
  ∀ entry ∈ registry.entries, Uncut entry.2.codename

instance (registry : Registry) : Decidable registry.Clean :=
  inferInstanceAs (Decidable (∀ entry ∈ registry.entries, Uncut entry.2.codename))

/-- The built-in tests have clean names. -/
theorem Registry.clean_catalog : Registry.catalog.Clean := by decide +kernel

namespace ResponseTree

open SceneQuiz.Expr

/-- All words of a plan are clean. -/
def PlanProperty.clean : PlanProperty := ⟨Expr.Clean, Fragment.Clean, Expr.Clean⟩

variable {ctx : TreeContext}

theorem clean_changedScore (change : ScoreChange) {accumulator : String} {value : Expr}
    (haccumulator : CleanWord accumulator) (hvalue : value.Clean) :
    (changedScore change accumulator value).Clean := by
  cases change with
  | set => exact hvalue
  | add | subtract => exact clean_binary.mpr ⟨clean_ident.mpr haccumulator, hvalue⟩

theorem clean_seenAnswer (test : AnswerTest) {call : TestCall}
    (h : call.studentAnswer.Clean) : (test.seenAnswer call).Clean := by
  unfold AnswerTest.seenAnswer
  split
  · next name hname =>
      rw [hname] at h
      have hclean := clean_ident.mp h
      split
      · exact clean_ident.mpr (CleanWord.append (by decide) hclean.uncut)
      · exact h
  · exact h

theorem clean_invocation {test : AnswerTest} (htest : Uncut test.codename) {call : TestCall}
    (hstudent : call.studentAnswer.Clean) (hteacher : ∀ e ∈ call.teacherAnswer, e.Clean)
    (hoptions : ∀ e ∈ call.options, e.Clean) : (test.invocation call).Clean := by
  have hname : CleanWord (AnswerTest.functionName test.codename) :=
    CleanWord.append (by decide) htest
  have hcompared := clean_getD hteacher (clean_str "")
  refine clean_call.mpr ⟨hname, List.forall_mem_append.mpr ⟨?_, ?_⟩⟩
  · simp [clean_seenAnswer test hstudent, hcompared]
  · exact fun e he => hoptions e (Option.mem_toList.mp he)

theorem clean_offered (hregistry : ctx.registry.Clean) (tree : ResponseTree) :
    PlanProperty.clean.Offered tree ctx where
  expressions _ _ _ hparse := Expr.clean_of_parse hparse
  fragments _ _ _ hparse := Fragment.clean_of_parse hparse
  feedbacks _ _ _ hcompiled := Template.clean_compile hcompiled
  noTest := clean_list.mpr (List.forall_mem_nil _)
  changed change accumulator haccumulator value hvalue := by
    have haccumulators : ∀ name ∈ [Vars.score, Vars.penalty], CleanWord name := by decide
    exact clean_changedScore change (haccumulators accumulator haccumulator) hvalue
  invoked entry hentry _ hstudent hteacher hoptions :=
    clean_invocation (hregistry entry hentry) hstudent hteacher hoptions

theorem Plan.Has.transitionWrites_clean {plan : Plan} (h : plan.Has .clean) :
    plan.transitionWrites.Clean := by
  intro name hname
  obtain ⟨code, hcode, hwrite⟩ := Plan.mem_transitionWrites.mp hname
  exact Fragment.writesClean (h.transitions code hcode) name hwrite

theorem Plan.Has.writes_clean {plan : Plan} (h : plan.Has .clean) : plan.writes.Clean :=
  NameSet.Clean.union (Fragment.writesClean h.setup) h.transitionWrites_clean

namespace Emit

theorem builds_clean : Builds CleanWord Expr.Clean where
  names := by decide
  str := clean_str
  bool := clean_bool
  int := clean_int
  ident hname := clean_ident.mpr hname
  assign hname hvalue := clean_assign.mpr ⟨hname, hvalue⟩
  call name hname args hargs := by
    have hcalled : ∀ name ∈ "errcatch" :: "return" :: called, CleanWord name := by decide
    exact clean_call.mpr ⟨hcalled name hname, hargs⟩
  index htarget hindices := clean_index.mpr ⟨htarget, hindices⟩
  list _ hitems := clean_list.mpr hitems
  group _ hitems := clean_group.mpr hitems
  not hoperand := clean_not.mpr hoperand
  binary _ _ _ _ hleft hright := clean_binary.mpr ⟨hleft, hright⟩
  cond htest hbody _ hotherwise := clean_ifThen.mpr ⟨⟨htest, hbody⟩, hotherwise⟩

theorem clean_locals {written : NameSet} (hwritten : written.Clean) :
    ∀ e ∈ locals written, e.Clean := by
  have hvars : ∀ name ∈ ownNames, CleanWord name := fun name hname => builds_clean.known hname
  simp only [ownNames, List.forall_mem_cons] at hvars
  refine List.forall_mem_append.mpr ⟨by simp [accumulators, hvars], ?_⟩
  exact List.forall_mem_map.mpr fun name hname =>
    clean_keep.mpr (hwritten name (List.mem_filter.mp hname).1)

end Emit

theorem Plan.Has.body_clean {plan : Plan} (h : plan.Has .clean) (isScored : Bool)
    (ctx : TreeContext) : ∀ e ∈ plan.body isScored ctx, e.Clean := by
  apply Emit.builds_clean.body _ h.transitionWrites_clean
  exact h.imp (fun _ he => he) (fun _ _ hcode statement hmem => (hcode statement hmem).1)
    fun _ he => he

/-- The code of a compiled tree is clean if the name of its function is. -/
theorem clean_compile (hregistry : ctx.registry.Clean) {tree : ResponseTree}
    {compiled : Compiled} (h : (tree.compile ctx).1 = some compiled) :
    compiled.function = functionName ctx.scene tree.name ∧
      (CleanWord compiled.function → compiled.expr.Clean) := by
  obtain ⟨traversal, plan, hplan, rfl⟩ := exists_plan (clean_offered hregistry tree) h
  refine ⟨rfl, fun hname => clean_defineFunction.mpr ⟨hname, ?_⟩⟩
  exact clean_block.mpr ⟨Emit.clean_locals hplan.writes_clean, hplan.body_clean _ ctx⟩

end ResponseTree

end SceneQuiz
