import SceneQuiz.Proofs.ResponseTree.HarmlessTree
/-!
What is left of `simp` after a call of the function of a response tree.  A test
switches simplification off and back, and an error in it is trapped before it is
switched back.  An injection with a flag of its own sets `simp` and sets it back
too, but an error in it is trapped only around the whole branch: then `simp`
stays as the flag says.
-/

namespace SceneQuiz

namespace ResponseTree

variable {tree : ResponseTree} {ctx : TreeContext}

/-- Names that the author has to leave alone for `simp` to be set back. -/
def switchNames : List String := ["simp", Vars.savedSimp]

/-- The restraint on `simp` that feedback with its flags is able to heed. -/
def switchRule (tree : ResponseTree) (ctx : TreeContext) : Restraint where
  kept := {name | name ∈ switchNames}
  flags := {value | ∃ flag ∈ tree.flags ctx, value = .bool flag}

theorem bounds_switchRule : Bounds (tree.switchRule ctx) tree ctx switchNames where
  kept _ hname := hname
  own := by
    change ∀ name ∈ switchNames, name ∈ "simp" :: Emit.ownNames
    decide
  saved _ := by
    change Vars.savedSimp ∈ switchNames
    decide
  flags _ flag hflag := ⟨flag, hflag, rfl⟩

/-- A call of the function of a tree leaves `simp` as it was, or as a flag of the
feedback says, unless it uses up the step budget. -/
theorem invoke_restores_simp {compiled : Compiled}
    (hcompiled : (tree.compile ctx).1 = some compiled)
    (halone : tree.LeavesAlone ctx switchNames) {machine after : Machine}
    (hsuits : compiled.Suits switchNames machine) {args : List Value}
    {outcome : Except EvalError Value}
    (hrun : Eval.invoke compiled.function args machine = Eval.lift outcome after)
    (hgas : outcome ≠ .error .gasExhausted) :
    after.env.reading "simp" = machine.env.reading "simp" ∨
      ∃ flag ∈ tree.flags ctx, after.env.reading "simp" = .bool flag := by
  obtain ⟨plan, -, -, hbody, htrusted⟩ := halone.exists_plan bounds_switchRule hcompiled
  let rule := tree.switchRule ctx
  have hcall : Eval.Heeds rule {plan.function tree.isScored ctx} false
      (Eval.apply (Expr.evalWithin machine.remaining) compiled.function args) :=
    Eval.heeds_apply (fun hother => Eval.heeds_of_restrained _ (fun less _ => htrusted less) hother)
      (htrusted _) _ _
  have hgoverns := hsuits.governs (fun _ hname => hname : ∀ name ∈ rule.kept, _) hbody
  have hkept : rule.Kept machine.env after.env := hcall.kept hgoverns hrun hgas
  have hsimp : "simp" ∈ rule.kept := by
    change "simp" ∈ switchNames
    decide
  exact (hkept.simp hsimp).2

/-- A tree whose test divides by zero, with an injection in its feedback. -/
def dividingTree (injected : String) : ResponseTree where
  name := "p"
  value := 1.0
  scoreMode := .best
  feedbackVariables := ""
  root := "a"
  nodes :=
    [⟨"a", "Same", "1 / 0", "2", "", false, .plain, { Branch.plain with
      feedback := ⟨"", .root ⟨⟨0, 0⟩, false⟩ [.inject ⟨⟨0, 0⟩, false⟩ .value injected]⟩ }⟩]

/-- Does `simp` stand at this truth? -/
def simpIs (truth : Bool) (env : Environment) : Bool :=
  match env.reading "simp" with
  | .bool found => found == truth
  | _ => false

theorem reading_of_simpIs {truth : Bool} {env : Environment} (h : simpIs truth env = true) :
    env.reading "simp" = .bool truth := by
  unfold simpIs at h
  split at h
  · next found hfound => rw [hfound, beq_iff_eq.mp h]
  · cases h

/-- Neither the error in the test nor that in an injection without a flag reaches
`simp`. -/
theorem dividingTree_restores_simp : ∃ compiled value after,
    ((dividingTree "1 / 0").compile assigningContext).1 = some compiled ∧
      Eval.invoke compiled.function [] compiled.inMachine = Eval.lift (.ok value) after ∧
        after.env.reading "simp" = compiled.inMachine.env.reading "simp" := by
  obtain ⟨compiled, value, after, hcompiled, hrun, -⟩ := exists_of_endsIn
    (by decide +kernel : (dividingTree "1 / 0").endsIn assigningContext fun _ _ => true = true)
  refine ⟨compiled, value, after, hcompiled, hrun, ?_⟩
  have hflags : (dividingTree "1 / 0").flags assigningContext = [] := by decide +kernel
  rcases invoke_restores_simp hcompiled (by decide +kernel) (Compiled.suits_inMachine hcompiled _)
    hrun nofun with hsame | ⟨flag, hflag, -⟩
  · exact hsame
  · rw [hflags] at hflag
    cases hflag

/-- The error in an injection with a flag leaves `simp` at the flag. -/
theorem dividingTree_leaves_simp :
    (dividingTree "1 / 0, simp = false").LeavesAlone assigningContext switchNames ∧
    ∃ compiled value after,
      ((dividingTree "1 / 0, simp = false").compile assigningContext).1 = some compiled ∧
        compiled.Suits switchNames compiled.inMachine ∧
          Eval.invoke compiled.function [] compiled.inMachine = Eval.lift (.ok value) after ∧
            after.env.reading "simp" ≠ compiled.inMachine.env.reading "simp" := by
  refine ⟨by decide +kernel, ?_⟩
  obtain ⟨compiled, value, after, hcompiled, hrun, hsimp⟩ := exists_of_endsIn
    (by decide +kernel : (dividingTree "1 / 0, simp = false").endsIn assigningContext
      (fun _ => simpIs false) = true)
  refine ⟨compiled, value, after, hcompiled, Compiled.suits_inMachine hcompiled _, hrun, ?_⟩
  have hbefore : compiled.inMachine.env.reading "simp" = .bool true := rfl
  rw [reading_of_simpIs hsimp, hbefore]
  simp

end ResponseTree

end SceneQuiz
