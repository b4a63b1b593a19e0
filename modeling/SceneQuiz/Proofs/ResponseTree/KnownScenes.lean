import SceneQuiz.Proofs.ResponseTree.HarmlessTree
/-!
Where the function of a response tree sends the student.  The next scene is a
variable of the function that starts as `false` and is set by transitions only,
whose targets were checked when the tree was compiled.  It stays so as long as
the author leaves that variable alone.
-/

namespace SceneQuiz

namespace ResponseTree

variable {tree : ResponseTree} {ctx : TreeContext}

/-- No next scene, or one that there is. -/
def IsNextScene (scenes : List String) (value : Value) : Prop :=
  value = .bool false ∨ ∃ scene ∈ scenes, value = .str scene

/-- The restraint on the variable with the next scene. -/
def sceneRule : Restraint := ⟨{Vars.nextScene}, ∅⟩

theorem bounds_sceneRule : Bounds sceneRule tree ctx [Vars.nextScene] where
  kept _ hname := List.mem_singleton.mpr hname
  own := by
    rintro _ rfl
    decide
  saved hsimp := absurd hsimp (by simp [sceneRule, Vars.nextScene])
  flags hsimp := absurd hsimp (by simp [sceneRule, Vars.nextScene])

/-- What the author sets is not the next scene, and a transition sets it to a
scene that there is. -/
theorem upholds_nextScene {scenes : List String} {trusted : Set Expr} {bound : Nat}
    (htrusted : ∀ less < bound, ∀ body ∈ trusted,
      Eval.Heeds sceneRule trusted false (body.evalWithin less)) :
    Emit.Upholds (sceneRule.setting trusted) bound
      (fun env => IsNextScene scenes (env.reading Vars.nextScene)) (· ≠ Vars.nextScene)
      (· ∈ scenes) (Expr.Restrained sceneRule false) := by
  have hlasts : ∀ {env after : Environment}, IsNextScene scenes (env.reading Vars.nextScene) →
      sceneRule.Kept env after → IsNextScene scenes (after.reading Vars.nextScene) := by
    intro env after hscene hkept
    rwa [Environment.reading_of_column (hkept.columns Vars.nextScene rfl (by decide))]
  have hassigned : ∀ {name}, name ≠ Vars.nextScene → ∀ {env : Environment},
      IsNextScene scenes (env.reading Vars.nextScene) → ∀ value,
        IsNextScene scenes ((env.assign name value).reading Vars.nextScene) := by
    intro name hname env hscene value
    rwa [Environment.reading_of_column (Environment.column_assign_of_ne env value hname.symm)]
  apply Emit.upholds_of_lasting htrusted hlasts hassigned
  · intro target htarget env _
    rw [Environment.reading_assign]
    exact .inr ⟨target, htarget, rfl⟩
  · intro test htest
    apply Emit.steadyAll_unsimplified
    · exact fun fuel hfuel =>
        Emit.respects_of_heeds (Emit.heeds_of_trusted htrusted htest hfuel) hlasts
    · intro name hname
      have hother : ∀ name ∈ ["simp", Vars.savedSimp, Vars.testResult], name ≠ Vars.nextScene := by
        decide
      exact fun {_} hscene value => hassigned (hother name hname) hscene value

/-- A function that upholds what is known answers by it, or gives up. -/
theorem Plan.Has.brings_answer {setting : Setting} {known : Environment → Prop} {fuel : Nat}
    {M S : String → Prop} {P : Expr → Prop} {plan : Plan} (hplan : plan.Has (.throughout P))
    (h : Emit.Upholds setting fuel known M S P) (hset : ∀ name ∈ Emit.workNames, M name)
    (htargets : plan.LeadsTo S)
    (hopened : ∀ start scope, Emit.Opened plan.writes start scope → known (start.under scope))
    (isScored : Bool) (ctx : TreeContext) :
    Eval.Brings setting (fun _ => True) (fun value _ => value = .list [] ∨ Emit.Answers known value)
      (fun _ => True) (fun _ _ => True) ((plan.function isScored ctx).evalWithin fuel) := by
  apply Emit.brings_function _ fun _ _ => trivial
  intro less hless start scope _ hscope
  have hwork := Emit.steadyAll_iff.mp
    (h.forms.work hset hplan htargets (fun _ _ => trivial) isScored ctx)
  have hresult : ∀ last, Eval.Brings setting known (fun value _ => Emit.Answers known value) known
      (fun value env => value = .list [] ∧ known env)
      (Eval.sequence (Expr.evalWithin less) last [Emit.result]) := by
    intro last
    exact (h.brings_result hless).bind fun _ => .value fun _ hanswers => hanswers
  have hbody := Eval.Brings.sequence_append (hwork less hless) hresult (.bool false)
  apply hbody.imp
  · rintro _ rfl
    exact hopened start scope hscope
  · exact fun _ _ hanswers => .inr hanswers
  · exact fun _ _ => trivial
  · exact fun _ _ hnone => .inl hnone.1

/-- An answer of the function of a tree names a scene that there is, or none. -/
theorem invoke_leads_to_known {compiled : Compiled}
    (hcompiled : (tree.compile ctx).1 = some compiled) (hscene : ctx.scene ∈ ctx.sceneNames)
    (halone : tree.LeavesAlone ctx [Vars.nextScene]) (hwritten : Vars.nextScene ∉ tree.written)
    {machine after : Machine} (hsuits : compiled.Suits [Vars.nextScene] machine)
    (hloaded : compiled.IsLoaded machine) {args items : List Value}
    (hrun : Eval.invoke compiled.function args machine = Eval.lift (.ok (.list items)) after)
    (hitems : items.length = 8) :
    ∃ next, items[5]? = some next ∧ IsNextScene ctx.sceneNames next := by
  obtain ⟨plan, hfrom, hplan, hbody, htrusted⟩ := halone.exists_plan bounds_sceneRule hcompiled
  have htargets : plan.LeadsTo (· ∈ ctx.sceneNames) := by
    intro found hfound outcome transition htransition
    obtain ⟨node, -, hnode⟩ := hfrom.nodes found hfound
    rcases List.mem_cons.mp ((hnode.branch outcome).target transition htransition) with heq | hmem
    · rw [heq]
      exact hscene
    · exact hmem
  let known : Environment → Prop := fun env =>
    IsNextScene ctx.sceneNames (env.reading Vars.nextScene)
  have hopened : ∀ start scope, Emit.Opened plan.writes start scope →
      known (start.under scope) := by
    intro start scope hscope
    have hfalse := hscope.truths Vars.nextScene (by simp) fun h => hwritten (hfrom.mem_written h)
    left
    simp [Environment.reading, Environment.get?_eq_column, hfalse]
  have hupholds : Emit.Upholds (sceneRule.setting {plan.function tree.isScored ctx})
      machine.remaining known (· ≠ Vars.nextScene) (· ∈ ctx.sceneNames)
      (Expr.Restrained sceneRule false) := upholds_nextScene fun less _ => htrusted less
  have hcourse := (hplan.brings_answer hupholds (by decide) htargets hopened tree.isScored
    ctx).starting fun env (_ : env = machine.env.under .empty) => trivial
  have hgoverns := hsuits.governs (fun _ hname => List.mem_singleton.mpr hname :
    ∀ name ∈ sceneRule.kept, _) hbody
  rcases hloaded.value_of_brings hbody hgoverns hcourse hrun with hnone | hanswers
  · cases hnone
    cases hitems
  · obtain ⟨_, ⟨⟩, -, hslots⟩ := hanswers
    obtain ⟨env, hknown, hnext⟩ := hslots (5, Vars.nextScene) (by simp)
    exact ⟨_, hnext, hknown⟩

/-- Is a value an answer with this next scene? -/
def hasNext (next : String) : Value → Bool
  | .list [_, _, _, _, _, .str found, _, _] => found == next
  | _ => false

theorem exists_of_hasNext {next : String} {value : Value} (h : hasNext next value = true) :
    ∃ items, value = .list items ∧ items.length = 8 ∧ items[5]? = some (Value.str next) := by
  unfold hasNext at h
  split at h
  · exact ⟨_, rfl, rfl, by simpa using h⟩
  · cases h

/-- The tree leaves for a scene that there is. -/
theorem assigningTree_leads_to_known : ∃ compiled items after,
    (assigningTree.compile assigningContext).1 = some compiled ∧
      Eval.invoke compiled.function [] compiled.inMachine = Eval.lift (.ok (.list items)) after ∧
        items.length = 8 ∧ items[5]? = some (.str "end") ∧
          ∃ next, items[5]? = some next ∧ IsNextScene assigningContext.sceneNames next := by
  obtain ⟨compiled, value, after, hcompiled, hrun, hnext⟩ := exists_of_endsIn
    (by decide +kernel : assigningTree.endsIn assigningContext
      (fun value _ => hasNext "end" value) = true)
  obtain ⟨items, rfl, hitems, hend⟩ := exists_of_hasNext hnext
  refine ⟨compiled, items, after, hcompiled, hrun, hitems, hend, ?_⟩
  exact invoke_leads_to_known hcompiled (by decide) (by decide +kernel) (by decide +kernel)
    (Compiled.suits_inMachine hcompiled _) (Compiled.isLoaded_inMachine hcompiled) hrun hitems

/-- A tree whose feedback variables set the next scene. -/
def forgingTree : ResponseTree :=
  { assigningTree with
    feedbackVariables := "%_next_scene: \"nowhere\""
    nodes := [⟨"a", "Same", "1", "1", "", false, .plain, .plain⟩] }

/-- The author of the tree sends the student to a scene that there is not. -/
theorem forgingTree_leads_nowhere : assigningContext.scene ∈ assigningContext.sceneNames ∧
    ∃ compiled items after, (forgingTree.compile assigningContext).1 = some compiled ∧
      compiled.IsLoaded compiled.inMachine ∧
        Eval.invoke compiled.function [] compiled.inMachine = Eval.lift (.ok (.list items)) after ∧
          items.length = 8 ∧
            ¬ ∃ next, items[5]? = some next ∧ IsNextScene assigningContext.sceneNames next := by
  refine ⟨by decide, ?_⟩
  obtain ⟨compiled, value, after, hcompiled, hrun, hnext⟩ := exists_of_endsIn
    (by decide +kernel : forgingTree.endsIn assigningContext
      (fun value _ => hasNext "nowhere" value) = true)
  obtain ⟨items, rfl, hitems, hforged⟩ := exists_of_hasNext hnext
  refine ⟨compiled, items, after, hcompiled, Compiled.isLoaded_inMachine hcompiled, hrun, hitems,
    ?_⟩
  rintro ⟨next, hfound, hscene⟩
  cases hforged.symm.trans hfound
  rcases hscene with hnone | ⟨scene, hmem, heq⟩
  · cases hnone
  · cases heq
    revert hmem
    decide

end ResponseTree

end SceneQuiz
