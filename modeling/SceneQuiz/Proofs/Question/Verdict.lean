import SceneQuiz.Proofs.Diagnostic.Verdict
import SceneQuiz.Proofs.Question.Accepted
import SceneQuiz.Proofs.Question.WellFormed
import SceneQuiz.Proofs.ResponseTree.Compilation
/-!
What the compilation of a question comes to, part by part.  What a scene
contributes depends on the scene, on the code of the whole question and on the
scenes there are, and neither on its place nor on what other scenes report.
-/

namespace SceneQuiz

/-- The usage of statements in a text; without success there are none. -/
def Fragment.usageOf (source : String) : Usage :=
  Fragment.usage ((Fragment.parse source).toOption.getD [])

/-- Names that the variables of a scene write. -/
def Scene.written (scene : Scene) : NameSet := (Fragment.usageOf scene.setup).write.owned

/-- Names that the variables of a whole question write. -/
def Question.written (question : Question) : NameSet :=
  (Fragment.usageOf question.setup).write.owned

/-- What the layers of a question define. -/
def Question.layers (question : Question) : Layers :=
  .ofQuestion question (Fragment.usageOf question.setup)

namespace Build

open Logged (ComesTo)

attribute [local irreducible] Fragment.verdict Expr.verdict

variable {ctx : BuildContext} {question : Question} {layers : Layers}

/-- The artifact of code that sets variables, and its usage. -/
def setupResult (key name : String) (inputs : List String) :
    Option Fragment → List Entry × Usage
  | none => ([], .empty)
  | some code => ([(key, function name (statements code) inputs)], Fragment.usage code)

theorem setupResult_usage (key name source : String) (inputs : List String) :
    (setupResult key name inputs (Fragment.verdict source).value).2 =
      Fragment.usageOf source := by
  rw [Fragment.verdict_value, Fragment.usageOf]
  cases Fragment.parse source <;> rfl

theorem comesTo_setup (key name source : String) (inputs : List String) (path : Locator) :
    ComesTo (setup key name source inputs path)
      ((Fragment.verdict source).map (setupResult key name inputs)) :=
  (ComesTo.fragment? source path).map fun code => by cases code <;> rfl

/-- What the initial values of state variables come to. -/
def initialVerdict (slots : List StateVariable) : Verdict (List (StateVariable × Option Expr)) :=
  .flatMap slots fun slot => (Expr.verdict slot.initialValue).map fun value => [(slot, value)]

theorem comesTo_initialValues (index : Nat) (slots : List StateVariable) :
    ComesTo (initialValues index slots) (initialVerdict slots) := by
  induction slots generalizing index with
  | nil => exact .of_pure []
  | cons slot rest ih =>
      change ComesTo _ ((Expr.verdict slot.initialValue).andThen
        ((initialVerdict rest).map ((slot, (Expr.verdict slot.initialValue).value) :: ·)))
      refine (ComesTo.expr? _ _).bind ?_
      exact (ih (index + 1)).map fun _ => rfl

/-- What a template comes to. -/
def textVerdict (ctx : BuildContext) (key name : String) (template : Template)
    (inputs : List String) : Verdict (List Entry) :=
  match template.compile ⟨ctx.options, inputs, ctx.reader⟩ with
  | .ok compiled => ⟨[(key, function name compiled.expr inputs)], false⟩
  | .error log => ⟨[], log.hasErrors⟩

theorem comesTo_text (key name : String) (template : Template) (inputs : List String)
    (path : Locator) :
    ComesTo (text ctx key name template inputs path)
      (textVerdict ctx key name template inputs) := by
  unfold text textVerdict
  cases hcompile : template.compile ⟨ctx.options, inputs, ctx.reader⟩ with
  | ok compiled => exact .of_pure _
  | error log =>
      exact (ComesTo.absorb (Template.filled_compile hcompile) path).map (f := fun _ => [])
        fun _ => rfl

/-- What a validation box of a scene comes to. -/
def boxVerdict (ctx : BuildContext) (scene : String) (box : ValidationBox) :
    Verdict (List Entry) :=
  match box.text with
  | some template =>
      textVerdict ctx (sceneKey scene ("vbox-" ++ box.name))
        ("%_scene_" ++ scene ++ "_vbox_" ++ box.name) template box.inputs
  | none => ⟨[], false⟩

theorem comesTo_boxes (scene : String) (path : Locator) (index : Nat)
    (items : List ValidationBox) :
    ComesTo (boxes ctx scene path index items) (.flatMap items (boxVerdict ctx scene)) := by
  induction items generalizing index with
  | nil => exact .of_pure []
  | cons box rest ih =>
      unfold boxes
      rw [Verdict.flatMap_cons, boxVerdict]
      cases box.text with
      | none => exact (ComesTo.of_pure []).append (ih (index + 1))
      | some template => exact (comesTo_text _ _ _ _ _).append (ih (index + 1))

/-- What a response tree comes to. -/
def treeVerdict (ctx : TreeContext) (tree : ResponseTree) : Verdict (List Entry) :=
  ⟨(tree.compile ctx).1.toList.map fun compiled =>
      (sceneKey ctx.scene ("prt-" ++ tree.name),
        .tree compiled.function compiled.code compiled.inputs compiled.order compiled.value),
    (tree.compile ctx).2.hasErrors⟩

theorem comesTo_trees {ctx : TreeContext} (path : Locator) (index : Nat)
    (items : List ResponseTree) :
    ComesTo (trees ctx path index items) (.flatMap items (treeVerdict ctx)) := by
  induction items generalizing index with
  | nil => exact .of_pure []
  | cons tree rest ih =>
      change ComesTo _ ((Verdict.mk () (tree.compile ctx).2.hasErrors).andThen
        ((Verdict.flatMap rest (treeVerdict ctx)).map ((treeVerdict ctx tree).value ++ ·)))
      refine (ComesTo.absorb (ResponseTree.filled_compile tree ctx) _).bind ?_
      exact (ih (index + 1)).map fun _ => rfl

/-- What the code that sets the variables of a scene comes to. -/
def sceneSetup (scene : Scene) : Verdict (List Entry × Usage) :=
  (Fragment.verdict scene.setup).map (setupResult (sceneKey scene.name "variables")
    ("%_scene_" ++ scene.name ++ "_variables") scene.inputNames)

/-- What a scene comes to; its trees are left out if it does not keep to the
layers. -/
def sceneVerdict (ctx : BuildContext) (question : Question) (scene : Scene) :
    Verdict (List Entry) :=
  let setup := sceneSetup scene
  let errors := question.layers.sceneErrors 0 scene (Fragment.usageOf scene.setup)
  let shown := textVerdict ctx (sceneKey scene.name "text") ("%_scene_" ++ scene.name ++ "_text")
    scene.text scene.inputNames
  let boxed := Verdict.flatMap scene.boxes (boxVerdict ctx scene.name)
  let judged := if errors.isEmpty then
      Verdict.flatMap scene.trees (treeVerdict (treeContext ctx question scene))
    else ⟨[], false⟩
  setup.andThen <| (Verdict.ofErrors errors).andThen <| shown.andThen <| boxed.andThen <|
    judged.map fun entries => setup.value.1 ++ shown.value ++ boxed.value ++ entries

theorem comesTo_scene (index : Nat) (item : Scene) :
    ComesTo (scene ctx question question.layers index item)
      ((sceneVerdict ctx question item).map (·, item.written)) := by
  have hplace : (question.layers.sceneErrors index item (Fragment.usageOf item.setup)).isEmpty =
      (question.layers.sceneErrors 0 item (Fragment.usageOf item.setup)).isEmpty := by
    rw [Bool.eq_iff_iff, List.isEmpty_iff, List.isEmpty_iff, Layers.sceneErrors_eq_nil_iff,
      Layers.sceneErrors_eq_nil_iff]
  have hreported : Verdict.ofErrors
      (question.layers.sceneErrors 0 item (Fragment.usageOf item.setup)) = Verdict.ofErrors
        (question.layers.sceneErrors index item (Fragment.usageOf item.setup)) :=
    congrArg (Verdict.mk () !·) hplace.symm
  unfold scene sceneVerdict
  simp only [Verdict.map_andThen]
  refine (comesTo_setup _ _ _ _ _).bind ?_
  dsimp only [Verdict.map]
  rw [setupResult_usage, hreported]
  refine (ComesTo.errors _).bind ?_
  refine (comesTo_text _ _ _ _ _).bind ?_
  refine (comesTo_boxes _ _ _ _).bind ?_
  rw [← hplace]
  split
  · exact (comesTo_trees _ _ _).map fun _ => rfl
  · exact (ComesTo.of_pure []).map fun _ => rfl

/-- A scene without faults keeps to the layers. -/
theorem keeps_of_sceneVerdict {item : Scene}
    (h : (sceneVerdict ctx question item).isFaulty = false) :
    question.layers.Keeps item item.written := by
  obtain ⟨-, hrest⟩ := Verdict.andThen_isFaulty.mp h
  obtain ⟨herrors, -⟩ := Verdict.andThen_isFaulty.mp hrest
  exact Layers.sceneErrors_eq_nil_iff.mp (Verdict.ofErrors_isFaulty.mp herrors)

/-- Names that the variables of scenes write. -/
def writtenBy (items : List Scene) : NameSet :=
  items.foldr (fun item names => item.written ∪ names) ∅

theorem mem_writtenBy {items : List Scene} {name : String} :
    name ∈ writtenBy items ↔ ∃ item ∈ items, name ∈ item.written := by
  induction items with
  | nil => exact ⟨fun h => absurd h List.not_mem_nil, fun ⟨_, h, _⟩ => absurd h List.not_mem_nil⟩
  | cons item rest ih =>
      have hcons : writtenBy (item :: rest) = item.written ∪ writtenBy rest := rfl
      simp [hcons, NameSet.mem_union, ih]

attribute [local irreducible] sceneVerdict

theorem comesTo_scenes (index : Nat) (items : List Scene) :
    ComesTo (scenes ctx question question.layers index items)
      ((Verdict.flatMap items (sceneVerdict ctx question)).map (·, writtenBy items)) := by
  induction items generalizing index with
  | nil => exact .of_pure ([], ∅)
  | cons item rest ih =>
      change ComesTo _ (((sceneVerdict ctx question item).map (·, item.written)).andThen
        (((Verdict.flatMap rest (sceneVerdict ctx question)).map (·, writtenBy rest)).map
          fun others => ((sceneVerdict ctx question item).value ++ others.1,
            item.written ∪ others.2)))
      refine (comesTo_scene index item).bind ?_
      exact (ih (index + 1)).map fun _ => rfl

end Build

namespace Question

open Logged (ComesTo)

variable {question : Question} {ctx : BuildContext}

/-- Names that the code of some layer of the question writes, or that its state
has. -/
def forbidden (question : Question) : NameSet :=
  question.layers.questionNames ∪ question.layers.stateNames ∪ Build.writtenBy question.scenes

/-- What is wrong with the layers of the whole question. -/
def layerErrors (question : Question) : List Diagnostic :=
  let values := (Build.initialVerdict question.stateVariables).value
  Layers.questionErrors question (Fragment.usageOf question.setup)
    (values.map fun entry => (entry.2.map Expr.usage).getD .empty)

/-- What a question comes to: the entries of its artifacts. -/
def verdict (question : Question) (ctx : BuildContext) : Verdict (List Build.Entry) :=
  let setup := (Fragment.verdict question.setup).map (Build.setupResult "qv" "%_qv" [])
  let values := Build.initialVerdict question.stateVariables
  let parts := Verdict.flatMap question.scenes (Build.sceneVerdict ctx question)
  (Verdict.ofErrors question.structureErrors).andThen <| setup.andThen <| values.andThen <|
    (Verdict.ofErrors question.layerErrors).andThen <| parts.map fun entries =>
      setup.value.1 ++ [Build.stateInit values.value] ++ entries ++
        [("forbiddenkeys", .keys question.forbidden.names)]

theorem comesTo_build (question : Question) (ctx : BuildContext) :
    ComesTo (question.build ctx) ((question.verdict ctx).map NameMap.ofList) := by
  unfold build verdict
  simp only [Verdict.map_andThen]
  refine (ComesTo.errors _).bind ?_
  refine (Build.comesTo_setup _ _ _ _ _).bind ?_
  refine (Build.comesTo_initialValues _ _).bind ?_
  dsimp only [Verdict.map]
  rw [Build.setupResult_usage]
  refine (ComesTo.errors _).bind ?_
  let listed (found : List Build.Entry × NameSet) : Artifacts :=
    .ofList ((Build.setupResult "qv" "%_qv" [] (Fragment.verdict question.setup).value).1 ++
      [Build.stateInit (Build.initialVerdict question.stateVariables).value] ++ found.1 ++
      [("forbiddenkeys",
        .keys (question.layers.questionNames ∪ question.layers.stateNames ∪ found.2).names)])
  exact (Build.comesTo_scenes _ _).map (f := listed) fun _ => rfl

/-- The artifacts that a question is compiled to. -/
def artifacts (question : Question) (ctx : BuildContext) : Artifacts :=
  .ofList (question.verdict ctx).value

theorem build_value (question : Question) (ctx : BuildContext) :
    ((question.build ctx).run .empty).1 = question.artifacts ctx := by
  rw [(comesTo_build question ctx).value]
  rfl

theorem compile_eq (question : Question) (ctx : BuildContext) :
    question.compile ctx =
      let (artifacts, log) := (question.build ctx).run .empty
      ⟨if log.hasErrors then none
        else some ⟨question.name, question.entryName?.getD "", artifacts, artifacts.hash⟩, log⟩ := by
  unfold compile
  generalize (question.build ctx).run .empty = run
  obtain ⟨artifacts, log⟩ := run
  dsimp only
  split <;> rfl

/-- Errors are reported exactly if something is faulty, and then there are some to
show. -/
theorem compile_log (question : Question) (ctx : BuildContext) :
    (question.compile ctx).log.hasErrors = (question.verdict ctx).isFaulty ∧
      (question.compile ctx).log.Filled := by
  have hbuild := comesTo_build question ctx
  have hlog : (question.compile ctx).log = ((question.build ctx).run .empty).2 := by
    rw [compile_eq]
    generalize (question.build ctx).run .empty = run
    rfl
  rw [hlog]
  exact ⟨(hbuild.reports .empty).trans (Bool.false_or _), hbuild.fills _ Log.filled_empty⟩

theorem compile_question (question : Question) (ctx : BuildContext) :
    (question.compile ctx).question =
      if (question.verdict ctx).isFaulty then none
      else some ⟨question.name, question.entryName?.getD "", question.artifacts ctx,
        (question.artifacts ctx).hash⟩ := by
  rw [← (compile_log question ctx).1, compile_eq, ← build_value]
  generalize (question.build ctx).run .empty = run
  obtain ⟨artifacts, log⟩ := run
  rfl

theorem artifacts_of_compile {question : Question} {ctx : BuildContext}
    {compiled : CompiledQuestion} {log : Log}
    (h : question.compile ctx = ⟨some compiled, log⟩) :
    compiled.artifacts = question.artifacts ctx ∧ (question.verdict ctx).isFaulty = false := by
  have hquestion := compile_question question ctx
  rw [h] at hquestion
  cases hfaulty : (question.verdict ctx).isFaulty with
  | true =>
      rw [hfaulty] at hquestion
      cases hquestion
  | false =>
      rw [hfaulty] at hquestion
      cases hquestion
      exact ⟨rfl, rfl⟩

/-- A question without faults is well-formed, and its scenes keep to the layers. -/
theorem of_verdict (h : (question.verdict ctx).isFaulty = false) :
    question.WellFormed ∧ ∀ scene ∈ question.scenes, question.layers.Keeps scene scene.written := by
  obtain ⟨hstructure, hrest⟩ := Verdict.andThen_isFaulty.mp h
  obtain ⟨-, hrest⟩ := Verdict.andThen_isFaulty.mp hrest
  obtain ⟨-, hrest⟩ := Verdict.andThen_isFaulty.mp hrest
  obtain ⟨-, hscenes⟩ := Verdict.andThen_isFaulty.mp hrest
  refine ⟨structureErrors_eq_nil_iff.mp (Verdict.ofErrors_isFaulty.mp hstructure), ?_⟩
  intro scene hscene
  exact Build.keeps_of_sceneVerdict (Verdict.flatMap_isFaulty.mp hscenes scene hscene)

/-- Without faults, every part of the question has its entry. -/
theorem compiles_verdict (h : (question.verdict ctx).isFaulty = false) :
    Part.Compiles (question.verdict ctx).value question.parts := by
  obtain ⟨-, hrest⟩ := Verdict.andThen_isFaulty.mp h
  obtain ⟨hcode, hrest⟩ := Verdict.andThen_isFaulty.mp hrest
  obtain ⟨-, hrest⟩ := Verdict.andThen_isFaulty.mp hrest
  obtain ⟨-, hscenes⟩ := Verdict.andThen_isFaulty.mp hrest
  obtain ⟨artifact, hentry, hname⟩ :=
    (Build.comesTo_setup "qv" "%_qv" question.setup [] []).accepted
      (Build.accepts_setup _ _ _ _ _) hcode
  have hparts := (Build.comesTo_scenes 0 question.scenes).accepted
    (Build.accepts_scenes question.layers 0 question.scenes) hscenes
  have hsetup : (Build.setupResult "qv" "%_qv" [] (Fragment.verdict question.setup).value).1 =
      [("qv", artifact)] := hentry
  unfold verdict parts
  dsimp only [Verdict.andThen, Verdict.map]
  rw [hsetup]
  exact .cons ⟨rfl, hname⟩ (.cons ⟨rfl, rfl⟩
    (List.rel_append hparts (.cons ⟨rfl, rfl⟩ .nil)))

end Question

end SceneQuiz
