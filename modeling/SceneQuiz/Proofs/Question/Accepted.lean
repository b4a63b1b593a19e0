import Mathlib.Data.List.Forall2
import SceneQuiz.Proofs.Diagnostic.Reported
import SceneQuiz.Question.Compiled
/-!
What an accepted question is compiled to.  A question is accepted if no error is
reported; then the names of its parts are identifiers, unique within their
collection, and every part has its artifact.  The artifacts are listed here by
the parts they are compiled from.
-/

namespace SceneQuiz

theorem Checked.faults_of_error {α : Type} {checked : Checked α}
    {faults : List TemplateFault} (h : checked.result = .error faults) :
    faults ≠ [] := by
  unfold Checked.result at h
  split at h
  · cases h
  · next hfaults =>
      cases h
      simpa using hfaults

theorem TemplateContext.faults_of_compileWith {ctx : TemplateContext}
    {expand : String → Except TemplateIssue Expr} {template : Template}
    {faults : List TemplateFault}
    (h : ctx.compileWith expand template = .error faults) : faults ≠ [] := by
  unfold compileWith skeleton Node.toBlock Expr.normalize at h
  cases hread : ((template.root.annotate template.source
      ctx.options.mathEnvironments).read ctx.inputs false).result with
  | error found =>
      simp only [hread, bind, Except.bind] at h
      cases h
      exact Checked.faults_of_error hread
  | ok block =>
      simp only [hread, bind, Except.bind, pure, Except.pure] at h
      cases hmerged : (block.code.merged expand).result with
      | error found =>
          simp only [hmerged, Except.map] at h
          cases h
          exact Checked.faults_of_error hmerged
      | ok merged => simp [hmerged, Except.map] at h

/-- A template that does not compile reports an error. -/
theorem Template.hasErrors_of_compile {template : Template}
    {ctx : TemplateContext} {log : Log}
    (h : template.compile ctx = .error log) : log.hasErrors ≠ false := by
  unfold compile at h
  split at h
  · cases h
  · next faults hfaults =>
      cases h
      intro hnone
      have hempty := Log.hasErrors_ofErrors hnone
      exact TemplateContext.faults_of_compileWith hfaults
        (List.map_eq_nil_iff.mp hempty)

/-- A tree that does not compile reports an error. -/
theorem ResponseTree.compile_isSome {tree : ResponseTree} {ctx : TreeContext}
    (h : (tree.compile ctx).2.hasErrors = false) :
    ∃ compiled, (tree.compile ctx).1 = some compiled ∧
      compiled.function = functionName ctx.scene tree.name := by
  unfold compile at h ⊢
  cases hwalk : tree.walk with
  | error fault =>
      rw [hwalk] at h
      cases h
  | ok traversal =>
      simp only [hwalk] at h ⊢
      cases hrun : (tree.plan ctx traversal).run
        ((tree.orphanWarnings traversal).foldl Log.pushWarning .empty) with
      | mk plan log =>
          simp only [hrun] at h ⊢
          by_cases herrors : log.hasErrors = true
          · simp [herrors] at h
          · rw [if_neg herrors]
            exact ⟨_, rfl, rfl⟩

/-- A function that the artifact defines. -/
def Artifact.functionName? : Artifact → Option String
  | .function name _ _ | .tree name _ _ _ _ => some name
  | .keys _ => none

/-- A function of a scene that judges nothing. -/
inductive SceneFunction where
  | setup
  | text
  /-- The text of a validation box. -/
  | box (name : String)
deriving DecidableEq

namespace SceneFunction

/-- The end of its key. -/
def keyPart : SceneFunction → String
  | .setup => "variables"
  | .text => "text"
  | .box name => "vbox-" ++ name

/-- The end of its name. -/
def suffix : SceneFunction → String
  | .setup => "_variables"
  | .text => "_text"
  | .box name => "_vbox_" ++ name

end SceneFunction

/-- A part of a question that is compiled to an artifact, by the names of what
it belongs to. -/
inductive Part where
  | questionSetup
  | stateInit
  | scene (scene : String) (function : SceneFunction)
  | tree (scene name : String)
  | forbiddenNames
deriving DecidableEq

namespace Part

/-- The key of the artifact. -/
def key : Part → String
  | .questionSetup => "qv"
  | .stateInit => "state-init"
  | .scene owner function => Build.sceneKey owner function.keyPart
  | .tree owner name => Build.sceneKey owner ("prt-" ++ name)
  | .forbiddenNames => "forbiddenkeys"

/-- The function that the artifact defines. -/
def functionName? : Part → Option String
  | .questionSetup => some "%_qv"
  | .stateInit => some "%_state_init"
  | .scene owner function => some ("%_scene_" ++ owner ++ function.suffix)
  | .tree owner name => some (ResponseTree.functionName owner name)
  | .forbiddenNames => none

/-- Artifacts are those of some parts, one after the other. -/
def Compiles (entries : List Build.Entry) (parts : List Part) : Prop :=
  List.Forall₂ (fun (entry : Build.Entry) (part : Part) => entry.1 = part.key ∧
    entry.2.functionName? = part.functionName?) entries parts

end Part

/-- Boxes with a text of their own. -/
def Scene.customBoxes (scene : Scene) : List String :=
  (scene.boxes.filter fun box => box.text.isSome).map ValidationBox.name

def Scene.functions (scene : Scene) : List SceneFunction :=
  [.setup, .text] ++ scene.customBoxes.map SceneFunction.box

/-- The parts of a scene. -/
def Scene.parts (scene : Scene) : List Part :=
  scene.functions.map (Part.scene scene.name) ++
    scene.trees.map fun tree => .tree scene.name tree.name

/-- The parts of a question. -/
def Question.parts (question : Question) : List Part :=
  [.questionSetup, .stateInit] ++ question.scenes.flatMap Scene.parts ++
    [.forbiddenNames]

namespace Build

open Logged (Accepts)
open SceneQuiz.Part (Compiles)

variable {ctx : BuildContext} {question : Question}

theorem accepts_text (key name : String) (template : Template)
    (inputs : List String) (path : Locator) :
    Accepts (text ctx key name template inputs path) fun entries =>
      ∃ artifact, entries = [(key, artifact)] ∧
        artifact.functionName? = some name := by
  unfold text
  split
  · next compiled _ => exact .of_pure ⟨_, rfl, rfl⟩
  · next log hcompile =>
      exact (Logged.accepts_absorb _ _).bind fun _ => .of_pure fun hnone =>
        absurd hnone (Template.hasErrors_of_compile hcompile)

theorem accepts_setup (key name source : String) (inputs : List String)
    (path : Locator) :
    Accepts (setup key name source inputs path) fun result =>
      ∃ artifact, result.1 = [(key, artifact)] ∧
        artifact.functionName? = some name := by
  refine (Logged.accepts_fragment? source path).bind fun fragment => ?_
  cases fragment with
  | none => exact .of_pure fun hsome => absurd hsome (by simp)
  | some fragment => exact .of_pure fun _ => ⟨_, rfl, rfl⟩

theorem accepts_boxes (scene : String) (path : Locator) (index : Nat)
    (items : List ValidationBox) :
    Accepts (boxes ctx scene path index items) fun entries =>
      Compiles entries ((((items.filter fun box => box.text.isSome).map
        ValidationBox.name).map SceneFunction.box).map (Part.scene scene)) := by
  induction items generalizing index with
  | nil => exact .of_pure .nil
  | cons box rest ih =>
      unfold boxes
      cases htext : box.text with
      | none =>
          have hskip : Accepts (pure [] : Logged (List Entry))
              fun entries => entries = [] := .of_pure rfl
          refine hskip.bind fun entries =>
            (ih (index + 1)).bind fun others => .of_pure ?_
          intro hothers hentries
          rw [hentries, List.nil_append, List.filter_cons_of_neg (by simp [htext])]
          exact hothers
      | some template =>
          dsimp only
          refine (accepts_text _ _ _ _ _).bind fun entries =>
            (ih (index + 1)).bind fun others => .of_pure ?_
          rintro hothers ⟨artifact, rfl, hname⟩
          rw [List.filter_cons_of_pos (by simp [htext])]
          exact .cons ⟨rfl, by rw [hname, String.append_assoc]; rfl⟩ hothers

theorem accepts_trees {ctx : TreeContext} (path : Locator) (index : Nat)
    (items : List ResponseTree) :
    Accepts (trees ctx path index items) fun entries =>
      Compiles entries (items.map fun tree => .tree ctx.scene tree.name) := by
  induction items generalizing index with
  | nil => exact .of_pure .nil
  | cons tree rest ih =>
      have hsome := @ResponseTree.compile_isSome tree ctx
      unfold trees
      cases hcompile : tree.compile ctx with
      | mk result log =>
          rw [hcompile] at hsome
          refine (Logged.accepts_absorb _ _).bind fun _ =>
            (ih (index + 1)).bind fun others => .of_pure ?_
          intro hothers hnone
          obtain ⟨compiled, hcompiled, hname⟩ := hsome hnone
          rw [show result = some compiled from hcompiled]
          exact .cons ⟨rfl, congrArg some hname⟩ hothers

theorem accepts_scene (layers : Layers) (index : Nat) (item : Scene) :
    Accepts (scene ctx question layers index item) fun result =>
      Compiles result.1 item.parts := by
  unfold scene
  refine (accepts_setup _ _ _ _ _).bind fun code => ?_
  obtain ⟨entries, usage⟩ := code
  refine (Logged.accepts_errors _).bind fun _ => ?_
  refine (accepts_text _ _ _ _ _).bind fun shown => ?_
  refine (accepts_boxes _ _ _ _).bind fun boxed => ?_
  dsimp only
  split
  · refine (accepts_trees _ _ _).bind fun judged => .of_pure ?_
    rintro htrees hboxes ⟨shownText, rfl, hshown⟩ - ⟨setupCode, hcode, hsetup⟩
    subst hcode
    exact .cons ⟨rfl, hsetup⟩ (.cons ⟨rfl, hshown⟩
      (List.rel_append hboxes htrees))
  · next herrors =>
      have hskip : Accepts (pure [] : Logged (List Entry)) fun _ => True :=
        .of_pure trivial
      refine hskip.bind fun judged => .of_pure ?_
      rintro - - - hnone -
      exact absurd (by simp [hnone]) herrors

theorem accepts_scenes (layers : Layers) (index : Nat) (items : List Scene) :
    Accepts (scenes ctx question layers index items) fun result =>
      Compiles result.1 (items.flatMap Scene.parts) := by
  induction items generalizing index with
  | nil => exact .of_pure .nil
  | cons item rest ih =>
      unfold scenes
      refine (accepts_scene layers index item).bind fun first => ?_
      refine (ih (index + 1)).bind fun others => .of_pure ?_
      intro hothers hfirst
      exact List.rel_append hfirst hothers

end Build

theorem Question.compile_eq_get {question : Question} {ctx : BuildContext}
    (h : (question.compile ctx).question.isSome = true) :
    question.compile ctx =
      ⟨some ((question.compile ctx).question.get h), (question.compile ctx).log⟩ := by
  rw [Option.some_get]

/-- The answer tests there are, and no templates to inline. -/
def Question.plainContext : BuildContext := ⟨.default, Registry.catalog, none⟩

end SceneQuiz
