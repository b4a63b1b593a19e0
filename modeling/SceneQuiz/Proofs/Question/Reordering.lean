import Mathlib.Data.List.Perm.Basic
import SceneQuiz.Proofs.Question.FunctionNames
import SceneQuiz.Proofs.Question.ReservedNames
/-!
The order of the scenes of a question, and of the trees and boxes of a scene, says
nothing.  The rules ask about all scenes at once or about each one by itself; what
a scene contributes does not depend on its place; and artifacts are kept by their
keys.
-/

namespace SceneQuiz

/-- Scenes that differ in the order of their trees and boxes at most. -/
structure Scene.Reordered (scene other : Scene) : Prop where
  name : scene.name = other.name
  setup : scene.setup = other.setup
  text : scene.text = other.text
  inputs : scene.inputs = other.inputs
  trees : scene.trees.Perm other.trees
  boxes : scene.boxes.Perm other.boxes

/-- Questions that differ in the order of their scenes, and of the trees and boxes
of these, at most. -/
structure Question.Reordered (question other : Question) : Prop where
  name : question.name = other.name
  setup : question.setup = other.setup
  stateVariables : question.stateVariables = other.stateVariables
  entryScene : question.entryScene = other.entryScene
  scenes : ∃ middle, List.Forall₂ Scene.Reordered question.scenes middle ∧
    middle.Perm other.scenes

theorem exists_of_forall₂ {α : Type} {R : α → α → Prop} {items others : List α}
    (h : List.Forall₂ R items others) {other : α} (hother : other ∈ others) :
    ∃ item ∈ items, R item other := by
  induction h with
  | nil => cases hother
  | cons hhead _ ih =>
      rcases List.mem_cons.mp hother with rfl | hrest
      · exact ⟨_, List.mem_cons_self, hhead⟩
      · obtain ⟨item, hitem, hrelated⟩ := ih hrest
        exact ⟨item, List.mem_cons_of_mem _ hitem, hrelated⟩

theorem Distinct.perm {names others : List String} (h : Distinct names)
    (hperm : names.Perm others) : Distinct others :=
  ⟨fun name hname => h.1 name (hperm.mem_iff.mpr hname), hperm.nodup_iff.mp h.2⟩

/-- Entries with keys of their own make the same map in any order. -/
theorem NameMap.ofList_perm {α : Type} {entries others : List (String × α)}
    (hperm : entries.Perm others) (hnodup : (entries.map Prod.fst).Nodup) :
    NameMap.ofList entries = NameMap.ofList others := by
  have hothers : (others.map Prod.fst).Nodup := (hperm.map Prod.fst).nodup_iff.mp hnodup
  apply NameMap.eq_of_get?
  intro name
  rw [NameMap.get?_ofList hnodup, NameMap.get?_ofList hothers]
  apply Option.ext
  intro value
  rw [NameMap.lookup_eq_some_iff hnodup, NameMap.lookup_eq_some_iff hothers]
  exact hperm.mem_iff

namespace Scene.Reordered

variable {scene other : Scene}

theorem symm (h : scene.Reordered other) : other.Reordered scene :=
  ⟨h.name.symm, h.setup.symm, h.text.symm, h.inputs.symm, h.trees.symm, h.boxes.symm⟩

theorem inputNames (h : scene.Reordered other) : scene.inputNames = other.inputNames :=
  congrArg (List.map Input.name) h.inputs

theorem written (h : scene.Reordered other) : scene.written = other.written :=
  congrArg (fun setup => (Fragment.usageOf setup).write.owned) h.setup

theorem wellFormed (h : scene.Reordered other) (hscene : scene.WellFormed) :
    other.WellFormed where
  inputs := h.inputNames ▸ hscene.inputs
  trees := hscene.trees.perm (h.trees.map _)
  boxes := hscene.boxes.perm (h.boxes.map _)
  nodes tree htree := hscene.nodes tree (h.trees.mem_iff.mpr htree)
  boxContents box hbox := h.inputNames ▸ hscene.boxContents box (h.boxes.mem_iff.mpr hbox)

theorem keeps (h : scene.Reordered other) {layers : Layers} {written : NameSet}
    (hkeeps : layers.Keeps scene written) : layers.Keeps other written where
  inputs := h.inputNames ▸ hkeeps.inputs
  writes := h.inputNames ▸ hkeeps.writes
  trees tree htree := h.inputNames ▸ hkeeps.trees tree (h.trees.mem_iff.mpr htree)

end Scene.Reordered

namespace Question.Reordered

variable {question other : Question} {ctx : BuildContext}

theorem symm (h : question.Reordered other) : other.Reordered question := by
  obtain ⟨middle, hscenes, hperm⟩ := h.scenes
  have hback : List.Forall₂ Scene.Reordered middle question.scenes :=
    (hscenes.flip).imp fun _ _ hscene => hscene.symm
  obtain ⟨others, hothers, hagain⟩ := List.perm_comp_forall₂ hperm.symm hback
  exact ⟨h.name.symm, h.setup.symm, h.stateVariables.symm, h.entryScene.symm, others, hothers,
    hagain⟩

/-- Every scene is there before. -/
theorem exists_scene (h : question.Reordered other) {scene : Scene} (hscene : scene ∈ other.scenes) :
    ∃ before ∈ question.scenes, before.Reordered scene := by
  obtain ⟨middle, hscenes, hperm⟩ := h.scenes
  exact exists_of_forall₂ hscenes (hperm.mem_iff.mpr hscene)

theorem sceneNames (h : question.Reordered other) :
    question.sceneNames.Perm other.sceneNames := by
  obtain ⟨middle, hscenes, hperm⟩ := h.scenes
  have hnames : List.Forall₂ (· = ·) (question.scenes.map Scene.name)
      (middle.map Scene.name) := by
    rw [List.forall₂_map_left_iff, List.forall₂_map_right_iff]
    exact hscenes.imp fun _ _ hscene => hscene.name
  rw [List.forall₂_eq_eq_eq] at hnames
  exact (List.Perm.of_eq hnames).trans (hperm.map _)

theorem layers (h : question.Reordered other) : question.layers = other.layers := by
  unfold Question.layers Layers.ofQuestion stateNames
  rw [h.setup, h.stateVariables]

theorem wellFormed (h : question.Reordered other) (hquestion : question.WellFormed) :
    other.WellFormed where
  stateNames := h.stateVariables ▸ hquestion.stateNames
  storage := h.stateVariables ▸ hquestion.storage
  sceneNames := hquestion.sceneNames.perm h.sceneNames
  entry := by
    obtain ⟨hscenes, hentry⟩ := hquestion.entry
    refine ⟨fun hnone => hscenes ?_, fun name hname => ?_⟩
    · have hnames := h.sceneNames
      rw [Question.sceneNames, Question.sceneNames, hnone] at hnames
      exact List.map_eq_nil_iff.mp hnames.eq_nil
    · exact h.sceneNames.mem_iff.mp (hentry name (h.entryScene ▸ hname))
  scenes scene hscene := by
    obtain ⟨before, hbefore, hsame⟩ := h.exists_scene hscene
    exact hsame.wellFormed (hquestion.scenes before hbefore)

theorem forbidden (h : question.Reordered other) : question.forbidden = other.forbidden := by
  have hscenes : ∀ {one two : Question}, one.Reordered two → ∀ {name : String},
      (∃ scene ∈ two.scenes, name ∈ scene.written) → ∃ scene ∈ one.scenes, name ∈ scene.written := by
    rintro one two hreordered name ⟨scene, hscene, hname⟩
    obtain ⟨before, hbefore, hsame⟩ := hreordered.exists_scene hscene
    rw [← hsame.written] at hname
    exact ⟨before, hbefore, hname⟩
  apply NameSet.eq_of_mem_iff
  intro name
  rw [mem_forbidden, mem_forbidden, written, written, stateNames, stateNames, h.setup,
    h.stateVariables]
  exact or_congr_right (or_congr_right ⟨hscenes h.symm, hscenes h⟩)

/-- Of the other scenes, a tree sees only which there are. -/
theorem treeVerdict (h : question.Reordered other) {scene changed : Scene}
    (hscene : scene.Reordered changed) :
    Build.treeVerdict (Build.treeContext ctx other changed) =
      Build.treeVerdict (Build.treeContext ctx question scene) := by
  have hcontext : Build.treeContext ctx other changed =
      { Build.treeContext ctx question scene with sceneNames := other.sceneNames } := by
    unfold Build.treeContext
    rw [h.stateVariables, hscene.name, hscene.inputNames]
  funext tree
  have hcompile : tree.compile
      { Build.treeContext ctx question scene with sceneNames := other.sceneNames } =
        tree.compile (Build.treeContext ctx question scene) :=
    tree.compile_sceneNames fun _ => h.sceneNames.mem_iff.symm
  rw [hcontext]
  unfold Build.treeVerdict
  rw [hcompile]

theorem sceneVerdict (h : question.Reordered other) {scene changed : Scene}
    (hscene : scene.Reordered changed) :
    (Build.sceneVerdict ctx question scene).Alike (Build.sceneVerdict ctx other changed) := by
  have hsetup : Build.sceneSetup scene = Build.sceneSetup changed := by
    unfold Build.sceneSetup
    rw [hscene.name, hscene.setup, hscene.inputNames]
  have horderly : (question.layers.sceneErrors 0 scene (Fragment.usageOf scene.setup)).isEmpty =
      (other.layers.sceneErrors 0 changed (Fragment.usageOf changed.setup)).isEmpty := by
    rw [Bool.eq_iff_iff, List.isEmpty_iff, List.isEmpty_iff, Layers.sceneErrors_eq_nil_iff,
      Layers.sceneErrors_eq_nil_iff, ← h.layers, ← hscene.setup]
    exact ⟨hscene.keeps, hscene.symm.keeps⟩
  have hboxed := Verdict.Alike.of_perm hscene.boxes (Build.boxVerdict ctx scene.name)
  have hjudged := Verdict.Alike.of_perm hscene.trees
    (Build.treeVerdict (Build.treeContext ctx question scene))
  unfold Build.sceneVerdict
  dsimp only
  rw [h.treeVerdict hscene, ← hsetup, ← horderly, ← hscene.name, ← hscene.text, ← hscene.inputNames]
  refine .andThen rfl (.andThen (congrArg Bool.not horderly) (.andThen rfl
    (.andThen hboxed.isFaulty ?_)))
  split
  · exact ⟨(hboxed.value.append_left _).append hjudged.value, hjudged.isFaulty⟩
  · dsimp only [Verdict.map]
    exact ⟨(hboxed.value.append_left _).append (.refl _), rfl⟩

theorem verdict (h : question.Reordered other) :
    (question.verdict ctx).Alike (other.verdict ctx) := by
  obtain ⟨middle, hscenes, hperm⟩ := h.scenes
  have hparts : (Verdict.flatMap question.scenes (Build.sceneVerdict ctx question)).Alike
      (Verdict.flatMap other.scenes (Build.sceneVerdict ctx other)) :=
    (Verdict.Alike.of_forall₂ hscenes fun _ _ hscene => h.sceneVerdict hscene).trans
      (.of_perm hperm _)
  have hstructure : question.structureErrors.isEmpty = other.structureErrors.isEmpty := by
    rw [Bool.eq_iff_iff, List.isEmpty_iff, List.isEmpty_iff, structureErrors_eq_nil_iff,
      structureErrors_eq_nil_iff]
    exact ⟨h.wellFormed, h.symm.wellFormed⟩
  have hlayers : question.layerErrors = other.layerErrors := by
    unfold layerErrors Layers.questionErrors stateNames
    rw [h.setup, h.stateVariables]
  unfold Question.verdict
  dsimp only
  rw [h.forbidden, h.setup, h.stateVariables, hlayers]
  refine .andThen (congrArg Bool.not hstructure) (.andThen rfl (.andThen rfl (.andThen rfl ?_)))
  exact ⟨(hparts.value.append_left _).append_right _, hparts.isFaulty⟩

end Question.Reordered

namespace Question

/-- Questions that differ in order at most are accepted alike, and compiled to the
same artifacts. -/
theorem compile_reordered {question other : Question} (h : question.Reordered other)
    (ctx : BuildContext) :
    (question.compile ctx).success = (other.compile ctx).success ∧
      ∀ compiled another, (question.compile ctx).question = some compiled →
        (other.compile ctx).question = some another →
          compiled.artifacts = another.artifacts ∧ compiled.contentHash = another.contentHash := by
  have halike : (question.verdict ctx).Alike (other.verdict ctx) := h.verdict
  unfold CompileResult.success
  rw [compile_question, compile_question, ← halike.isFaulty]
  cases hfaulty : (question.verdict ctx).isFaulty with
  | true => exact ⟨rfl, fun _ _ hnone => absurd hnone (by simp)⟩
  | false =>
      have hnamed := (of_verdict hfaulty).1.wellNamed
      have hnodup : ((question.verdict ctx).value.map Prod.fst).Nodup := by
        rw [(compiles_verdict hfaulty).keys]
        exact hnamed.nodup_keys
      have hsame : question.artifacts ctx = other.artifacts ctx :=
        NameMap.ofList_perm halike.value hnodup
      refine ⟨rfl, fun compiled another hcompiled hanother => ?_⟩
      cases hcompiled
      cases hanother
      dsimp only
      exact ⟨hsame, congrArg Artifacts.hash hsame⟩

/-- A scene `s` with an input, code, and trees that leave for a scene `t`. -/
def leavingScene (trees boxes : List String) : Scene where
  name := "s"
  setup := "x: 1"
  text := .empty
  inputs := [⟨"ans1", .algebraic, "1"⟩]
  trees := trees.map fun name =>
    ⟨name, 1.0, .best, "", "n", [⟨"n", "AlgEquiv", "ans1", "x", "", true,
      { ResponseTree.Branch.plain with exit := .scene "t" }, .plain⟩]⟩
  boxes := boxes.map fun name => ⟨name, .custom, ["ans1"], some .empty⟩

/-- A question with the scene and the one it leaves for, in some order. -/
def leavingQuestion (scenes : List Scene) : Question where
  name := "q"
  setup := ""
  stateVariables := []
  scenes := scenes
  entryScene := none

/-- The scene `t`. -/
def lastScene : Scene := ⟨"t", "", .empty, [], [], []⟩

/-- The question from front to back, and from back to front. -/
def forwardQuestion : Question := leavingQuestion [leavingScene ["p", "r"] ["u", "v"], lastScene]

def backwardQuestion : Question := leavingQuestion [lastScene, leavingScene ["r", "p"] ["v", "u"]]

theorem forwardQuestion_accepted :
    (forwardQuestion.compile plainContext).question.isSome = true := by
  decide +kernel

theorem forwardQuestion_compile_reordered :
    forwardQuestion.Reordered backwardQuestion ∧
    ∃ compiled another log otherLog,
      forwardQuestion.compile plainContext = ⟨some compiled, log⟩ ∧
      backwardQuestion.compile plainContext = ⟨some another, otherLog⟩ ∧
      compiled.artifacts = another.artifacts ∧ compiled.contentHash = another.contentHash := by
  have hleaving : (leavingScene ["p", "r"] ["u", "v"]).Reordered
      (leavingScene ["r", "p"] ["v", "u"]) :=
    ⟨rfl, rfl, rfl, rfl, .swap _ _ _, .swap _ _ _⟩
  have hlast : lastScene.Reordered lastScene := ⟨rfl, rfl, rfl, rfl, .refl _, .refl _⟩
  have hreordered : forwardQuestion.Reordered backwardQuestion :=
    ⟨rfl, rfl, rfl, rfl, _, .cons hleaving (.cons hlast .nil), .swap _ _ _⟩
  obtain ⟨hsuccess, hsame⟩ := compile_reordered hreordered plainContext
  have hforward := compile_eq_get forwardQuestion_accepted
  have hbackward := compile_eq_get (hsuccess.symm.trans forwardQuestion_accepted)
  exact ⟨hreordered, _, _, _, _, hforward, hbackward, hsame _ _
    (congrArg CompileResult.question hforward) (congrArg CompileResult.question hbackward)⟩

end Question

end SceneQuiz
