import Mathlib.Data.List.Nodup
import SceneQuiz.Proofs.ResponseTree.PlanProperty
import SceneQuiz.Question.Layer
import SceneQuiz.Question.Structure
/-!
Questions whose structure is in order and whose scenes keep to the layers of code.  The
checks go through the collections of a question from front to back and report where a
fault is; whether they report any does not depend on the order.  Neither the place of
a scene nor the order of its trees matters for whether a rule of the layers is broken.
-/

namespace SceneQuiz

/-- Identifiers that differ from each other. -/
def Distinct (names : List String) : Prop :=
  (∀ name ∈ names, isIdentifier name = true) ∧ names.Nodup

/-- Items that differ from each other and from those seen before. -/
def Fresh {α : Type} (seen items : List α) : Prop := (∀ item ∈ items, item ∉ seen) ∧ items.Nodup

section Fresh

variable {α : Type} {seen rest : List α}

theorem fresh_nil : Fresh seen [] := ⟨List.forall_mem_nil _, List.nodup_nil⟩

theorem fresh_cons {item : α} :
    Fresh seen (item :: rest) ↔ item ∉ seen ∧ Fresh (item :: seen) rest := by
  rw [Fresh, Fresh, List.forall_mem_cons, List.nodup_cons]
  constructor
  · rintro ⟨⟨hitem, hrest⟩, hmem, hnodup⟩
    refine ⟨hitem, fun other hother => ?_, hnodup⟩
    rw [List.mem_cons, not_or]
    exact ⟨fun heq => hmem (heq ▸ hother), hrest other hother⟩
  · rintro ⟨hitem, hrest, hnodup⟩
    exact ⟨⟨hitem, fun other hother => List.not_mem_of_not_mem_cons (hrest other hother)⟩,
      fun hmem => hrest item hmem List.mem_cons_self, hnodup⟩

theorem fresh_none : Fresh [] rest ↔ rest.Nodup :=
  and_iff_right fun _ _ => List.not_mem_nil

end Fresh

/-- Reports on the items of a list are empty if every item is fine. -/
theorem flatten_mapIdx_eq_nil_iff {α β : Type} {report : Nat → α → List β} {good : α → Prop}
    (hreport : ∀ i item, report i item = [] ↔ good item) {items : List α} :
    (items.mapIdx report).flatten = [] ↔ ∀ item ∈ items, good item := by
  rw [List.flatten_eq_nil_iff]
  constructor
  · intro h item hitem
    obtain ⟨i, hi, rfl⟩ := List.mem_iff_getElem.mp hitem
    exact (hreport i _).mp (h _ (List.mem_mapIdx.mpr ⟨i, hi, rfl⟩))
  · intro h reports hreports
    obtain ⟨i, hi, rfl⟩ := List.mem_mapIdx.mp hreports
    exact (hreport i _).mpr (h _ (List.getElem_mem hi))

/-- A scene whose structure is in order. -/
structure Scene.WellFormed (scene : Scene) : Prop where
  inputs : Distinct scene.inputNames
  trees : Distinct (scene.trees.map ResponseTree.name)
  boxes : Distinct (scene.boxes.map ValidationBox.name)
  nodes : ∀ tree ∈ scene.trees, tree.nodes.length ≤ nodeLimit ∧
    Distinct (tree.nodes.map ResponseTree.Node.name)
  boxContents : ∀ box ∈ scene.boxes, (∀ input ∈ box.inputs, input ∈ scene.inputNames) ∧
    (box.kind = .custom → box.text ≠ none)

/-- A question whose structure is in order. -/
structure Question.WellFormed (question : Question) : Prop where
  stateNames : Distinct (question.stateVariables.map StateVariable.name)
  storage : (question.stateVariables.map StateVariable.storage).Nodup
  sceneNames : Distinct question.sceneNames
  entry : question.scenes ≠ [] ∧ ∀ name ∈ question.entryScene, name ∈ question.sceneNames
  scenes : ∀ scene ∈ question.scenes, scene.WellFormed

namespace Structure

theorem nameFault?_eq_none_iff {what : String} {seen : List String} {name : String} :
    nameFault? what seen name = none ↔ isIdentifier name = true ∧ name ∉ seen := by
  unfold nameFault?
  by_cases hempty : name = ""
  · subst hempty
    simp [isIdentifier]
  · by_cases hident : isIdentifier name = true <;> by_cases hseen : name ∈ seen <;>
      simp [hempty, hident, hseen]

theorem namesFrom_eq_nil_iff {what : String} {place : Nat → Segment} {path : Locator}
    {index : Nat} {seen names : List String} :
    namesFrom what place path index seen names = [] ↔
      (∀ name ∈ names, isIdentifier name = true) ∧ Fresh seen names := by
  induction names generalizing index seen with
  | nil => simp [namesFrom, fresh_nil]
  | cons name rest ih =>
      unfold namesFrom
      rw [List.append_eq_nil_iff, Option.toList_eq_nil_iff, Option.map_eq_none_iff,
        nameFault?_eq_none_iff, ih, List.forall_mem_cons, fresh_cons, and_and_and_comm]

theorem names_eq_nil_iff {what : String} {place : Nat → Segment} {path : Locator}
    {items : List String} : names what place path items = [] ↔ Distinct items := by
  rw [names, namesFrom_eq_nil_iff, fresh_none, Distinct]

theorem storageFrom_eq_nil_iff {index : Nat} {seen numbers : List Nat} :
    storageFrom index seen numbers = [] ↔ Fresh seen numbers := by
  induction numbers generalizing index seen with
  | nil => simp [storageFrom, fresh_nil]
  | cons storage rest ih =>
      unfold storageFrom
      rw [List.append_eq_nil_iff, ih, fresh_cons]
      apply and_congr_left
      intro _
      split <;> simp_all

theorem scene?_eq_none_iff {question : Question} {name : String} :
    question.scene? name = none ↔ name ∉ question.sceneNames := by
  simp [Question.scene?, Question.sceneNames]

theorem entry_eq_nil_iff {question : Question} :
    entry question = [] ↔
      question.scenes ≠ [] ∧ ∀ name ∈ question.entryScene, name ∈ question.sceneNames := by
  unfold entry
  by_cases hscenes : question.scenes = []
  · simp [hscenes]
  · cases hentry : question.entryScene with
    | none => simp [hscenes]
    | some name =>
        by_cases hmem : name ∈ question.sceneNames
        · simp [hscenes, hmem, scene?_eq_none_iff]
        · simp [hscenes, hmem, scene?_eq_none_iff]

theorem tree_eq_nil_iff (item : ResponseTree) (path : Locator) :
    tree item path = [] ↔ item.nodes.length ≤ nodeLimit ∧
      Distinct (item.nodes.map ResponseTree.Node.name) := by
  unfold tree
  rw [List.append_eq_nil_iff, names_eq_nil_iff]
  apply and_congr_left
  intro _
  split
  · next hlarge => simpa using hlarge
  · next hsmall => simpa using hsmall

theorem box_eq_nil_iff (item : Scene) (found : ValidationBox) (path : Locator) :
    box item found path = [] ↔ (∀ input ∈ found.inputs, input ∈ item.inputNames) ∧
      (found.kind = .custom → found.text ≠ none) := by
  have hinput : ∀ input, (item.input? input).isNone = false ↔ input ∈ item.inputNames := by
    simp [Scene.input?, Scene.inputNames]
  unfold box
  rw [List.append_eq_nil_iff, List.map_eq_nil_iff, List.filter_eq_nil_iff]
  simp only [Bool.not_eq_true, hinput]
  apply and_congr_right
  intro _
  by_cases hcustom : found.kind = .custom <;> cases found.text <;> simp [hcustom]

theorem scene_eq_nil_iff (item : Scene) (path : Locator) :
    scene item path = [] ↔ item.WellFormed := by
  unfold scene
  rw [List.append_eq_nil_iff, List.append_eq_nil_iff, List.append_eq_nil_iff,
    List.append_eq_nil_iff, names_eq_nil_iff, names_eq_nil_iff, names_eq_nil_iff,
    flatten_mapIdx_eq_nil_iff fun _ tree => tree_eq_nil_iff tree _,
    flatten_mapIdx_eq_nil_iff fun _ box => box_eq_nil_iff item box _]
  constructor
  · rintro ⟨⟨⟨⟨hinputs, htrees⟩, hboxes⟩, hnodes⟩, hcontents⟩
    exact ⟨hinputs, htrees, hboxes, hnodes, hcontents⟩
  · exact fun h => ⟨⟨⟨⟨h.inputs, h.trees⟩, h.boxes⟩, h.nodes⟩, h.boxContents⟩

end Structure

/-- No fault of the structure is reported exactly if it is in order. -/
theorem Question.structureErrors_eq_nil_iff {question : Question} :
    question.structureErrors = [] ↔ question.WellFormed := by
  unfold structureErrors
  rw [List.append_eq_nil_iff, List.append_eq_nil_iff, List.append_eq_nil_iff,
    List.append_eq_nil_iff, Structure.names_eq_nil_iff, Structure.names_eq_nil_iff,
    Structure.storageFrom_eq_nil_iff, fresh_none, Structure.entry_eq_nil_iff,
    flatten_mapIdx_eq_nil_iff fun _ scene => Structure.scene_eq_nil_iff scene _]
  constructor
  · rintro ⟨⟨⟨⟨hstate, hstorage⟩, hnames⟩, hentry⟩, hscenes⟩
    exact ⟨hstate, hstorage, hnames, hentry, hscenes⟩
  · exact fun h => ⟨⟨⟨⟨h.stateNames, h.storage⟩, h.sceneNames⟩, h.entry⟩, h.scenes⟩

namespace Layers

/-- A scene whose variables write some names keeps to the layers: its inputs have
names of their own, and its code writes neither what an earlier layer defines nor
an input. -/
structure Keeps (layers : Layers) (scene : Scene) (written : NameSet) : Prop where
  inputs : ∀ input ∈ scene.inputNames,
    input ∉ reservedNames ∧ input ∉ layers.stateNames ∧ input ∉ layers.questionNames
  writes : ∀ name ∈ written,
    name ∉ layers.questionNames ∧ name ∉ layers.stateNames ∧ name ∉ scene.inputNames
  trees : ∀ tree ∈ scene.trees, ∀ source ∈ tree.fragments, ∀ code,
    Fragment.parse source = .ok code →
      ∀ name ∈ (Fragment.usage code).write, name ∉ scene.inputNames

variable {layers : Layers}

theorem each_eq_nil_iff {fault : String → LayerFault} {names : NameSet} {path : Locator} :
    each fault names path = [] ↔ ∀ name, name ∉ names := by
  unfold each
  rw [List.map_eq_nil_iff, List.eq_nil_iff_forall_not_mem]
  exact forall_congr' fun name => not_congr NameSet.mem_names

theorem inputNameErrors_eq_nil_iff {scene : Scene} {path : Locator} :
    layers.inputNameErrors scene path = [] ↔
      ∀ input ∈ scene.inputNames, input ∉ reservedNames ∧ input ∉ layers.stateNames := by
  apply flatten_mapIdx_eq_nil_iff
  intro i name
  rw [← not_or]
  split <;> simp_all

theorem writeFault?_eq_none_iff {inputs : NameSet} {name : String} :
    layers.writeFault? inputs name = none ↔
      name ∉ layers.questionNames ∧ name ∉ layers.stateNames ∧ name ∉ inputs := by
  unfold writeFault?
  split
  · next hdefined => simp [← not_or, ← or_assoc, hdefined]
  · next hfree => split <;> simp_all

theorem inputWrites_eq_nil_iff (layer : Layer) (source : String) (inputs : NameSet)
    (path : Locator) :
    inputWrites layer source inputs path = [] ↔ ∀ code, Fragment.parse source = .ok code →
      ∀ name ∈ (Fragment.usage code).write, name ∉ inputs := by
  unfold inputWrites
  cases Fragment.parse source with
  | ok code => simp [each_eq_nil_iff, NameSet.mem_inter]
  | error issues => simp

theorem treeErrors_eq_nil_iff (tree : ResponseTree) (inputs : NameSet) (path : Locator) :
    treeErrors tree inputs path = [] ↔ ∀ source ∈ tree.fragments, ∀ code,
      Fragment.parse source = .ok code →
        ∀ name ∈ (Fragment.usage code).write, name ∉ inputs := by
  unfold treeErrors ResponseTree.fragments
  rw [List.append_eq_nil_iff, inputWrites_eq_nil_iff, List.forall_mem_cons,
    List.forall_mem_flatMap]
  apply and_congr_right
  intro _
  apply flatten_mapIdx_eq_nil_iff
  intro i node
  simp only [List.flatMap_eq_nil_iff, inputWrites_eq_nil_iff, List.forall_mem_map]

/-- A scene breaks no rule exactly if it keeps to the layers. -/
theorem sceneErrors_eq_nil_iff {index : Nat} {scene : Scene} {setup : Usage} :
    layers.sceneErrors index scene setup = [] ↔ layers.Keeps scene setup.write.owned := by
  unfold sceneErrors
  dsimp only
  rw [List.append_eq_nil_iff, List.append_eq_nil_iff, List.append_eq_nil_iff,
    inputNameErrors_eq_nil_iff, each_eq_nil_iff, List.filterMap_eq_nil_iff,
    flatten_mapIdx_eq_nil_iff fun _ tree => treeErrors_eq_nil_iff tree _ _]
  simp only [Option.map_eq_none_iff, writeFault?_eq_none_iff, NameSet.mem_inter,
    NameSet.mem_ofList, NameSet.mem_names]
  constructor
  · rintro ⟨⟨⟨hinputs, hquestion⟩, hwrites⟩, htrees⟩
    refine ⟨fun input hinput => ?_, hwrites, htrees⟩
    exact ⟨(hinputs input hinput).1, (hinputs input hinput).2,
      fun hwritten => hquestion input ⟨hwritten, hinput⟩⟩
  · intro h
    refine ⟨⟨⟨fun input hinput => ?_, fun name hname => ?_⟩, h.writes⟩, h.trees⟩
    · exact ⟨(h.inputs input hinput).1, (h.inputs input hinput).2.1⟩
    · exact (h.inputs name hname.2).2.2 hname.1

end Layers

end SceneQuiz
