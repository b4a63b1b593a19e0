import SceneQuiz.Proofs.Diagnostic.LocatorText
import SceneQuiz.Proofs.Question.Accepted
import SceneQuiz.Proofs.ResponseTree.Compilation
/-!
Where the diagnostics of a question point.  Every check and every part of the
compilation reports at places of the question: at one of its items that exists, and
there at a field that such an item has.  The locators of places are plain, so they can
be handed on as texts, and their indices fit if no collection of the question has
more items than an index can tell apart.
-/

namespace SceneQuiz

open Logged (StaysWithin)

/-- What a diagnostic about a scene can point at. -/
inductive Scene.Place (scene : Scene) : Locator → Prop
  | part {field : String} : field ∈ ["name", "scene_variables", "text"] →
      Place scene [.field field]
  | input {index : Nat} : index < scene.inputs.length →
      Place scene [.input index, .field "name"]
  | box {index : Nat} {field : String} : index < scene.boxes.length →
      field ∈ ["name", "inputs", "text"] → Place scene [.validationBox index, .field field]
  | tree {index : Nat} {tree : ResponseTree} {path : Locator} :
      scene.trees[index]? = some tree → tree.Place path → Place scene (.tree index :: path)

/-- What a diagnostic about a question can point at. -/
inductive Question.Place (question : Question) : Locator → Prop
  | part {field : String} : field ∈ ["question_variables", "scenes", "entry_scene"] →
      Place question [.field field]
  | stateVariable {index : Nat} {field : String} : index < question.stateVariables.length →
      field ∈ ["name", "storage", "initial_value"] →
      Place question [.stateVariable index, .field field]
  | scene {index : Nat} {scene : Scene} {path : Locator} :
      question.scenes[index]? = some scene → scene.Place path →
      Place question (.scene index :: path)

/-- Reports on the items of a list, one item after the other. -/
theorem forall_mem_flatten_mapIdx {α β : Type} {report : Nat → α → List β} {good : β → Prop}
    {items : List α}
    (h : ∀ i item, items[i]? = some item → ∀ found ∈ report i item, good found) :
    ∀ found ∈ (items.mapIdx report).flatten, good found := by
  intro found hfound
  obtain ⟨reports, hreports, hmem⟩ := List.mem_flatten.mp hfound
  obtain ⟨i, hi, rfl⟩ := List.mem_mapIdx.mp hreports
  exact h i _ (List.getElem?_eq_getElem hi) found hmem

theorem lt_length_of_mem_zipIdx {α : Type} {items : List α} {entry : α × Nat}
    (h : entry ∈ items.zipIdx) : entry.2 < items.length :=
  Nat.lt_of_lt_of_eq (List.snd_lt_of_mem_zipIdx h) (Nat.add_zero items.length)

theorem StructureFault.path_diagnostic (fault : StructureFault) (path : Locator) :
    (fault.diagnostic path).path = path := Diagnostic.path_error _ _ path

theorem LayerFault.path_diagnostic (fault : LayerFault) (path : Locator) :
    (fault.diagnostic path).path = path := Diagnostic.path_error _ _ path

variable {P : Locator → Prop}

namespace Structure

/-- A fault that is reported under a condition. -/
theorem place_reported {path : Locator} (h : P path) (fault : StructureFault) {p : Prop}
    [Decidable p] :
    ∀ diagnostic ∈ if p then [fault.diagnostic path] else [], P diagnostic.path := by
  split
  · rwa [List.forall_mem_singleton, StructureFault.path_diagnostic]
  · exact List.forall_mem_nil _

theorem place_namesFrom {what : String} {place : Nat → Segment} {path : Locator} {index : Nat}
    {seen items : List String}
    (h : ∀ entry ∈ items.zipIdx index, P (path ++ [place entry.2, .field "name"])) :
    ∀ diagnostic ∈ namesFrom what place path index seen items, P diagnostic.path := by
  induction items generalizing index seen with
  | nil => exact List.forall_mem_nil _
  | cons name rest ih =>
      rw [List.zipIdx_cons, List.forall_mem_cons] at h
      rw [namesFrom, List.forall_mem_append]
      constructor
      · intro diagnostic hdiagnostic
        rw [Option.mem_toList] at hdiagnostic
        obtain ⟨fault, -, rfl⟩ := Option.map_eq_some_iff.mp hdiagnostic
        rw [StructureFault.path_diagnostic]
        exact h.1
      · exact ih h.2

theorem place_names {α : Type} {what : String} {place : Nat → Segment} {path : Locator}
    {items : List α} {name : α → String}
    (h : ∀ i < items.length, P (path ++ [place i, .field "name"])) :
    ∀ diagnostic ∈ names what place path (items.map name), P diagnostic.path := by
  apply place_namesFrom
  intro entry hentry
  have hlast := lt_length_of_mem_zipIdx hentry
  rw [List.length_map] at hlast
  exact h entry.2 hlast

theorem place_storageFrom {index : Nat} {seen numbers : List Nat}
    (h : ∀ entry ∈ numbers.zipIdx index, P [.stateVariable entry.2, .field "storage"]) :
    ∀ diagnostic ∈ storageFrom index seen numbers, P diagnostic.path := by
  induction numbers generalizing index seen with
  | nil => exact List.forall_mem_nil _
  | cons storage rest ih =>
      rw [List.zipIdx_cons, List.forall_mem_cons] at h
      rw [storageFrom, List.forall_mem_append]
      exact ⟨place_reported h.1 _, ih h.2⟩

theorem place_entry (question : Question) :
    ∀ diagnostic ∈ entry question, question.Place diagnostic.path := by
  rw [entry]
  split
  · rw [List.forall_mem_singleton, StructureFault.path_diagnostic]
    exact .part (by simp)
  · split
    · exact place_reported (.part (by simp)) _
    · exact List.forall_mem_nil _

theorem place_tree {item : ResponseTree} {path : Locator}
    (h : ∀ inner, item.Place inner → P (path ++ inner)) :
    ∀ diagnostic ∈ tree item path, P diagnostic.path := by
  rw [tree, List.forall_mem_append]
  constructor
  · exact place_reported (h _ (.part (by simp))) _
  · exact place_names fun i hi => h _ (.nodePart hi (by simp))

theorem place_box {scene : Scene} {item : ValidationBox} {path : Locator}
    (h : ∀ field ∈ ["inputs", "text"], P (path ++ [Segment.field field])) :
    ∀ diagnostic ∈ box scene item path, P diagnostic.path := by
  rw [box, List.forall_mem_append]
  constructor
  · rw [List.forall_mem_map]
    intro input _
    rw [StructureFault.path_diagnostic]
    exact h "inputs" (by simp)
  · exact place_reported (h "text" (by simp)) _

theorem place_scene {item : Scene} {path : Locator}
    (h : ∀ inner, item.Place inner → P (path ++ inner)) :
    ∀ diagnostic ∈ scene item path, P diagnostic.path := by
  rw [scene, List.forall_mem_append, List.forall_mem_append, List.forall_mem_append,
    List.forall_mem_append]
  refine ⟨⟨⟨⟨?_, ?_⟩, ?_⟩, ?_⟩, ?_⟩
  · exact place_names fun i hi => h _ (.input hi)
  · exact place_names fun i hi => h _ (.tree (List.getElem?_eq_getElem hi) (.part (by simp)))
  · exact place_names fun i hi => h _ (.box hi (by simp))
  · apply forall_mem_flatten_mapIdx
    intro i tree htree
    apply place_tree
    intro inner hinner
    rw [List.append_assoc]
    exact h _ (.tree htree hinner)
  · apply forall_mem_flatten_mapIdx
    intro i box hbox
    apply place_box
    intro field hfield
    rw [List.append_assoc]
    exact h _ (.box (List.getElem?_eq_some_iff.mp hbox).1 (List.mem_cons_of_mem "name" hfield))

end Structure

theorem Question.place_structureErrors (question : Question) :
    ∀ diagnostic ∈ question.structureErrors, question.Place diagnostic.path := by
  rw [structureErrors, List.forall_mem_append, List.forall_mem_append, List.forall_mem_append,
    List.forall_mem_append]
  refine ⟨⟨⟨⟨?_, ?_⟩, ?_⟩, Structure.place_entry question⟩, ?_⟩
  · exact Structure.place_names fun i hi => .stateVariable hi (by simp)
  · apply Structure.place_storageFrom
    intro entry hentry
    have hlast := lt_length_of_mem_zipIdx hentry
    rw [List.length_map] at hlast
    exact .stateVariable hlast (by simp)
  · exact Structure.place_names fun i hi =>
      .scene (List.getElem?_eq_getElem hi) (.part (by simp))
  · apply forall_mem_flatten_mapIdx
    intro i scene hscene
    exact Structure.place_scene fun inner hinner => .scene hscene hinner

namespace Layers

variable {layers : Layers} {path : Locator}

theorem place_each (h : P path) (fault : String → LayerFault) (names : NameSet) :
    ∀ diagnostic ∈ each fault names path, P diagnostic.path := by
  rw [each, List.forall_mem_map]
  intro name _
  rwa [LayerFault.path_diagnostic]

theorem place_inputWrites (h : P path) (layer : Layer) (source : String) (inputs : NameSet) :
    ∀ diagnostic ∈ inputWrites layer source inputs path, P diagnostic.path := by
  rw [inputWrites]
  split
  · exact place_each h _ _
  · exact List.forall_mem_nil _

theorem place_treeErrors {tree : ResponseTree}
    (h : ∀ inner, tree.Place inner → P (path ++ inner)) (inputs : NameSet) :
    ∀ diagnostic ∈ treeErrors tree inputs path, P diagnostic.path := by
  rw [treeErrors, List.forall_mem_append]
  constructor
  · exact place_inputWrites (h _ (.part (by simp))) _ _ _
  · apply forall_mem_flatten_mapIdx
    intro i node hnode
    have hi := (List.getElem?_eq_some_iff.mp hnode).1
    rw [List.forall_mem_flatMap]
    intro outcome _
    exact place_inputWrites (h _ (.branchPart outcome hi (by simp))) _ _ _

theorem place_inputNameErrors {scene : Scene}
    (h : ∀ inner, scene.Place inner → P (path ++ inner)) :
    ∀ diagnostic ∈ layers.inputNameErrors scene path, P diagnostic.path := by
  apply forall_mem_flatten_mapIdx
  intro i name hname
  have hi := (List.getElem?_eq_some_iff.mp hname).1
  rw [Scene.inputNames, List.length_map] at hi
  split
  · rw [List.forall_mem_singleton, LayerFault.path_diagnostic]
    exact h _ (.input hi)
  · exact List.forall_mem_nil _

/-- A question variable that is named like an input is reported at the variables of the
question, also while a scene is checked. -/
theorem place_sceneErrors {index : Nat} {scene : Scene}
    (h : ∀ inner, scene.Place inner → P ([Segment.scene index] ++ inner))
    (hquestion : P [.field "question_variables"]) (setup : Usage) :
    ∀ diagnostic ∈ layers.sceneErrors index scene setup, P diagnostic.path := by
  rw [sceneErrors, List.forall_mem_append, List.forall_mem_append, List.forall_mem_append]
  refine ⟨⟨⟨place_inputNameErrors h, place_each hquestion _ _⟩, ?_⟩, ?_⟩
  · intro diagnostic hdiagnostic
    obtain ⟨name, -, hfault⟩ := List.mem_filterMap.mp hdiagnostic
    obtain ⟨fault, -, rfl⟩ := Option.map_eq_some_iff.mp hfault
    rw [LayerFault.path_diagnostic]
    exact h _ (.part (by simp))
  · apply forall_mem_flatten_mapIdx
    intro i tree htree
    apply place_treeErrors
    intro inner hinner
    rw [List.append_assoc]
    exact h _ (.tree htree hinner)

theorem place_questionErrors {question : Question} {initialValues : List Usage}
    (hlength : initialValues.length = question.stateVariables.length) (setup : Usage) :
    ∀ diagnostic ∈ questionErrors question setup initialValues,
      question.Place diagnostic.path := by
  have hvariables : question.Place [.field "question_variables"] := .part (by simp)
  rw [questionErrors, List.forall_mem_append, List.forall_mem_append]
  refine ⟨⟨?_, place_each hvariables _ _⟩, place_each hvariables _ _⟩
  apply forall_mem_flatten_mapIdx
  intro i usage husage
  have hi := (List.getElem?_eq_some_iff.mp husage).1
  rw [hlength] at hi
  exact place_each (.stateVariable hi (by simp)) _ _

end Layers

namespace Build

variable {ctx : BuildContext} {path : Locator}

theorem within_setup (h : P path) (key name source : String) (inputs : List String) :
    StaysWithin P (setup key name source inputs path) := by
  apply (StaysWithin.fragment? h source).bind
  intro code
  cases code with
  | none => exact .of_pure _
  | some code => exact .of_pure _

theorem within_initialValues {index : Nat} {slots : List StateVariable}
    (h : ∀ entry ∈ slots.zipIdx index, P [.stateVariable entry.2, .field "initial_value"]) :
    StaysWithin P (initialValues index slots) := by
  induction slots generalizing index with
  | nil => exact .of_pure []
  | cons slot rest ih =>
      rw [List.zipIdx_cons, List.forall_mem_cons] at h
      rw [initialValues]
      exact (StaysWithin.expr? h.1 _).bind fun _ => (ih h.2).bind fun _ => .of_pure _

theorem length_initialValues (index : Nat) (slots : List StateVariable) (log : Log) :
    ((initialValues index slots).run log).1.length = slots.length := by
  induction slots generalizing index log with
  | nil => rfl
  | cons slot rest ih => exact congrArg (· + 1) (ih (index + 1) _)

theorem within_text (h : P path) (key name : String) (template : Template)
    (inputs : List String) : StaysWithin P (text ctx key name template inputs path) := by
  rw [text]
  split
  · exact .of_pure _
  · next log hcompile =>
      have hlog := Template.within_compile (P := fun inner => P (path ++ inner)) hcompile
        (by rwa [List.append_nil])
      exact (StaysWithin.absorb hlog).bind fun _ => .of_pure []

theorem within_boxes {index : Nat} {items : List ValidationBox}
    (h : ∀ entry ∈ items.zipIdx index, P (path ++ [Segment.validationBox entry.2, .field "text"]))
    (scene : String) : StaysWithin P (boxes ctx scene path index items) := by
  induction items generalizing index with
  | nil => exact .of_pure []
  | cons box rest ih =>
      rw [List.zipIdx_cons, List.forall_mem_cons] at h
      rw [boxes]
      cases box.text with
      | none => exact (StaysWithin.of_pure []).bind fun _ => (ih h.2).bind fun _ => .of_pure _
      | some template =>
          exact (within_text h.1 _ _ _ _).bind fun _ => (ih h.2).bind fun _ => .of_pure _

theorem within_trees {ctx : TreeContext} {index : Nat} {items : List ResponseTree}
    (h : ∀ entry ∈ items.zipIdx index, ∀ inner, entry.1.Place inner →
      P (path ++ [Segment.tree entry.2] ++ inner)) :
    StaysWithin P (trees ctx path index items) := by
  induction items generalizing index with
  | nil => exact .of_pure []
  | cons tree rest ih =>
      rw [List.zipIdx_cons, List.forall_mem_cons] at h
      rw [trees]
      have htree := (ResponseTree.within_compile tree ctx).mono h.1
      exact (StaysWithin.absorb htree).bind fun _ => (ih h.2).bind fun _ => .of_pure _

theorem within_scene {question : Question} {layers : Layers} {index : Nat} {item : Scene}
    (h : ∀ inner, item.Place inner → P ([Segment.scene index] ++ inner))
    (hquestion : P [.field "question_variables"]) :
    StaysWithin P (scene ctx question layers index item) := by
  have hboxes : ∀ entry ∈ item.boxes.zipIdx,
      P ([Segment.scene index] ++ [Segment.validationBox entry.2, .field "text"]) := by
    intro entry hentry
    exact h _ (.box (lt_length_of_mem_zipIdx hentry) (by simp))
  have htrees : ∀ entry ∈ item.trees.zipIdx, ∀ inner, entry.1.Place inner →
      P ([Segment.scene index] ++ [Segment.tree entry.2] ++ inner) := by
    intro entry hentry inner hinner
    exact h _ (.tree (List.mem_zipIdx_iff_getElem?.mp hentry) hinner)
  rw [scene]
  apply (within_setup (h _ (.part (by simp))) _ _ _ _).bind
  intro code
  apply (StaysWithin.errors (Layers.place_sceneErrors h hquestion _)).bind
  intro _
  apply (within_text (h _ (.part (by simp))) _ _ _ _).bind
  intro shown
  apply (within_boxes hboxes _).bind
  intro boxed
  split
  · exact (within_trees htrees).bind fun _ => .of_pure _
  · exact (StaysWithin.of_pure []).bind fun _ => .of_pure _

theorem within_scenes {question : Question} {layers : Layers} {index : Nat} {items : List Scene}
    (h : ∀ entry ∈ items.zipIdx index, ∀ inner, entry.1.Place inner →
      P ([Segment.scene entry.2] ++ inner)) (hquestion : P [.field "question_variables"]) :
    StaysWithin P (scenes ctx question layers index items) := by
  induction items generalizing index with
  | nil => exact .of_pure _
  | cons item rest ih =>
      rw [List.zipIdx_cons, List.forall_mem_cons] at h
      rw [scenes]
      exact (within_scene h.1 hquestion).bind fun _ => (ih h.2).bind fun _ => .of_pure _

end Build

namespace Question

variable {question : Question} {ctx : BuildContext}

theorem within_build (question : Question) (ctx : BuildContext) :
    StaysWithin question.Place (question.build ctx) := by
  have hvariables : question.Place [.field "question_variables"] := .part (by simp)
  have hslots : ∀ entry ∈ question.stateVariables.zipIdx,
      question.Place [.stateVariable entry.2, .field "initial_value"] := by
    intro entry hentry
    exact .stateVariable (lt_length_of_mem_zipIdx hentry) (by simp)
  have hscenes : ∀ entry ∈ question.scenes.zipIdx, ∀ inner, entry.1.Place inner →
      question.Place ([Segment.scene entry.2] ++ inner) := fun entry hentry inner hinner =>
    .scene (List.mem_zipIdx_iff_getElem?.mp hentry) hinner
  rw [build]
  apply (StaysWithin.errors question.place_structureErrors).bind
  intro _
  apply (Build.within_setup hvariables _ _ _ _).bind
  intro code
  apply (Build.within_initialValues hslots).bind_of
    (fun values => values.length = question.stateVariables.length)
    (Build.length_initialValues 0 _)
  intro values hvalues
  have hlength : (values.map fun entry => (entry.2.map Expr.usage).getD .empty).length =
      question.stateVariables.length := by rw [List.length_map, hvalues]
  apply (StaysWithin.errors (Layers.place_questionErrors hlength code.2)).bind
  intro _
  exact (Build.within_scenes hscenes hvariables).bind fun _ => .of_pure _

/-- What is reported about a question points at places of the question. -/
theorem within_compile (question : Question) (ctx : BuildContext) :
    (question.compile ctx).log.Within question.Place := by
  have hbuild := within_build question ctx .empty ⟨Log.filled_empty, Log.located_empty _⟩
  rw [compile]
  generalize (question.build ctx).run .empty = run at hbuild
  obtain ⟨artifacts, log⟩ := run
  dsimp only
  split <;> exact hbuild

end Question

theorem Segment.plain_of_mem {fields : List String} {field : String} (h : field ∈ fields)
    (hfields : ∀ name ∈ fields, (Segment.field name).Plain) : (Segment.field field).Plain :=
  hfields field h

/-- A scene whose items can be told apart by indices. -/
structure Scene.Addressable (scene : Scene) : Prop where
  inputs : scene.inputs.length ≤ Decimal.twoPow 64
  boxes : scene.boxes.length ≤ Decimal.twoPow 64
  trees : scene.trees.length ≤ Decimal.twoPow 64
  nodes : ∀ tree ∈ scene.trees, tree.nodes.length ≤ Decimal.twoPow 64

/-- A question whose items can be told apart by indices. -/
structure Question.Addressable (question : Question) : Prop where
  stateVariables : question.stateVariables.length ≤ Decimal.twoPow 64
  scenes : question.scenes.length ≤ Decimal.twoPow 64
  items : ∀ scene ∈ question.scenes, scene.Addressable

namespace ResponseTree.Place

variable {tree : ResponseTree} {path : Locator}

theorem plain (h : tree.Place path) : ∀ segment ∈ path, segment.Plain := by
  cases h with
  | whole | node _ => simp [Segment.Plain]
  | part hfield | nodePart _ hfield | branchPart _ _ hfield =>
      have hplain := Segment.plain_of_mem hfield (by decide +kernel)
      simpa [Segment.Plain] using hplain

theorem fits (h : tree.Place path) (hnodes : tree.nodes.length ≤ Decimal.twoPow 64) :
    ∀ segment ∈ path, segment.Fits := by
  cases h with
  | whole | part _ => simp [Segment.Fits, Segment.indexed?]
  | node hindex | nodePart hindex _ | branchPart _ hindex _ =>
      have hfits := Nat.lt_of_lt_of_le hindex hnodes
      simp [Segment.Fits, Segment.indexed?, hfits]

end ResponseTree.Place

namespace Scene.Place

variable {scene : Scene} {path : Locator}

theorem plain (h : scene.Place path) : ∀ segment ∈ path, segment.Plain := by
  cases h with
  | input _ => simp [Segment.Plain]
  | part hfield | box _ hfield =>
      have hplain := Segment.plain_of_mem hfield (by decide +kernel)
      simpa [Segment.Plain] using hplain
  | tree _ hplace => exact List.forall_mem_cons.mpr ⟨trivial, hplace.plain⟩

theorem fits (h : scene.Place path) (hscene : scene.Addressable) :
    ∀ segment ∈ path, segment.Fits := by
  cases h with
  | part _ => simp [Segment.Fits, Segment.indexed?]
  | input hindex =>
      have hfits := Nat.lt_of_lt_of_le hindex hscene.inputs
      simp [Segment.Fits, Segment.indexed?, hfits]
  | box hindex _ =>
      have hfits := Nat.lt_of_lt_of_le hindex hscene.boxes
      simp [Segment.Fits, Segment.indexed?, hfits]
  | tree hitem hplace =>
      obtain ⟨hindex, rfl⟩ := List.getElem?_eq_some_iff.mp hitem
      have hfits := Nat.lt_of_lt_of_le hindex hscene.trees
      have hinner := hplace.fits (hscene.nodes _ (List.getElem_mem hindex))
      simpa [Segment.Fits, Segment.indexed?, hfits] using hinner

end Scene.Place

namespace Question

variable {question : Question} {path : Locator}

theorem Place.plain (h : question.Place path) : path.Plain := by
  cases h with
  | part hfield =>
      have hplain := Segment.plain_of_mem hfield (by decide +kernel)
      refine ⟨List.forall_mem_singleton.mpr hplain, ?_⟩
      rintro ⟨⟩
      simp at hfield
  | stateVariable _ hfield =>
      have hplain := Segment.plain_of_mem hfield (by decide +kernel)
      exact ⟨by simpa [Segment.Plain] using hplain, nofun⟩
  | scene _ hplace => exact ⟨List.forall_mem_cons.mpr ⟨trivial, hplace.plain⟩, nofun⟩

theorem Place.fits (h : question.Place path) (hquestion : question.Addressable) :
    ∀ segment ∈ path, segment.Fits := by
  cases h with
  | part _ => simp [Segment.Fits, Segment.indexed?]
  | stateVariable hindex _ =>
      have hfits := Nat.lt_of_lt_of_le hindex hquestion.stateVariables
      simp [Segment.Fits, Segment.indexed?, hfits]
  | scene hitem hplace =>
      obtain ⟨hindex, rfl⟩ := List.getElem?_eq_some_iff.mp hitem
      have hfits := Nat.lt_of_lt_of_le hindex hquestion.scenes
      have hinner := hplace.fits (hquestion.items _ (List.getElem_mem hindex))
      simpa [Segment.Fits, Segment.indexed?, hfits] using hinner

/-- A plain locator survives its text form, if a word holds its indices.  All that is
reported about a question points at places of the question, whose locators are plain, so
it can be found again from the text of its locator. -/
theorem locators_read_back :
    (∀ locator : Locator, locator.Plain → (∀ segment ∈ locator, segment.Fits) →
      Locator.read locator.text = .ok locator) ∧
    ∀ (question : Question) (ctx : BuildContext),
      ∀ diagnostic ∈ (question.compile ctx).log.errors ++ (question.compile ctx).log.warnings,
        question.Place diagnostic.path ∧ diagnostic.path.Plain ∧
          (question.Addressable →
            Locator.read diagnostic.path.text = .ok diagnostic.path) := by
  constructor
  · exact fun locator => Locator.read_text
  · intro question ctx diagnostic hdiagnostic
    have hlocated := (within_compile question ctx).located
    have hplace : question.Place diagnostic.path := by
      obtain herror | hwarning := List.mem_append.mp hdiagnostic
      · exact hlocated.errors diagnostic herror
      · exact hlocated.warnings diagnostic hwarning
    refine ⟨hplace, hplace.plain, fun hquestion => ?_⟩
    exact Locator.read_text hplace.plain (hplace.fits hquestion)

/-- A question whose second tree leaves for a scene there is not, and warns of code that
never runs. -/
def strandedQuestion : Question where
  name := "q"
  setup := ""
  stateVariables := []
  scenes := [⟨"s", "", .empty, [⟨"ans1", .algebraic, "1"⟩],
    ["p", "r"].map fun name =>
      ⟨name, 1.0, .best, "", "n", [⟨"n", "AlgEquiv", "ans1", "1", "", true,
        { ResponseTree.Branch.plain with exit := .scene name },
        { ResponseTree.Branch.plain with transitionCode := "x: 1" }⟩]⟩, []⟩,
    ⟨"p", "", .empty, [], [], []⟩]
  entryScene := none

/-- The place of the exit at fault. -/
def strandedExit : Locator := [.scene 0, .tree 1, .node 0, .branch true, .field "exit"]

theorem strandedQuestion_addressable : strandedQuestion.Addressable where
  stateVariables := by decide +kernel
  scenes := by decide +kernel
  items := by
    have hlast : (⟨"p", "", .empty, [], [], []⟩ : Scene).Addressable := by
      constructor <;> decide +kernel
    refine List.forall_mem_cons.mpr ⟨?_, List.forall_mem_singleton.mpr hlast⟩
    constructor <;> decide +kernel

theorem strandedQuestion_locators :
    Locator.read "scene:0/prt:1/node:0/true/exit" = .ok strandedExit ∧
    ∃ diagnostic ∈ (strandedQuestion.compile plainContext).log.errors ++
        (strandedQuestion.compile plainContext).log.warnings,
      diagnostic.path = strandedExit ∧
        Locator.read diagnostic.path.text = .ok diagnostic.path := by
  obtain ⟨hread, hreported⟩ := locators_read_back
  have hplain : strandedExit.Plain := ⟨by decide +kernel, by decide +kernel⟩
  have hfits : ∀ segment ∈ strandedExit, segment.Fits := by
    simp [strandedExit, Segment.Fits, Segment.indexed?, Decimal.twoPow]
  have htext : strandedExit.text = "scene:0/prt:1/node:0/true/exit" := by decide +kernel
  have hmem : strandedExit ∈ ((strandedQuestion.compile plainContext).log.errors ++
      (strandedQuestion.compile plainContext).log.warnings).map Diagnostic.path := by
    decide +kernel
  obtain ⟨diagnostic, hdiagnostic, hpath⟩ := List.mem_map.mp hmem
  refine ⟨htext ▸ hread strandedExit hplain hfits, diagnostic, hdiagnostic, hpath, ?_⟩
  exact (hreported _ _ diagnostic hdiagnostic).2.2 strandedQuestion_addressable

end Question

end SceneQuiz
