import SceneQuiz.Proofs.Machine.Column
import SceneQuiz.Proofs.Machine.Scope
import SceneQuiz.Proofs.Question.Verdict
/-!
Names of the functions of a question.  A name is put together from the name of
a scene and the name of one of its parts, with underscores between them, and
names may have underscores of their own.  So two functions can have one name,
if the name of one scene continues the name of another; this module says exactly
when they do.  Keys of artifacts use a character that no name has, and are never
shared, so a question that is accepted has one artifact for each of its parts and no
others.
-/

namespace SceneQuiz

/-- Names are identifiers, unique within their collection. -/
structure Question.WellNamed (question : Question) : Prop where
  scenes : Distinct question.sceneNames
  trees : ∀ scene ∈ question.scenes,
    Distinct (scene.trees.map ResponseTree.name)
  boxes : ∀ scene ∈ question.scenes,
    Distinct (scene.boxes.map ValidationBox.name)

theorem Question.WellFormed.wellNamed {question : Question} (h : question.WellFormed) :
    question.WellNamed :=
  ⟨h.sceneNames, fun scene hscene => (h.scenes scene hscene).trees,
    fun scene hscene => (h.scenes scene hscene).boxes⟩

theorem dash_not_mem {name : String} (h : isIdentifier name = true) :
    '-' ∉ name.toList := by
  unfold isIdentifier at h
  cases hchars : name.toList with
  | nil => simp
  | cons c rest =>
      rw [hchars, Bool.and_eq_true, List.all_eq_true] at h
      intro hmem
      rcases List.mem_cons.mp hmem with rfl | hmem
      · exact absurd h.1 (by decide)
      · exact absurd (h.2 '-' hmem) (by decide)

/-- Before its first dash, a text says which scene it belongs to. -/
theorem append_dash_inj {first second rest other : List Char}
    (hfirst : '-' ∉ first) (hsecond : '-' ∉ second)
    (h : first ++ '-' :: rest = second ++ '-' :: other) :
    first = second ∧ rest = other := by
  rcases List.append_eq_append_iff.mp h with ⟨between, rfl, hrest⟩ |
    ⟨between, rfl, hrest⟩
  · cases between with
    | nil => simpa using hrest
    | cons c more =>
        rw [List.cons_append, List.cons.injEq] at hrest
        exact absurd (by simp [← hrest.1]) hsecond
  · cases between with
    | nil => simpa using hrest.symm
    | cons c more =>
        rw [List.cons_append, List.cons.injEq] at hrest
        exact absurd (by simp [← hrest.1]) hfirst

theorem sceneKey_inj {scene other part rest : String}
    (hscene : isIdentifier scene = true) (hother : isIdentifier other = true)
    (h : Build.sceneKey scene part = Build.sceneKey other rest) :
    scene = other ∧ part = rest := by
  have hchars := congrArg String.toList h
  simp only [Build.sceneKey, String.toList_append, List.append_assoc] at hchars
  have hdash := append_dash_inj (dash_not_mem hscene) (dash_not_mem hother)
    (List.append_cancel_left hchars)
  exact ⟨String.toList_inj.mp hdash.1, String.toList_inj.mp hdash.2⟩

theorem SceneFunction.keyPart_inj {first second : SceneFunction}
    (h : first.keyPart = second.keyPart) : first = second := by
  have hchars := congrArg String.toList h
  cases first <;> cases second <;> simp [keyPart] at hchars ⊢
  exact String.toList_inj.mp hchars

theorem SceneFunction.keyPart_ne_tree (function : SceneFunction) (name : String) :
    function.keyPart ≠ "prt-" ++ name := by
  intro h
  have hchars := congrArg String.toList h
  cases function <;> simp [keyPart] at hchars

/-- The scene that a part belongs to. -/
def Part.owner? : Part → Option String
  | .scene owner _ | .tree owner _ => some owner
  | _ => none

/-- The scene that a part belongs to has an identifier for its name. -/
def Part.IsNamed : Part → Prop
  | .scene owner _ | .tree owner _ => isIdentifier owner = true
  | _ => True

/-- Parts of well-named scenes have keys of their own. -/
theorem Part.key_inj {first second : Part} (hfirst : first.IsNamed)
    (hsecond : second.IsNamed) (h : first.key = second.key) : first = second := by
  have hchars := congrArg String.toList h
  cases first with
  | scene owner function =>
      cases second with
      | scene other found =>
          obtain ⟨rfl, hpart⟩ := sceneKey_inj hfirst hsecond h
          rw [SceneFunction.keyPart_inj hpart]
      | tree other name =>
          obtain ⟨_, hpart⟩ := sceneKey_inj hfirst hsecond h
          exact absurd hpart (function.keyPart_ne_tree name)
      | _ => simp [key, Build.sceneKey] at hchars
  | tree owner name =>
      cases second with
      | scene other found =>
          obtain ⟨_, hpart⟩ := sceneKey_inj hfirst hsecond h
          exact absurd hpart.symm (found.keyPart_ne_tree name)
      | tree other found =>
          obtain ⟨rfl, hpart⟩ := sceneKey_inj hfirst hsecond h
          have hname := congrArg String.toList hpart
          simp only [String.toList_append] at hname
          rw [String.toList_inj.mp (List.append_cancel_left hname)]
      | _ => simp [key, Build.sceneKey] at hchars
  | _ =>
      cases second with
      | scene _ _ => simp [key, Build.sceneKey] at hchars
      | tree _ _ => simp [key, Build.sceneKey] at hchars
      | _ => first | rfl | simp [key] at hchars

namespace Question

variable {question : Question}

theorem mem_parts_iff {part : Part} :
    part ∈ question.parts ↔
      part = .questionSetup ∨ part = .stateInit ∨ part = .forbiddenNames ∨
        (∃ scene ∈ question.scenes, ∃ function ∈ scene.functions,
          part = .scene scene.name function) ∨
        ∃ scene ∈ question.scenes, ∃ tree ∈ scene.trees,
          part = .tree scene.name tree.name := by
  simp only [parts, Scene.parts, List.mem_append, List.mem_cons,
    List.not_mem_nil, or_false, List.mem_flatMap, List.mem_map]
  constructor
  · rintro (((rfl | rfl) | ⟨scene, hscene, ⟨function, hmem, rfl⟩ |
      ⟨tree, hmem, rfl⟩⟩) | rfl)
    · simp
    · simp
    · exact Or.inr (Or.inr (Or.inr (Or.inl
        ⟨scene, hscene, function, hmem, rfl⟩)))
    · exact Or.inr (Or.inr (Or.inr (Or.inr ⟨scene, hscene, tree, hmem, rfl⟩)))
    · simp
  · rintro (rfl | rfl | rfl | ⟨scene, hscene, function, hmem, rfl⟩ |
      ⟨scene, hscene, tree, hmem, rfl⟩)
    · simp
    · simp
    · simp
    · exact Or.inl (Or.inr ⟨scene, hscene, Or.inl ⟨function, hmem, rfl⟩⟩)
    · exact Or.inl (Or.inr ⟨scene, hscene, Or.inr ⟨tree, hmem, rfl⟩⟩)

namespace WellNamed

theorem isNamed (h : question.WellNamed) {part : Part}
    (hpart : part ∈ question.parts) : part.IsNamed := by
  have hscene : ∀ scene ∈ question.scenes, isIdentifier scene.name = true :=
    fun scene hmem => h.scenes.1 scene.name (List.mem_map_of_mem hmem)
  rcases mem_parts_iff.mp hpart with rfl | rfl | rfl |
    ⟨scene, hmem, _, _, rfl⟩ | ⟨scene, hmem, _, _, rfl⟩
  · trivial
  · trivial
  · trivial
  · exact hscene scene hmem
  · exact hscene scene hmem

theorem nodup_functions (h : question.WellNamed) {scene : Scene}
    (hscene : scene ∈ question.scenes) : scene.functions.Nodup := by
  have hboxes : scene.customBoxes.Nodup :=
    (h.boxes scene hscene).2.sublist (List.filter_sublist.map _)
  have hmapped : (scene.customBoxes.map SceneFunction.box).Nodup :=
    hboxes.map fun _ _ heq => SceneFunction.box.inj heq
  unfold Scene.functions
  simp [hmapped]

theorem nodup_sceneParts (h : question.WellNamed) {scene : Scene}
    (hscene : scene ∈ question.scenes) : scene.parts.Nodup := by
  have htrees : ((scene.trees.map ResponseTree.name).map
      (Part.tree scene.name)).Nodup :=
    (h.trees scene hscene).2.map fun _ _ heq => (Part.tree.inj heq).2
  rw [List.map_map] at htrees
  refine List.Nodup.append ((h.nodup_functions hscene).map fun _ _ heq =>
    (Part.scene.inj heq).2) htrees ?_
  intro part hfirst hsecond
  obtain ⟨_, _, rfl⟩ := List.mem_map.mp hfirst
  obtain ⟨_, _, htree⟩ := List.mem_map.mp hsecond
  cases htree

theorem nodup_parts (h : question.WellNamed) : question.parts.Nodup := by
  have howner : ∀ scene : Scene, ∀ part ∈ scene.parts,
      part.owner? = some scene.name := by
    intro scene part hpart
    rcases List.mem_append.mp hpart with hmem | hmem
    · obtain ⟨_, _, rfl⟩ := List.mem_map.mp hmem
      rfl
    · obtain ⟨_, _, rfl⟩ := List.mem_map.mp hmem
      rfl
  have hall : (question.scenes.flatMap Scene.parts).Nodup := by
    rw [List.nodup_flatMap]
    refine ⟨fun scene hmem => h.nodup_sceneParts hmem, ?_⟩
    have hnames : question.scenes.Pairwise fun first second =>
        first.name ≠ second.name := List.pairwise_map.mp h.scenes.2
    refine hnames.imp fun {first second} hne part hfirst hsecond => hne ?_
    exact Option.some.inj
      ((howner first part hfirst).symm.trans (howner second part hsecond))
  have hfree : ∀ part : Part, part.owner? = none →
      ∀ scene : Scene, part ∉ scene.parts := by
    intro part hnone scene hpart
    rw [howner scene part hpart] at hnone
    cases hnone
  refine List.Nodup.append (List.Nodup.append (by simp) hall ?_)
    (List.nodup_singleton _) ?_
  · intro part hfirst hsecond
    obtain ⟨scene, _, hpart⟩ := List.mem_flatMap.mp hsecond
    have hnone : part.owner? = none := by
      rcases List.mem_pair.mp hfirst with rfl | rfl <;> rfl
    exact hfree part hnone scene hpart
  · intro part hfirst hlast
    rw [List.mem_singleton] at hlast
    subst hlast
    rcases List.mem_append.mp hfirst with hmem | hmem
    · simp at hmem
    · obtain ⟨scene, _, hpart⟩ := List.mem_flatMap.mp hmem
      exact hfree _ rfl scene hpart

theorem nodup_keys (h : question.WellNamed) : (question.parts.map Part.key).Nodup :=
  (List.nodup_map_iff_inj_on h.nodup_parts).mpr fun _ hfirst _ hsecond =>
    Part.key_inj (h.isNamed hfirst) (h.isNamed hsecond)

end WellNamed

end Question

namespace Part

theorem Compiles.keys {entries : List Build.Entry} {parts : List Part}
    (h : Compiles entries parts) : entries.map Prod.fst = parts.map key := by
  induction h with
  | nil => rfl
  | cons hhead _ ih => rw [List.map_cons, List.map_cons, hhead.1, ih]

theorem Compiles.exists_part {entries : List Build.Entry} {parts : List Part}
    (h : Compiles entries parts) {entry : Build.Entry} (hentry : entry ∈ entries) :
    ∃ part ∈ parts, entry.1 = part.key ∧
      entry.2.functionName? = part.functionName? := by
  induction h with
  | nil => cases hentry
  | @cons head part _ _ hhead _ ih =>
      rcases List.mem_cons.mp hentry with rfl | hmem
      · exact ⟨part, List.mem_cons_self, hhead⟩
      · obtain ⟨found, hfound, hsame⟩ := ih hmem
        exact ⟨found, List.mem_cons_of_mem _ hfound, hsame⟩

theorem Compiles.exists_entry {entries : List Build.Entry} {parts : List Part}
    (h : Compiles entries parts) {part : Part} (hpart : part ∈ parts) :
    ∃ artifact, (part.key, artifact) ∈ entries ∧
      artifact.functionName? = part.functionName? := by
  induction h with
  | nil => cases hpart
  | @cons head first _ _ hhead _ ih =>
      rcases List.mem_cons.mp hpart with rfl | hmem
      · refine ⟨head.2, ?_, hhead.2⟩
        rw [← hhead.1]
        exact List.mem_cons_self
      · obtain ⟨artifact, hfound, hsame⟩ := ih hmem
        exact ⟨artifact, List.mem_cons_of_mem _ hfound, hsame⟩

end Part

/-- No two artifacts define the same function. -/
def Artifacts.DefineApart (artifacts : Artifacts) : Prop :=
  ∀ key other first second name, artifacts.get? key = some first →
    artifacts.get? other = some second → first.functionName? = some name →
      second.functionName? = some name → key = other

/-- Accepted artifacts define functions apart exactly if the parts do. -/
theorem Question.WellNamed.defineApart_iff {question : Question}
    (hnamed : question.WellNamed) {entries : List Build.Entry}
    (h : Part.Compiles entries question.parts) :
    Artifacts.DefineApart (NameMap.ofList entries) ↔
      ∀ first ∈ question.parts, ∀ second ∈ question.parts, ∀ name,
        first.functionName? = some name → second.functionName? = some name →
          first = second := by
  have hinj : ∀ first ∈ question.parts, ∀ second ∈ question.parts,
      first.key = second.key → first = second :=
    fun first hfirst second hsecond => Part.key_inj (hnamed.isNamed hfirst)
      (hnamed.isNamed hsecond)
  have hnodup : (entries.map Prod.fst).Nodup := by
    rw [h.keys]
    exact hnamed.nodup_keys
  have hget : ∀ {key : String} {artifact : Artifact},
      (NameMap.ofList entries).get? key = some artifact ↔
        (key, artifact) ∈ entries := by
    intro key artifact
    rw [NameMap.get?_ofList hnodup, NameMap.lookup_eq_some_iff hnodup]
  constructor
  · intro hapart first hfirst second hsecond name hname hother
    obtain ⟨artifact, hentry, hsame⟩ := h.exists_entry hfirst
    obtain ⟨another, hlater, hagain⟩ := h.exists_entry hsecond
    exact hinj first hfirst second hsecond (hapart _ _ _ _ name
      (hget.mpr hentry) (hget.mpr hlater) (hsame.trans hname)
      (hagain.trans hother))
  · intro hparts key other first second name hfirst hsecond hname hother
    obtain ⟨part, hpart, hkey, hsame⟩ := h.exists_part (hget.mp hfirst)
    obtain ⟨found, hfound, hlater, hagain⟩ := h.exists_part (hget.mp hsecond)
    have hone : part = found := hparts part hpart found hfound name
      (hsame.symm.trans hname) (hagain.symm.trans hother)
    exact hkey.trans ((congrArg Part.key hone).trans hlater.symm)

/-- Two functions of a question have one name: the name of the second scene is
that of the first one, continued by the start of the name of a part. -/
inductive Question.Clash (question : Question) : Prop where
  /-- Both judge responses. -/
  | trees {first second : Scene} (hfirst : first ∈ question.scenes)
      (hsecond : second ∈ question.scenes) {tree other : ResponseTree}
      (htree : tree ∈ first.trees) (hother : other ∈ second.trees)
      (middle : String) (hscene : second.name = first.name ++ "_" ++ middle)
      (hname : tree.name = middle ++ "_" ++ other.name)
  /-- The first one is the text of a box. -/
  | box {first second : Scene} (hfirst : first ∈ question.scenes)
      (hsecond : second ∈ question.scenes) {box : String}
      {function : SceneFunction} (hbox : box ∈ first.customBoxes)
      (hfunction : function ∈ second.functions) (middle : String)
      (hscene : second.name = first.name ++ "_vbox" ++ middle)
      (hname : "_" ++ box = middle ++ function.suffix)

theorem SceneFunction.suffix_inj {first second : SceneFunction}
    (h : first.suffix = second.suffix) : first = second := by
  have hchars := congrArg String.toList h
  cases first <;> cases second <;> simp [suffix] at hchars ⊢
  exact String.toList_inj.mp hchars

/-- A suffix that ends in another one is that of a box: the other one starts with an
underscore, which fixes its place. -/
theorem SceneFunction.suffix_eq_append {first second : SceneFunction}
    {front : List Char} (hfront : front ≠ [])
    (h : first.suffix.toList = front ++ second.suffix.toList) :
    ∃ box middle, first = .box box ∧ front = "_vbox".toList ++ middle ∧
      '_' :: box.toList = middle ++ second.suffix.toList := by
  obtain ⟨tail, htail⟩ : ∃ tail, second.suffix.toList = '_' :: tail := by
    cases second <;> simp [suffix]
  cases front with
  | nil => exact absurd rfl hfront
  | cons c front =>
      rw [htail] at h ⊢
      cases first with
      | setup =>
          simp only [suffix, String.reduceToList, List.cons_append,
            List.cons.injEq] at h
          have hmem := congrArg (fun chars => '_' ∈ chars) h.2
          simp at hmem
      | text =>
          simp only [suffix, String.reduceToList, List.cons_append,
            List.cons.injEq] at h
          have hmem := congrArg (fun chars => '_' ∈ chars) h.2
          simp at hmem
      | box name =>
          refine ⟨name, ?_⟩
          rcases front with _ | ⟨d, _ | ⟨e, _ | ⟨f, _ | ⟨g, middle⟩⟩⟩⟩ <;>
            simp [suffix] at h ⊢
          obtain ⟨rfl, rfl, rfl, rfl, rfl, h⟩ := h
          simpa using h

theorem Scene.mem_functions_box {scene : Scene} {box : String} :
    SceneFunction.box box ∈ scene.functions ↔ box ∈ scene.customBoxes := by
  simp [functions]

namespace Question

variable {question : Question} {first second : Scene}

/-- Functions of two scenes with one name are the same, or a clash. -/
theorem clash_of_suffixes (hfirst : first ∈ question.scenes)
    (hsecond : second ∈ question.scenes) {function other : SceneFunction}
    (hfunction : function ∈ first.functions) (hother : other ∈ second.functions)
    {front : List Char} (hscene : second.name.toList = first.name.toList ++ front)
    (hname : function.suffix.toList = front ++ other.suffix.toList) :
    (first.name = second.name ∧ function = other) ∨ question.Clash := by
  by_cases hfront : front = []
  · subst hfront
    left
    rw [List.append_nil] at hscene
    exact ⟨(String.toList_inj.mp hscene).symm,
      SceneFunction.suffix_inj (String.toList_inj.mp hname)⟩
  · right
    obtain ⟨box, middle, rfl, rfl, hbox⟩ :=
      SceneFunction.suffix_eq_append hfront hname
    refine .box hfirst hsecond (Scene.mem_functions_box.mp hfunction) hother
      (String.ofList middle) (String.toList_inj.mp ?_) (String.toList_inj.mp ?_)
    · simpa using hscene
    · simpa using hbox

/-- Trees of two scenes whose functions have one name are the same, or a
clash. -/
theorem clash_of_trees (hfirst : first ∈ question.scenes)
    (hsecond : second ∈ question.scenes) {tree other : ResponseTree}
    (htree : tree ∈ first.trees) (hother : other ∈ second.trees)
    {front : List Char} (hscene : second.name.toList = first.name.toList ++ front)
    (hname : '_' :: tree.name.toList = front ++ '_' :: other.name.toList) :
    (first.name = second.name ∧ tree.name = other.name) ∨ question.Clash := by
  cases front with
  | nil =>
      left
      rw [List.append_nil] at hscene
      exact ⟨(String.toList_inj.mp hscene).symm,
        String.toList_inj.mp (List.cons.inj hname).2⟩
  | cons c middle =>
      right
      rw [List.cons_append, List.cons.injEq] at hname
      obtain ⟨rfl, hname⟩ := hname
      refine .trees hfirst hsecond htree hother (String.ofList middle)
        (String.toList_inj.mp ?_) (String.toList_inj.mp ?_)
      · simpa using hscene
      · simpa using hname

theorem mem_parts_scene {owner : String} {function : SceneFunction} :
    Part.scene owner function ∈ question.parts ↔
      ∃ scene ∈ question.scenes, scene.name = owner ∧
        function ∈ scene.functions := by
  rw [mem_parts_iff]
  constructor
  · rintro (h | h | h | ⟨scene, hscene, found, hfound, h⟩ | ⟨_, _, _, _, h⟩) <;>
      cases h
    exact ⟨scene, hscene, rfl, hfound⟩
  · rintro ⟨scene, hscene, rfl, hfound⟩
    exact Or.inr (Or.inr (Or.inr (Or.inl
      ⟨scene, hscene, function, hfound, rfl⟩)))

theorem mem_parts_tree {owner name : String} :
    Part.tree owner name ∈ question.parts ↔
      ∃ scene ∈ question.scenes, scene.name = owner ∧
        ∃ tree ∈ scene.trees, tree.name = name := by
  rw [mem_parts_iff]
  constructor
  · rintro (h | h | h | ⟨_, _, _, _, h⟩ | ⟨scene, hscene, tree, htree, h⟩) <;>
      cases h
    exact ⟨scene, hscene, rfl, tree, htree, rfl⟩
  · rintro ⟨scene, hscene, rfl, tree, htree, rfl⟩
    exact Or.inr (Or.inr (Or.inr (Or.inr ⟨scene, hscene, tree, htree, rfl⟩)))

/-- Parts whose functions have one name are the same, unless there is a
clash. -/
theorem part_eq_of_functionName? (hclash : ¬ question.Clash) {left right : Part}
    (hleft : left ∈ question.parts) (hright : right ∈ question.parts)
    {name : String} (hname : left.functionName? = some name)
    (hother : right.functionName? = some name) : left = right := by
  have hchars : left.functionName?.map String.toList =
      right.functionName?.map String.toList := by
    rw [hname, hother]
  cases left with
  | scene owner function =>
      cases right with
      | scene found other =>
          obtain ⟨first, hfirst, rfl, hfunction⟩ := mem_parts_scene.mp hleft
          obtain ⟨second, hsecond, rfl, hagain⟩ := mem_parts_scene.mp hright
          simp only [Part.functionName?, Option.map_some, Option.some.injEq,
            String.toList_append, List.append_assoc,
            List.append_cancel_left_eq] at hchars
          rcases List.append_eq_append_iff.mp hchars with
            ⟨front, hscene, hsuffix⟩ | ⟨front, hscene, hsuffix⟩
          · rcases clash_of_suffixes hfirst hsecond hfunction hagain hscene
              hsuffix with ⟨hsame, rfl⟩ | hbad
            · rw [hsame]
            · exact absurd hbad hclash
          · rcases clash_of_suffixes hsecond hfirst hagain hfunction hscene
              hsuffix with ⟨hsame, rfl⟩ | hbad
            · rw [hsame]
            · exact absurd hbad hclash
      | forbiddenNames => cases hother
      | _ => simp [Part.functionName?, ResponseTree.functionName] at hchars
  | tree owner label =>
      cases right with
      | tree found other =>
          obtain ⟨first, hfirst, rfl, tree, htree, rfl⟩ := mem_parts_tree.mp hleft
          obtain ⟨second, hsecond, rfl, another, hagain, rfl⟩ :=
            mem_parts_tree.mp hright
          simp only [Part.functionName?, ResponseTree.functionName,
            Option.map_some, Option.some.injEq, String.toList_append,
            List.append_assoc, List.append_cancel_left_eq] at hchars
          rcases List.append_eq_append_iff.mp hchars with
            ⟨front, hscene, hlabel⟩ | ⟨front, hscene, hlabel⟩
          · rcases clash_of_trees hfirst hsecond htree hagain hscene hlabel with
              ⟨hsame, hlabels⟩ | hbad
            · rw [hsame, hlabels]
            · exact absurd hbad hclash
          · rcases clash_of_trees hsecond hfirst hagain htree hscene hlabel with
              ⟨hsame, hlabels⟩ | hbad
            · rw [hsame, hlabels]
            · exact absurd hbad hclash
      | forbiddenNames => cases hother
      | _ => simp [Part.functionName?, ResponseTree.functionName] at hchars
  | forbiddenNames => cases hname
  | _ =>
      cases right with
      | forbiddenNames => cases hother
      | _ =>
          first
          | rfl
          | simp [Part.functionName?, ResponseTree.functionName] at hchars

/-- A clash is two parts whose functions have one name. -/
theorem Clash.exists_parts (h : question.Clash) :
    ∃ left ∈ question.parts, ∃ right ∈ question.parts, left ≠ right ∧
      ∃ name, left.functionName? = some name ∧
        right.functionName? = some name := by
  have hlonger : ∀ {front rest : String}, rest ≠ "" → front ≠ front ++ rest := by
    intro front rest hrest heq
    have hchars := congrArg String.toList heq
    rw [String.toList_append, List.self_eq_append_right] at hchars
    exact hrest (String.toList_eq_nil_iff.mp hchars)
  cases h with
  | @trees first second hfirst hsecond tree other htree hother middle hscene hname =>
      refine ⟨.tree first.name tree.name,
        mem_parts_tree.mpr ⟨first, hfirst, rfl, tree, htree, rfl⟩,
        .tree second.name other.name,
        mem_parts_tree.mpr ⟨second, hsecond, rfl, other, hother, rfl⟩, ?_,
        _, rfl, ?_⟩
      · intro heq
        have howner := (Part.tree.inj heq).1
        rw [hscene, String.append_assoc] at howner
        exact hlonger (by simp) howner
      · simp [Part.functionName?, ResponseTree.functionName, hscene, hname,
          String.append_assoc]
  | @box first second hfirst hsecond box function hbox hfunction middle hscene
      hname =>
      refine ⟨.scene first.name (.box box),
        mem_parts_scene.mpr
          ⟨first, hfirst, rfl, Scene.mem_functions_box.mpr hbox⟩,
        .scene second.name function,
        mem_parts_scene.mpr ⟨second, hsecond, rfl, hfunction⟩, ?_, _, rfl, ?_⟩
      · intro heq
        have howner := (Part.scene.inj heq).1
        rw [hscene, String.append_assoc] at howner
        exact hlonger (by simp) howner
      · have hjoined : "_vbox_" ++ box = "_vbox" ++ (middle ++ function.suffix) := by
          rw [← hname, ← String.append_assoc]
          rfl
        simp only [Part.functionName?, SceneFunction.suffix, hscene, hjoined,
          String.append_assoc]

/-- An accepted question is well named, and has the artifacts of its parts. -/
theorem accepted_parts {ctx : BuildContext} {compiled : CompiledQuestion}
    {log : Log} (h : question.compile ctx = ⟨some compiled, log⟩) :
    question.WellNamed ∧ ∃ entries, compiled.artifacts = NameMap.ofList entries ∧
      Part.Compiles entries question.parts := by
  obtain ⟨hartifacts, hfaulty⟩ := artifacts_of_compile h
  exact ⟨(of_verdict hfaulty).1.wellNamed, _, hartifacts, compiles_verdict hfaulty⟩

theorem not_defineApart_of_clash {ctx : BuildContext}
    {compiled : CompiledQuestion} {log : Log}
    (h : question.compile ctx = ⟨some compiled, log⟩) (hclash : question.Clash) :
    ¬ compiled.artifacts.DefineApart := by
  intro hapart
  obtain ⟨hnamed, entries, hartifacts, hparts⟩ := accepted_parts h
  rw [hartifacts, hnamed.defineApart_iff hparts] at hapart
  obtain ⟨left, hleft, right, hright, hne, name, hname, hother⟩ :=
    hclash.exists_parts
  exact hne (hapart left hleft right hright name hname hother)

/-- The functions of an accepted question have names of their own, unless there
is a clash. -/
theorem defineApart_iff_not_clash {ctx : BuildContext}
    {compiled : CompiledQuestion} {log : Log}
    (h : question.compile ctx = ⟨some compiled, log⟩) :
    compiled.artifacts.DefineApart ↔ ¬ question.Clash := by
  constructor
  · intro hapart hclash
    exact not_defineApart_of_clash h hclash hapart
  · intro hclash
    obtain ⟨hnamed, entries, hartifacts, hparts⟩ := accepted_parts h
    rw [hartifacts, hnamed.defineApart_iff hparts]
    intro left hleft right hright name hname hother
    exact part_eq_of_functionName? hclash hleft hright hname hother

/-- A scene with one tree of one test. -/
def judgingScene (scene tree : String) : Scene where
  name := scene
  setup := ""
  text := .empty
  inputs := []
  trees := [⟨tree, 1.0, .best, "", "n",
    [⟨"n", "Same", "1", "1", "", true, .plain, .plain⟩]⟩]
  boxes := []

def clashingQuestion : Question where
  name := "q"
  setup := ""
  stateVariables := []
  scenes := [judgingScene "a" "b_c", judgingScene "a_b" "c"]
  entryScene := none

def clashingContext : BuildContext where
  options := .default
  registry := Registry.register .empty ⟨"Same", .none, true, false⟩
  reader := none

theorem clashingQuestion_clash : clashingQuestion.Clash := by
  have hfirst : judgingScene "a" "b_c" ∈ clashingQuestion.scenes := by
    simp [clashingQuestion]
  have hsecond : judgingScene "a_b" "c" ∈ clashingQuestion.scenes := by
    simp [clashingQuestion]
  exact .trees hfirst hsecond List.mem_cons_self List.mem_cons_self "b" rfl rfl

theorem clashingQuestion_accepted :
    (clashingQuestion.compile clashingContext).question.isSome = true := by
  decide +kernel

/-- What is compiled of the clash. -/
def clashingCompiled : CompiledQuestion :=
  (clashingQuestion.compile clashingContext).question.get
    clashingQuestion_accepted

theorem clashingQuestion_compile :
    clashingQuestion.compile clashingContext =
      ⟨some clashingCompiled, (clashingQuestion.compile clashingContext).log⟩ :=
  compile_eq_get clashingQuestion_accepted

/-- An accepted question with two functions of one name. -/
theorem clashingQuestion_shares :
    ∃ compiled log,
      clashingQuestion.compile clashingContext = ⟨some compiled, log⟩ ∧
        ¬ compiled.artifacts.DefineApart :=
  ⟨_, _, clashingQuestion_compile,
    not_defineApart_of_clash clashingQuestion_compile clashingQuestion_clash⟩

theorem clashingQuestion_apart_iff :
    clashingCompiled.artifacts.DefineApart ↔ ¬ clashingQuestion.Clash :=
  defineApart_iff_not_clash clashingQuestion_compile

end Question

namespace NameMap

variable {α : Type}

theorem isSome_lookup_iff {entries : List (String × α)} {name : String} :
    (lookup name entries).isSome = true ↔ name ∈ entries.map Prod.fst := by
  induction entries with
  | nil => simp [lookup]
  | cons entry rest ih =>
      by_cases heq : name = entry.1 <;> simp [lookup, heq, ih]

theorem nodup_keys (map : NameMap α) : map.keys.Nodup := by
  refine map.ascending.imp ?_
  rintro name _ hlt rfl
  exact String.lt_irrefl name hlt

/-- A map from entries whose keys differ has as many entries. -/
theorem size_ofList {entries : List (String × α)} (h : (entries.map Prod.fst).Nodup) :
    (ofList entries).size = entries.length := by
  have hperm : (ofList entries).keys.Perm (entries.map Prod.fst) := by
    rw [List.perm_ext_iff_of_nodup (nodup_keys _) h]
    exact fun name => isSome_lookup_iff.symm.trans contains_ofList
  simpa [size, keys] using hperm.length_eq

end NameMap

namespace Question

variable {question : Question} {ctx : BuildContext}

/-- The keys of all parts of a question. -/
def artifactKeys (question : Question) : List String :=
  ["qv", "state-init"] ++
    (question.scenes.flatMap fun scene =>
      ["scene-" ++ scene.name ++ "-variables", "scene-" ++ scene.name ++ "-text"] ++
        ((scene.boxes.filter fun box => box.text.isSome).map fun box =>
          "scene-" ++ scene.name ++ "-vbox-" ++ box.name) ++
        scene.trees.map fun tree => "scene-" ++ scene.name ++ "-prt-" ++ tree.name) ++
    ["forbiddenkeys"]

theorem keys_parts (question : Question) :
    question.parts.map Part.key = question.artifactKeys := by
  have hscene : ∀ scene : Scene, scene.parts.map Part.key =
      ["scene-" ++ scene.name ++ "-variables", "scene-" ++ scene.name ++ "-text"] ++
        ((scene.boxes.filter fun box => box.text.isSome).map fun box =>
          "scene-" ++ scene.name ++ "-vbox-" ++ box.name) ++
        scene.trees.map fun tree => "scene-" ++ scene.name ++ "-prt-" ++ tree.name := by
    have hbox : ∀ name : String, "-" ++ ("vbox-" ++ name) = "-vbox-" ++ name := fun _ =>
      String.append_assoc.symm
    have htree : ∀ name : String, "-" ++ ("prt-" ++ name) = "-prt-" ++ name := fun _ =>
      String.append_assoc.symm
    intro scene
    simp [Scene.parts, Scene.functions, Scene.customBoxes, Part.key, Build.sceneKey,
      SceneFunction.keyPart, String.append_assoc, Function.comp_def, hbox, htree]
  unfold parts artifactKeys
  rw [List.map_append, List.map_append, List.map_flatMap]
  simp only [hscene]
  rfl

/-- The artifacts of an accepted question are those of its parts. -/
theorem accepted_keys {compiled : CompiledQuestion} {log : Log}
    (h : question.compile ctx = ⟨some compiled, log⟩) :
    (∀ key, compiled.artifacts.contains key = true ↔ key ∈ question.artifactKeys) ∧
      compiled.artifacts.size = question.artifactKeys.length := by
  obtain ⟨hnamed, entries, hartifacts, hparts⟩ := accepted_parts h
  have hkeys : entries.map Prod.fst = question.artifactKeys := hparts.keys.trans (keys_parts _)
  have hnodup : (entries.map Prod.fst).Nodup := by
    rw [hparts.keys]
    exact hnamed.nodup_keys
  rw [hartifacts, ← hkeys, NameMap.size_ofList hnodup, List.length_map]
  exact ⟨fun key => NameMap.contains_ofList, rfl⟩

/-- A question is refused with an error to show, or is accepted with an artifact
for each of its parts and no other. -/
theorem compile_keys (question : Question) (ctx : BuildContext) :
    ((question.compile ctx).question = none ∧ (question.compile ctx).log.errors ≠ []) ∨
      ∃ compiled, (question.compile ctx).question = some compiled ∧
        (question.compile ctx).log.errors = [] ∧
        (∀ key, compiled.artifacts.contains key = true ↔ key ∈ question.artifactKeys) ∧
        compiled.artifacts.size = question.artifactKeys.length := by
  obtain ⟨hreports, hfilled⟩ := compile_log question ctx
  have hquestion := compile_question question ctx
  cases hfaulty : (question.verdict ctx).isFaulty with
  | true =>
      rw [hfaulty] at hquestion hreports
      exact .inl ⟨hquestion, hfilled.errors_ne_nil hreports⟩
  | false =>
      rw [hfaulty] at hquestion hreports
      obtain ⟨compiled, hcompiled⟩ : ∃ compiled, (question.compile ctx).question = some compiled :=
        ⟨_, hquestion⟩
      have hcompile : question.compile ctx = ⟨some compiled, (question.compile ctx).log⟩ := by
        rw [← hcompiled]
      exact .inr ⟨compiled, hcompiled, hfilled.errors_eq_nil hreports, accepted_keys hcompile⟩

end Question

end SceneQuiz
