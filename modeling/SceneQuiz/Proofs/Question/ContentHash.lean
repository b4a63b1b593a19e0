import SceneQuiz.Proofs.Question.FunctionNames
import SceneQuiz.Proofs.Question.SoundArtifacts
/-!
What the hash of a compiled question tells about it.  The hashed bytes of an
accepted question can be cut back into keys and contents, and a key tells what
kind of piece stands under it and which function it defines.  Inputs, walking
orders and weights are not hashed, and questions that differ in nothing else
share their hash.
-/

namespace SceneQuiz

theorem Text.bytes_inj {s t : String} (h : Text.bytes s = Text.bytes t) : s = t := by
  have hchars : s.toList.utf8Encode = t.toList.utf8Encode := congrArg List.toByteArray h
  rw [← String.toByteArray_ofList, ← String.toByteArray_ofList, String.toByteArray_inj,
    String.ofList_toList, String.ofList_toList] at hchars
  exact hchars

/-- Names with a comma before each. -/
def commaTail (names : List String) : List Char :=
  names.flatMap fun name => ',' :: name.toList

theorem toList_intercalate_cons (name : String) (rest : List String) :
    (",".intercalate (name :: rest)).toList = name.toList ++ commaTail rest := by
  induction rest generalizing name with
  | nil => simp [commaTail]
  | cons other rest ih =>
      rw [String.intercalate_cons_cons, String.toList_append, String.toList_append, ih]
      simp [commaTail]

theorem CleanWord.append_comma_inj {word other : String} {rest more : List String}
    (hword : CleanWord word) (hother : CleanWord other)
    (h : word.toList ++ commaTail rest = other.toList ++ commaTail more) :
    word = other ∧ commaTail rest = commaTail more := by
  have hcut : ∀ {text : String} (names : List String), CleanWord text →
      ((text.toList ++ commaTail names).takeWhile (· != ','),
        (text.toList ++ commaTail names).dropWhile (· != ',')) =
          (text.toList, commaTail names) := by
    intro text names htext
    refine Lexer.span_append (fun c hc => ?_) ?_
    · have huncut := htext.uncut c hc
      simp only [cutsText, Bool.or_eq_false_iff] at huncut
      simpa using huncut.1.2
    · cases names with
      | nil => simp [commaTail]
      | cons name names => simp [commaTail]
  have hsame := hcut rest hword
  rw [h, hcut more hother] at hsame
  exact ⟨String.toList_inj.mp (congrArg Prod.fst hsame).symm, (congrArg Prod.snd hsame).symm⟩

theorem intercalate_inj {names others : List String}
    (hnames : ∀ name ∈ names, CleanWord name) (hothers : ∀ name ∈ others, CleanWord name)
    (h : ",".intercalate names = ",".intercalate others) : names = others := by
  have hempty : ∀ {name : String} {rest : List String}, CleanWord name →
      ",".intercalate (name :: rest) ≠ "" := by
    intro name rest hname heq
    have hchars := congrArg String.toList heq
    rw [toList_intercalate_cons] at hchars
    exact hname.nonempty (String.toList_eq_nil_iff.mp (List.append_eq_nil_iff.mp hchars).1)
  have htails : ∀ {rest more : List String}, (∀ name ∈ rest, CleanWord name) →
      (∀ name ∈ more, CleanWord name) → commaTail rest = commaTail more → rest = more := by
    intro rest more hrest hmore htail
    induction rest generalizing more with
    | nil =>
        cases more with
        | nil => rfl
        | cons other more => simp [commaTail] at htail
    | cons name rest ih =>
        cases more with
        | nil => simp [commaTail] at htail
        | cons other more =>
            rw [List.forall_mem_cons] at hrest hmore
            obtain ⟨rfl, hnext⟩ := hrest.1.append_comma_inj hmore.1 (List.cons.inj htail).2
            rw [ih hrest.2 hmore.2 hnext]
  cases names with
  | nil =>
      cases others with
      | nil => rfl
      | cons other others => exact absurd h.symm (hempty (List.forall_mem_cons.mp hothers).1)
  | cons name names =>
      cases others with
      | nil => exact absurd h (hempty (List.forall_mem_cons.mp hnames).1)
      | cons other others =>
          have hchars := congrArg String.toList h
          rw [toList_intercalate_cons, toList_intercalate_cons] at hchars
          rw [List.forall_mem_cons] at hnames hothers
          obtain ⟨rfl, hrest⟩ := hnames.1.append_comma_inj hothers.1 hchars
          rw [htails hnames.2 hothers.2 hrest]

/-- The names that a part is known by. -/
def Part.names : Part → List String
  | .scene owner (.box name) | .tree owner name => [owner, name]
  | .scene owner _ => [owner]
  | _ => []

theorem Question.WellNamed.isIdentifier_names {question : Question}
    (h : question.WellNamed) {part : Part} (hpart : part ∈ question.parts) :
    ∀ name ∈ part.names, isIdentifier name = true := by
  have hscene : ∀ scene ∈ question.scenes, isIdentifier scene.name = true :=
    fun scene hmem => h.scenes.1 scene.name (List.mem_map_of_mem hmem)
  cases part with
  | scene owner function =>
      obtain ⟨scene, hmem, rfl, hfunction⟩ := mem_parts_scene.mp hpart
      cases function with
      | box name =>
          have hbox : name ∈ scene.boxes.map ValidationBox.name :=
            (List.filter_sublist.map _).subset (Scene.mem_functions_box.mp hfunction)
          have hname := (h.boxes scene hmem).1 name hbox
          simp [Part.names, hscene scene hmem, hname]
      | _ => simp [Part.names, hscene scene hmem]
  | tree owner name =>
      obtain ⟨scene, hmem, rfl, tree, htree, rfl⟩ := mem_parts_tree.mp hpart
      have hname := (h.trees scene hmem).1 tree.name (List.mem_map_of_mem htree)
      simp [Part.names, hscene scene hmem, hname]
  | _ => exact List.forall_mem_nil _

namespace Part

variable {part : Part}

theorem cleanWord_key (h : ∀ name ∈ part.names, isIdentifier name = true) :
    CleanWord part.key := by
  have huncut : ∀ name ∈ part.names, Uncut name := fun name hname =>
    (cleanWord_of_isIdentifier (h name hname)).uncut
  have hscene : CleanWord "scene-" := by decide
  have hdash : Uncut "-" := by decide
  cases part with
  | scene owner function =>
      have howner : Uncut owner := huncut owner (by cases function <;> simp [names])
      refine ((hscene.append howner).append hdash).append ?_
      cases function with
      | setup | text => decide
      | box name => exact Uncut.append (by decide) (huncut name (by simp [names]))
  | tree owner name =>
      simp only [names, List.forall_mem_cons] at huncut
      exact ((hscene.append huncut.1).append hdash).append
        (Uncut.append (by decide) huncut.2.1)
  | _ => decide

theorem cleanWord_functionName? (h : ∀ name ∈ part.names, isIdentifier name = true) :
    ∀ name ∈ part.functionName?, CleanWord name := by
  have huncut : ∀ name ∈ part.names, Uncut name := fun name hname =>
    (cleanWord_of_isIdentifier (h name hname)).uncut
  intro found hfound
  cases part with
  | scene owner function =>
      cases hfound
      have hscene : CleanWord "%_scene_" := by decide
      have howner : Uncut owner := huncut owner (by cases function <;> simp [names])
      refine (hscene.append howner).append ?_
      cases function with
      | setup | text => decide
      | box name => exact Uncut.append (by decide) (huncut name (by simp [names]))
  | tree owner name =>
      cases hfound
      have htree : CleanWord "%_prt_" := by decide
      simp only [names, List.forall_mem_cons] at huncut
      exact ((htree.append huncut.1).append (by decide)).append huncut.2.1
  | questionSetup | stateInit =>
      cases hfound
      decide
  | forbiddenNames => cases hfound

end Part

/-- An entry that can be told from what follows it, and whose key tells what it
is. -/
structure Legible (entry : Build.Entry) : Prop where
  part : ∃ part : Part, part.IsNamed ∧ entry.1 = part.key ∧
    entry.2.functionName? = part.functionName?
  key : Sealed entry.1
  content : Sealed entry.2.content
  sound : entry.2.Sound

theorem Question.clean_stateNames {question : Question}
    (h : question.WellFormed) : question.stateNames.Clean := by
  intro name hname
  exact cleanWord_of_isIdentifier (h.stateNames.1 name (NameSet.mem_ofList.mp hname))

theorem Question.legible_entries {question : Question} {ctx : BuildContext}
    {compiled : CompiledQuestion} {log : Log} (hregistry : ctx.registry.Clean)
    (h : question.compile ctx = ⟨some compiled, log⟩) :
    ∀ entry ∈ compiled.artifacts.entries, Legible entry := by
  obtain ⟨hnamed, entries, hartifacts, hparts⟩ := accepted_parts h
  have hsound : Build.AllSound compiled.artifacts.entries := by
    obtain ⟨hbuilt, hfaulty⟩ := artifacts_of_compile h
    rw [hbuilt, ← build_value]
    exact yields_build hregistry (clean_stateNames (of_verdict hfaulty).1) .empty
  intro entry hentry
  have hmem : entry ∈ entries := by
    rw [hartifacts] at hentry
    exact NameMap.mem_of_mem_ofList hentry
  obtain ⟨part, hpart, hkey, hname⟩ := hparts.exists_part hmem
  have hidentifiers := hnamed.isIdentifier_names hpart
  refine ⟨⟨part, hnamed.isNamed hpart, hkey, hname⟩, ?_, ?_, hsound entry hentry⟩
  · rw [hkey]
    exact .of_cleanWord (Part.cleanWord_key hidentifiers)
  · refine (hsound entry hentry).sealed ?_
    rw [hname]
    exact Part.cleanWord_functionName? hidentifiers

namespace Artifact

/-- An artifact without what is not hashed. -/
def hashedPart : Artifact → Artifact
  | .function name code _ => .function name code []
  | .tree name code _ _ _ => .tree name code [] [] 0.0
  | .keys names => .keys names

/-- Inputs, walking order and weight. -/
def unhashedPart : Artifact → List String × List String × Option Float
  | .function _ _ inputs => (inputs, [], none)
  | .tree _ _ inputs order value => (inputs, order, some value)
  | .keys _ => ([], [], none)

theorem content_hashedPart (artifact : Artifact) :
    artifact.hashedPart.content = artifact.content := by
  cases artifact <;> rfl

theorem eq_of_parts {first second : Artifact} (hhashed : first.hashedPart = second.hashedPart)
    (hrest : first.unhashedPart = second.unhashedPart) : first = second := by
  cases first <;> cases second <;> simp_all [hashedPart, unhashedPart]

end Artifact

/-- The key and the content of an artifact tell all that is hashed of it. -/
theorem Legible.hashedPart_eq {first second : Build.Entry} (hfirst : Legible first)
    (hsecond : Legible second) (hkey : first.1 = second.1)
    (hcontent : first.2.content = second.2.content) :
    first.2.hashedPart = second.2.hashedPart := by
  obtain ⟨part, hnamed, hpart, hname⟩ := hfirst.part
  obtain ⟨other, hothernamed, hother, hothername⟩ := hsecond.part
  have hsame : part = other :=
    Part.key_inj hnamed hothernamed (hpart.symm.trans (hkey.trans hother))
  have hnames : first.2.functionName? = second.2.functionName? := by
    rw [hname, hothername, hsame]
  have hsound := hfirst.sound
  have hothersound := hsecond.sound
  generalize first.2 = artifact at hcontent hnames hsound
  generalize second.2 = another at hcontent hnames hothersound
  cases artifact with
  | function name code inputs =>
      cases another with
      | function =>
          cases hnames
          cases hcontent
          rfl
      | tree =>
          cases hnames
          exact absurd (hothersound.1.symm.trans hsound.1) (by decide)
      | keys => cases hnames
  | tree name code inputs order value =>
      cases another with
      | tree =>
          cases hnames
          cases hcontent
          rfl
      | function =>
          cases hnames
          exact absurd (hsound.1.symm.trans hothersound.1) (by decide)
      | keys => cases hnames
  | keys names =>
      cases another with
      | keys others => exact congrArg Artifact.keys (intercalate_inj hsound hothersound hcontent)
      | _ => cases hnames

/-- A map with every value changed. -/
def NameMap.mapValues {α β : Type} (change : α → β) (map : NameMap α) : NameMap β :=
  ⟨map.entries.map fun entry => (entry.1, change entry.2), by
    rw [List.map_map]
    exact map.ascending⟩

namespace Artifacts

/-- The artifacts without what is not hashed. -/
def hashedPart (artifacts : Artifacts) : Artifacts :=
  artifacts.mapValues Artifact.hashedPart

/-- What is not hashed, by key. -/
def unhashedPart (artifacts : Artifacts) :
    NameMap (List String × List String × Option Float) :=
  artifacts.mapValues Artifact.unhashedPart

/-- The characters whose bytes are hashed, but for the version. -/
def hashedChars (entries : List Build.Entry) : List Char :=
  entries.flatMap fun entry =>
    '\x00' :: entry.1.toList ++ '\x00' :: entry.2.content.toList

theorem hashed_eq (artifacts : Artifacts) :
    artifacts.hashed =
      Text.bytes (formatVersion ++ String.ofList (hashedChars artifacts.entries)) := by
  have hzero : String.utf8EncodeChar '\x00' = [0] := by decide
  rw [Text.bytes_append, hashed]
  congr 1
  rw [Text.bytes, String.toList_ofList, hashedChars, List.flatMap_assoc]
  congr 1
  funext entry
  simp [Text.bytes, hzero]

theorem hashed_hashedPart (artifacts : Artifacts) :
    artifacts.hashedPart.hashed = artifacts.hashed := by
  unfold hashed hashedPart NameMap.mapValues
  simp only [List.flatMap_map, Artifact.content_hashedPart]

theorem apart_hashedChars (entries : List Build.Entry) : Apart (hashedChars entries) := by
  cases entries with
  | nil => exact nofun
  | cons entry rest => exact apart_cons _

/-- Legible entries are cut out of the hashed characters one by one: a key and a
content both end where a zero character stands. -/
theorem hashedPart_of_hashedChars {first second : List Build.Entry}
    (hfirst : ∀ entry ∈ first, Legible entry) (hsecond : ∀ entry ∈ second, Legible entry)
    (h : hashedChars first = hashedChars second) :
    (first.map fun entry => (entry.1, entry.2.hashedPart)) =
      second.map fun entry => (entry.1, entry.2.hashedPart) := by
  induction first generalizing second with
  | nil =>
      cases second with
      | nil => rfl
      | cons other others => cases h
  | cons entry rest ih =>
      cases second with
      | nil => cases h
      | cons other others =>
          rw [List.forall_mem_cons] at hfirst hsecond
          have hchars : entry.1.toList ++
              ('\x00' :: (entry.2.content.toList ++ hashedChars rest)) =
                other.1.toList ++
                  ('\x00' :: (other.2.content.toList ++ hashedChars others)) := by
            simpa [hashedChars] using h
          obtain ⟨hkey, htail⟩ := hfirst.1.key.append_inj hsecond.1.key
            (apart_cons _) (apart_cons _) hchars
          obtain ⟨hcontent, hnext⟩ := hfirst.1.content.append_inj hsecond.1.content
            (apart_hashedChars rest) (apart_hashedChars others) (List.cons.inj htail).2
          rw [List.map_cons, List.map_cons, ih hfirst.2 hsecond.2 hnext, hkey,
            hfirst.1.hashedPart_eq hsecond.1 hkey hcontent]

theorem hashedPart_of_hashed {first second : Artifacts}
    (hfirst : ∀ entry ∈ first.entries, Legible entry)
    (hsecond : ∀ entry ∈ second.entries, Legible entry)
    (h : first.hashed = second.hashed) : first.hashedPart = second.hashedPart := by
  rw [hashed_eq, hashed_eq] at h
  have hchars := congrArg String.toList (Text.bytes_inj h)
  simp only [String.toList_append, String.toList_ofList] at hchars
  exact NameMap.eq_of_entries
    (hashedPart_of_hashedChars hfirst hsecond (List.append_cancel_left hchars))

theorem eq_of_parts {first second : Artifacts} (hhashed : first.hashedPart = second.hashedPart)
    (hrest : first.unhashedPart = second.unhashedPart) : first = second := by
  have hone := congrArg NameMap.entries hhashed
  have htwo := congrArg NameMap.entries hrest
  simp only [hashedPart, unhashedPart, NameMap.mapValues] at hone htwo
  refine NameMap.eq_of_entries ?_
  generalize first.entries = entries at hone htwo
  generalize second.entries = others at hone htwo
  induction entries generalizing others with
  | nil => exact (List.map_eq_nil_iff.mp hone.symm).symm
  | cons entry rest ih =>
      cases others with
      | nil => cases hone
      | cons other others =>
          simp only [List.map_cons, List.cons.injEq, Prod.mk.injEq] at hone htwo
          rw [ih others hone.2 htwo.2]
          congr 1
          exact Prod.ext hone.1.1 (Artifact.eq_of_parts hone.1.2 htwo.1.2)

end Artifacts

namespace Question

/-- Of two accepted questions, the hashed bytes are the same exactly if the
artifacts are the same but for inputs, walking orders and weights; the artifacts
are the same exactly if those are the same too. -/
theorem hashed_eq_iff {question other : Question} {ctx otherCtx : BuildContext}
    {compiled another : CompiledQuestion} {log otherLog : Log}
    (hregistry : ctx.registry.Clean) (hotherRegistry : otherCtx.registry.Clean)
    (h : question.compile ctx = ⟨some compiled, log⟩)
    (hother : other.compile otherCtx = ⟨some another, otherLog⟩) :
    (compiled.artifacts.hashed = another.artifacts.hashed ↔
      compiled.artifacts.hashedPart = another.artifacts.hashedPart) ∧
    (compiled.artifacts = another.artifacts ↔
      compiled.artifacts.hashed = another.artifacts.hashed ∧
        compiled.artifacts.unhashedPart = another.artifacts.unhashedPart) := by
  have hlegible := legible_entries hregistry h
  have hotherLegible := legible_entries hotherRegistry hother
  have hparts : compiled.artifacts.hashed = another.artifacts.hashed →
      compiled.artifacts.hashedPart = another.artifacts.hashedPart :=
    Artifacts.hashedPart_of_hashed hlegible hotherLegible
  refine ⟨⟨hparts, fun hsame => ?_⟩, fun hsame => ?_, fun hsame => ?_⟩
  · rw [← Artifacts.hashed_hashedPart compiled.artifacts, hsame,
      Artifacts.hashed_hashedPart]
  · rw [hsame]
    exact ⟨rfl, rfl⟩
  · exact Artifacts.eq_of_parts (hparts hsame.1) hsame.2

/-- A question with one scene whose variables read `ans1`. -/
def readingQuestion (inputs : List Input) : Question where
  name := "q"
  setup := ""
  stateVariables := []
  scenes := [⟨"s", "b: ans1", .empty, inputs, [], []⟩]
  entryScene := none

/-- The input that `readingQuestion` reads. -/
def firstAnswer : Input := ⟨"ans1", .algebraic, "1"⟩

/-- The inputs that the variables of the scene read. -/
def variableInputs (compiled : CompiledQuestion) : Option (List String) :=
  (compiled.artifacts.get? (Build.sceneKey "s" "variables")).map fun artifact =>
    artifact.unhashedPart.1

theorem readingQuestion_accepted :
    ((readingQuestion [firstAnswer]).compile plainContext).question.isSome = true ∧
      ((readingQuestion []).compile plainContext).question.isSome = true := by
  decide +kernel

/-- Both questions are accepted; they agree in what is hashed, and differ in an
input. -/
theorem readingQuestion_compiles :
    ∃ compiled another log otherLog,
      (readingQuestion [firstAnswer]).compile plainContext = ⟨some compiled, log⟩ ∧
      (readingQuestion []).compile plainContext = ⟨some another, otherLog⟩ ∧
      compiled.artifacts.hashed = another.artifacts.hashed ∧
      variableInputs compiled ≠ variableInputs another := by
  refine ⟨_, _, _, _, compile_eq_get readingQuestion_accepted.1,
    compile_eq_get readingQuestion_accepted.2, ?_⟩
  decide +kernel

/-- Two accepted questions of one hash with different artifacts. -/
theorem readingQuestion_shares_hash :
    ∃ compiled another log otherLog,
      (readingQuestion [firstAnswer]).compile plainContext = ⟨some compiled, log⟩ ∧
      (readingQuestion []).compile plainContext = ⟨some another, otherLog⟩ ∧
      compiled.artifacts.hashed = another.artifacts.hashed ∧
      compiled.artifacts ≠ another.artifacts := by
  obtain ⟨compiled, another, log, otherLog, hfirst, hsecond, hhashed, hinputs⟩ :=
    readingQuestion_compiles
  refine ⟨compiled, another, log, otherLog, hfirst, hsecond, hhashed, fun hsame => ?_⟩
  unfold variableInputs at hinputs
  rw [hsame] at hinputs
  exact hinputs rfl

theorem readingQuestion_hashed_eq_iff :
    ∃ compiled another log otherLog,
      (readingQuestion [firstAnswer]).compile plainContext = ⟨some compiled, log⟩ ∧
      (readingQuestion []).compile plainContext = ⟨some another, otherLog⟩ ∧
      plainContext.registry.Clean ∧
      compiled.artifacts.hashedPart = another.artifacts.hashedPart ∧
      compiled.artifacts.unhashedPart ≠ another.artifacts.unhashedPart := by
  obtain ⟨compiled, another, log, otherLog, hfirst, hsecond, hhashed, hinputs⟩ :=
    readingQuestion_compiles
  have hclean : plainContext.registry.Clean := Registry.clean_catalog
  have hiff := hashed_eq_iff hclean hclean hfirst hsecond
  refine ⟨compiled, another, log, otherLog, hfirst, hsecond, hclean, hiff.1.mp hhashed, ?_⟩
  intro hrest
  have hsame := hiff.2.mpr ⟨hhashed, hrest⟩
  unfold variableInputs at hinputs
  rw [hsame] at hinputs
  exact hinputs rfl

end Question

end SceneQuiz
