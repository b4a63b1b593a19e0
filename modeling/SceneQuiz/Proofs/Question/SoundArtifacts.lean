import SceneQuiz.Proofs.Expr.Sealed
import SceneQuiz.Proofs.Question.Accepted
import SceneQuiz.Proofs.ResponseTree.CleanCode
/-!
Artifacts as compilation makes them, whatever it reports.  The name of a function
tells whether it judges responses, and its code can be told from what follows it
as long as the name can.
-/

namespace SceneQuiz

theorem sealed_intercalate {names : List String} (h : ∀ name ∈ names, CleanWord name) :
    Sealed (",".intercalate names) := by
  induction names with
  | nil => decide
  | cons name rest ih =>
      rw [List.forall_mem_cons] at h
      have hname := Sealed.of_cleanWord h.1
      cases rest with
      | nil => simpa using hname
      | cons other rest =>
          rw [String.intercalate_cons_cons]
          exact (hname.append (by decide)).append (ih h.2)

/-- The name of a function that judges responses. -/
def isTreeName (name : String) : Bool := "%_prt_".toList.isPrefixOf name.toList

namespace Artifact

/-- An artifact whose function tells its kind, and whose code can be told from
what follows it if the name of the function can. -/
def Sound : Artifact → Prop
  | .function name code _ => isTreeName name = false ∧ (CleanWord name → Sealed code)
  | .tree name code _ _ _ => isTreeName name = true ∧ (CleanWord name → Sealed code)
  | .keys names => ∀ name ∈ names, CleanWord name

theorem Sound.sealed {artifact : Artifact} (h : artifact.Sound)
    (hname : ∀ name ∈ artifact.functionName?, CleanWord name) : Sealed artifact.content := by
  cases artifact with
  | function name code _ | tree name code _ _ _ => exact h.2 (hname name rfl)
  | keys names => exact sealed_intercalate h

end Artifact

namespace Build

open Logged (Yields)

variable {ctx : BuildContext} {question : Question}

/-- Entries whose artifacts are sound. -/
def AllSound (entries : List Entry) : Prop := ∀ entry ∈ entries, entry.2.Sound

theorem AllSound.append {entries others : List Entry} (h : AllSound entries)
    (hothers : AllSound others) : AllSound (entries ++ others) :=
  List.forall_mem_append.mpr ⟨h, hothers⟩

theorem sound_function {name : String} (hname : isTreeName name = false) {body : Expr}
    (hbody : body.Clean) (inputs : List String) : (function name body inputs).Sound :=
  ⟨hname, fun hclean => Expr.sealed_print (Expr.clean_defineFunction.mpr ⟨hclean, hbody⟩)⟩

theorem allSound_function (key : String) {name : String} (hname : isTreeName name = false)
    {body : Expr} (hbody : body.Clean) (inputs : List String) :
    AllSound [(key, function name body inputs)] :=
  List.forall_mem_cons.mpr ⟨sound_function hname hbody inputs, List.forall_mem_nil _⟩

theorem clean_flagged {statement : Statement} (hexpr : statement.expr.Clean)
    (hvalues : ∀ flag ∈ statement.flags, ∀ value ∈ flag.value, value.Clean) :
    (flagged statement).Clean := by
  have hsaved : CleanWord "%_s" := by decide
  have hsimp : CleanWord "simp" := by decide
  unfold flagged
  split
  · exact hexpr
  · next flag hflag =>
      have hvalue := Expr.clean_getD
        (hvalues flag (List.mem_of_find?_eq_some hflag)) (Expr.clean_bool true)
      simp [hsaved, hsimp, hexpr, hvalue]

theorem clean_statements {fragment : Fragment} (h : Fragment.Clean fragment) :
    (statements fragment).Clean := by
  refine Expr.clean_group.mpr (List.forall_mem_append.mpr ⟨?_, by simp⟩)
  exact List.forall_mem_map.mpr fun statement hstatement =>
    clean_flagged (h statement hstatement).1 (h statement hstatement).2

theorem yields_setup (key : String) {name : String} (hname : isTreeName name = false)
    (source : String) (inputs : List String) (path : Locator) :
    Yields (setup key name source inputs path) fun result =>
      AllSound result.1 ∧ result.2.WritesClean := by
  refine (Yields.fragment? source path fun _ => Fragment.clean_of_parse).bind
    fun found hfound => ?_
  cases found with
  | none => exact .of_pure ⟨List.forall_mem_nil _, .empty⟩
  | some fragment =>
      have hclean := hfound fragment rfl
      exact .of_pure ⟨allSound_function key hname (clean_statements hclean) inputs,
        Fragment.writesClean hclean⟩

theorem yields_initialValues (index : Nat) (slots : List StateVariable) :
    Yields (initialValues index slots) fun values =>
      ∀ entry ∈ values, ∀ e ∈ entry.2, e.Clean := by
  induction slots generalizing index with
  | nil => exact .of_pure (List.forall_mem_nil _)
  | cons slot rest ih =>
      refine (Yields.expr? _ _ fun _ => Expr.clean_of_parse).bind fun value hvalue => ?_
      exact (ih (index + 1)).bind fun others hothers =>
        .of_pure (List.forall_mem_cons.mpr ⟨hvalue, hothers⟩)

theorem sound_stateInit {values : List (StateVariable × Option Expr)}
    (h : ∀ entry ∈ values, ∀ e ∈ entry.2, e.Clean) : AllSound [stateInit values] := by
  refine allSound_function "state-init" (by decide) (Expr.clean_list.mpr ?_) []
  intro pair hpair
  obtain ⟨entry, hentry, hvalue⟩ := List.mem_filterMap.mp hpair
  obtain ⟨value, hfound, rfl⟩ := Option.map_eq_some_iff.mp hvalue
  simp [h entry hentry value hfound]

theorem yields_text (key : String) {name : String} (hname : isTreeName name = false)
    (template : Template) (inputs : List String) (path : Locator) :
    Yields (text ctx key name template inputs path) AllSound := by
  unfold text
  split
  · next compiled hcompiled =>
      exact .of_pure (allSound_function key hname (Template.clean_compile hcompiled) inputs)
  · exact .after fun _ => .of_pure (List.forall_mem_nil _)

theorem isTreeName_scene (scene rest : String) :
    isTreeName ("%_scene_" ++ scene ++ rest) = false := by
  simp [isTreeName, List.isPrefixOf]

theorem yields_boxes (scene : String) (path : Locator) (index : Nat)
    (items : List ValidationBox) : Yields (boxes ctx scene path index items) AllSound := by
  induction items generalizing index with
  | nil => exact .of_pure (List.forall_mem_nil _)
  | cons box rest ih =>
      unfold boxes
      cases box.text with
      | none => exact (ih (index + 1)).bind fun others hothers => .of_pure hothers
      | some template =>
          have hname : isTreeName ("%_scene_" ++ scene ++ "_vbox_" ++ box.name) = false := by
            rw [String.append_assoc]
            exact isTreeName_scene scene _
          refine (yields_text _ hname template _ _).bind fun entries hentries => ?_
          exact (ih (index + 1)).bind fun others hothers =>
            .of_pure (hentries.append hothers)

theorem isTreeName_tree (scene tree : String) :
    isTreeName (ResponseTree.functionName scene tree) = true := by
  simp [isTreeName, ResponseTree.functionName, List.isPrefixOf]

theorem yields_trees {ctx : TreeContext} (hregistry : ctx.registry.Clean) (path : Locator)
    (index : Nat) (items : List ResponseTree) :
    Yields (trees ctx path index items) AllSound := by
  induction items generalizing index with
  | nil => exact .of_pure (List.forall_mem_nil _)
  | cons tree rest ih =>
      unfold trees
      have hcompiled := @ResponseTree.clean_compile ctx hregistry tree
      cases hrun : tree.compile ctx with
      | mk found log =>
          rw [hrun] at hcompiled
          refine .after fun _ => (ih (index + 1)).bind fun others hothers => .of_pure ?_
          refine AllSound.append (List.forall_mem_map.mpr fun compiled hmem => ?_) hothers
          obtain ⟨hname, hclean⟩ := hcompiled (Option.mem_toList.mp hmem)
          refine ⟨?_, fun hword => Expr.sealed_print (hclean hword)⟩
          rw [hname]
          exact isTreeName_tree ctx.scene tree.name

theorem yields_scene (hregistry : ctx.registry.Clean) (layers : Layers) (index : Nat)
    (item : Scene) :
    Yields (scene ctx question layers index item) fun result =>
      AllSound result.1 ∧ result.2.Clean := by
  unfold scene
  refine (yields_setup _ (isTreeName_scene _ _) _ _ _).bind fun code hcode => ?_
  obtain ⟨entries, usage⟩ := code
  refine .after fun _ => ?_
  refine (yields_text _ (isTreeName_scene _ _) _ _ _).bind fun shown hshown => ?_
  refine (yields_boxes _ _ _ _).bind fun boxed hboxed => ?_
  have hwritten : usage.write.owned.Clean := NameSet.Clean.filter hcode.2 _
  have hentries := (hcode.1.append hshown).append hboxed
  dsimp only
  split
  · refine (yields_trees hregistry _ _ _).bind fun judged hjudged => .of_pure ?_
    exact ⟨hentries.append hjudged, hwritten⟩
  · exact .of_pure ⟨hentries.append (List.forall_mem_nil _), hwritten⟩

theorem yields_scenes (hregistry : ctx.registry.Clean) (layers : Layers) (index : Nat)
    (items : List Scene) :
    Yields (scenes ctx question layers index items) fun result =>
      AllSound result.1 ∧ result.2.Clean := by
  induction items generalizing index with
  | nil => exact .of_pure ⟨List.forall_mem_nil _, .empty⟩
  | cons item rest ih =>
      unfold scenes
      refine (yields_scene hregistry layers index item).bind fun first hfirst => ?_
      refine (ih (index + 1)).bind fun others hothers => .of_pure ?_
      exact ⟨hfirst.1.append hothers.1, hfirst.2.union hothers.2⟩

end Build

theorem NameMap.mem_insertEntry {α : Type} {name : String} {value : α}
    {entries : List (String × α)} {entry : String × α}
    (h : entry ∈ insertEntry name value entries) :
    entry = (name, value) ∨ entry ∈ entries := by
  induction entries with
  | nil => exact .inl (List.mem_singleton.mp h)
  | cons first rest ih =>
      obtain ⟨key, old⟩ := first
      unfold insertEntry at h
      split at h
      · exact List.mem_cons.mp h
      · split at h
        · exact (List.mem_cons.mp h).imp_right (List.mem_cons_of_mem _)
        · rcases List.mem_cons.mp h with rfl | hmem
          · exact .inr List.mem_cons_self
          · exact (ih hmem).imp_right (List.mem_cons_of_mem _)

theorem NameMap.mem_of_mem_ofList {α : Type} {entries : List (String × α)}
    {entry : String × α} (h : entry ∈ (ofList entries).entries) : entry ∈ entries := by
  have hfold : ∀ (list : List (String × α)) (start : NameMap α),
      entry ∈ (list.foldl (fun map next => map.insert next.1 next.2) start).entries →
        entry ∈ start.entries ∨ entry ∈ list := by
    intro list
    induction list with
    | nil => exact fun _ hmem => .inl hmem
    | cons first rest ih =>
        intro start hmem
        rcases ih _ hmem with hstart | hrest
        · rcases mem_insertEntry hstart with rfl | hbefore
          · exact .inr List.mem_cons_self
          · exact .inl hbefore
        · exact .inr (List.mem_cons_of_mem _ hrest)
  exact (hfold entries empty h).resolve_left List.not_mem_nil

theorem Question.yields_build {ctx : BuildContext} (hregistry : ctx.registry.Clean)
    {question : Question} (hstate : question.stateNames.Clean) :
    Logged.Yields (question.build ctx) fun artifacts =>
      Build.AllSound artifacts.entries := by
  refine .after fun _ => ?_
  refine (Build.yields_setup "qv" (by decide) _ _ _).bind fun code hcode => ?_
  refine (Build.yields_initialValues _ _).bind fun values hvalues => ?_
  refine .after fun _ => ?_
  refine (Build.yields_scenes hregistry _ _ _).bind fun parts hparts => .of_pure ?_
  have hforbidden : ((code.2.write.owned ∪ question.stateNames) ∪ parts.2).Clean :=
    ((NameSet.Clean.filter hcode.2 _).union hstate).union hparts.2
  have hall := ((hcode.1.append (Build.sound_stateInit hvalues)).append hparts.1).append
    (show Build.AllSound [("forbiddenkeys", .keys _)] from
      List.forall_mem_cons.mpr ⟨hforbidden, List.forall_mem_nil _⟩)
  exact fun entry hentry => hall entry (NameMap.mem_of_mem_ofList hentry)

end SceneQuiz
