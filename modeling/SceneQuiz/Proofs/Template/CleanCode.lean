import SceneQuiz.Proofs.Expr.CleanWords
import SceneQuiz.Proofs.Template.Authored
/-!
The words of compiled templates are clean.  They come from code that was read,
from names that were checked, or from compilation itself; normal forms bring in
no others, and neither do inline templates.
-/

namespace SceneQuiz

open SceneQuiz.Expr

theorem Expr.labelled_clean : Labelled fun node => ∀ word ∈ node.words, CleanWord word where
  text text := (clean_str text).here
  call name hname args := by
    have hnames : ∀ name ∈ ["sconcat", "castext"], CleanWord name := by decide
    simpa [words] using hnames name hname
  list items := by simp [words]
  mapParts {e} change he := by
    cases e with
    | _ => exact he

namespace Emit

theorem cleanWord_loopStem (n : Nat) : CleanWord (loopStem n) :=
  CleanWord.append (by decide) (uncut_toString n)

theorem admits_clean : Admits 0 CleanWord fun node => ∀ word ∈ node.words, CleanWord word where
  literal := ⟨(clean_int 1).here, fun text => (clean_str text).here,
    fun truth => (clean_bool truth).here⟩
  ident hname := (clean_ident.mpr hname).here
  call name hname args := by
    have hcalled : ∀ name ∈ called, CleanWord name := by decide
    simpa [words] using hcalled name hname
  index _ _ := by simp [words]
  locals _ := by simp [words]
  group _ := by simp [words]
  assign _ _ := by simp [words]
  cond _ _ := by simp [words]
  forRange hvar _ _ _ _ := by simpa [words] using hvar
  saved := by decide
  helper n _ := by
    have hstem := cleanWord_loopStem n
    exact ⟨hstem.append (by decide), hstem.append (by decide), fun i =>
      (hstem.append (by decide)).append (uncut_toString i)⟩

end Emit

namespace Block

/-- A block whose author wrote clean code and binds clean names. -/
structure Sound (block : Block) : Prop where
  authored : ∀ e ∈ block.authored, e.Clean
  binders : ∀ name ∈ block.binders, CleanWord name

theorem sound_container {items : List Block} (h : ∀ item ∈ items, item.Sound) :
    (container items).Sound := by
  constructor
  · rw [Block.authored, authoredOfAll_eq]
    exact List.forall_mem_flatMap.mpr fun item hitem => (h item hitem).authored
  · rw [Block.binders, bindersOfAll_eq]
    exact List.forall_mem_flatMap.mpr fun item hitem => (h item hitem).binders

theorem sound_text (content : String) : (text content).Sound := ⟨nofun, nofun⟩

theorem sound_define {pairs : List (String × Expr)}
    (h : ∀ pair ∈ pairs, CleanWord pair.1 ∧ pair.2.Clean) : (define pairs).Sound :=
  ⟨List.forall_mem_map.mpr fun pair hpair => (h pair hpair).2,
    List.forall_mem_map.mpr fun pair hpair => (h pair hpair).1⟩

theorem sound_cond {branches : List (Expr × Block)} {otherwise : Option Block}
    (hbranches : ∀ branch ∈ branches, branch.1.Clean ∧ branch.2.Sound)
    (hotherwise : ∀ body ∈ otherwise, body.Sound) : (cond branches otherwise).Sound := by
  constructor
  · unfold Block.authored
    rw [authoredOfBranches_eq, List.forall_mem_append]
    constructor
    · refine List.forall_mem_flatMap.mpr fun branch hbranch => ?_
      exact List.forall_mem_cons.mpr
        ⟨(hbranches branch hbranch).1, (hbranches branch hbranch).2.authored⟩
    · cases otherwise with
      | some body => exact (hotherwise body rfl).authored
      | none => exact List.forall_mem_nil _
  · unfold Block.binders
    rw [bindersOfBranches_eq, List.forall_mem_append]
    constructor
    · exact List.forall_mem_flatMap.mpr fun branch hbranch => (hbranches branch hbranch).2.binders
    · cases otherwise with
      | some body => exact (hotherwise body rfl).binders
      | none => exact List.forall_mem_nil _

theorem sound_foreach {iterators : List (String × Expr)} {body : Block}
    (h : ∀ iterator ∈ iterators, CleanWord iterator.1 ∧ iterator.2.Clean)
    (hbody : body.Sound) : (foreach iterators body).Sound :=
  ⟨List.forall_mem_append.mpr
      ⟨List.forall_mem_map.mpr fun iterator hmem => (h iterator hmem).2, hbody.authored⟩,
    List.forall_mem_append.mpr
      ⟨List.forall_mem_map.mpr fun iterator hmem => (h iterator hmem).1, hbody.binders⟩⟩

theorem sound_indexing (style : IndexStyle) {start : Expr} {body : Block}
    (hstart : start.Clean) (hbody : body.Sound) : (indexing style start body).Sound :=
  ⟨List.forall_mem_cons.mpr ⟨hstart, hbody.authored⟩, hbody.binders⟩

theorem sound_index : index.Sound := ⟨nofun, nofun⟩

theorem sound_reveal (input : String) {value : Expr} {body : Block} (hvalue : value.Clean)
    (hbody : body.Sound) : (reveal input value body).Sound :=
  ⟨List.forall_mem_cons.mpr ⟨hvalue, hbody.authored⟩, hbody.binders⟩

theorem sound_lang (codes : List String) {body : Block} (hbody : body.Sound) :
    (lang codes body).Sound :=
  ⟨hbody.authored, hbody.binders⟩

end Block

namespace Reading

theorem clean_expr (source : String) (position : Position) :
    ∀ e ∈ (expr source position).value, e.Clean := by
  unfold expr
  split
  · next e he =>
      intro found hfound
      cases hfound
      exact Expr.clean_of_parse he
  · exact nofun
  · exact nofun

theorem clean_pairs (block : String) (position : Position) (attributes : List Attribute) :
    ∀ pair ∈ (pairs block position attributes).value,
      CleanWord pair.1 ∧ pair.2.Clean := by
  induction attributes with
  | nil => exact List.forall_mem_nil _
  | cons given rest ih =>
      unfold pairs
      split
      · next hname =>
          have hvalue := clean_expr given.value position
          simp only [Checked.value_bind, Checked.value_pure]
          refine List.forall_mem_append.mpr ⟨List.forall_mem_map.mpr fun e he => ?_, ih⟩
          exact ⟨cleanWord_of_isName hname, hvalue e (Option.mem_toList.mp he)⟩
      · exact ih

theorem cleanWord_of_keyOf? {e : Expr} (he : e.Clean) : ∀ key ∈ keyOf? e, CleanWord key := by
  intro key hkey
  unfold keyOf? at hkey
  split at hkey
  · next left right =>
      cases left with
      | ident name =>
          cases hkey
          exact Expr.clean_ident.mp (Expr.clean_binary.mp he).1
      | _ => cases hkey
  · cases hkey

theorem sound_injection (mode : InjectMode) (source : String) (site : Site) :
    (injection mode source site).value.Sound := by
  unfold injection
  split
  · exact Block.sound_text ""
  · exact Block.sound_text ""
  · next statement hstatement =>
      have hexpr := (Fragment.clean_of_parse hstatement statement List.mem_cons_self).1
      refine ⟨by simpa [Block.authored] using hexpr, fun key hkey => ?_⟩
      exact cleanWord_of_keyOf? hexpr key (Option.mem_toList.mp hkey)
  · exact Block.sound_text ""

theorem sound_container {blocks : List Block} (h : ∀ block ∈ blocks, block.Sound) :
    (container blocks).Sound :=
  Block.sound_container fun block hblock => h block (List.mem_filter.mp hblock).1

variable {body : Checked Block}

/-- An expression that may be left out, in a block with a body. -/
theorem sound_optional {build : Expr → Block → Block} {default : Expr}
    (hdefault : default.Clean)
    (hbuild : ∀ e block, e.Clean → block.Sound → (build e block).Sound)
    (source : Option String) (position : Position) (hbody : body.value.Sound) :
    (do
      let e ← match source with
        | some source => expr source position
        | none => pure none
      return build (e.getD default) (← body) : Checked Block).value.Sound := by
  cases source with
  | none => exact hbuild _ _ hdefault hbody
  | some source =>
      exact hbuild _ _ (Expr.clean_getD (clean_expr source position) hdefault) hbody

theorem sound_indexing (params : List Attribute) (position : Position)
    (hbody : body.value.Sound) : (indexing params position body).value.Sound :=
  sound_optional (Expr.clean_int 1) (fun _ _ => Block.sound_indexing _) _ position hbody

theorem sound_reveal (inputs : List String) (params : List Attribute) (position : Position)
    (hbody : body.value.Sound) : (reveal inputs params position body).value.Sound := by
  have hrest := fun name => sound_optional (Expr.clean_bool false)
    (fun _ _ => Block.sound_reveal name) (neededParam "reveal" params "value" position).value
    position hbody
  unfold reveal
  rw [Checked.value_bind]
  split
  · split
    · exact hrest _
    · exact hrest _
  · exact hrest _

theorem sound_named (inputs : List String) (insideIndexing : Bool) (name : String)
    (params : List Attribute) (position : Position) (hbody : body.value.Sound) :
    (named inputs insideIndexing name params position body).value.Sound := by
  unfold named
  split
  · exact Block.sound_text ""
  · simp only [Checked.value_bind]
    split
    · exact sound_indexing params position hbody
    · split
      · split <;> exact Block.sound_index
      · split
        · exact sound_reveal inputs params position hbody
        · exact Block.sound_lang _ hbody

end Reading

mutual

/-- A template is read to sound blocks, by the cases of its nodes. -/
theorem Node.sound_read (inputs : List String) (node : Node) (insideIndexing : Bool) :
    (node.read inputs insideIndexing).value.Sound :=
  match node with
  | .root _ children =>
      Reading.sound_container (Node.sound_readAll inputs children insideIndexing)
  | .raw _ text => Block.sound_text text
  | .escape _ value => Block.sound_text value
  | .comment _ _ => Block.sound_text ""
  | .inject site mode expression => Reading.sound_injection mode expression site
  | .define site bindings => Block.sound_define (Reading.clean_pairs _ site.position bindings)
  | .cond _ branches => by
      have harms := Node.sound_readBranches inputs branches insideIndexing true none nofun
      unfold Node.read
      rw [Checked.value_bind]
      split <;> exact Block.sound_cond harms.1 harms.2
  | .foreach site iterators children => by
      have hchildren := Node.sound_readAll inputs children insideIndexing
      have hloop := Block.sound_foreach (Reading.clean_pairs "foreach" site.position iterators)
        (Reading.sound_container hchildren)
      unfold Node.read
      split <;> exact hloop
  | .named site name params children =>
      Reading.sound_named inputs insideIndexing name params site.position
        (Reading.sound_container (Node.sound_readAll inputs children
          (insideIndexing || name == "indexing")))
termination_by structural node

theorem Node.sound_readAll (inputs : List String) (nodes : List Node)
    (insideIndexing : Bool) :
    ∀ block ∈ (Node.readAll inputs nodes insideIndexing).value, block.Sound :=
  match nodes with
  | [] => List.forall_mem_nil _
  | node :: rest =>
      List.forall_mem_cons.mpr ⟨node.sound_read inputs insideIndexing,
        Node.sound_readAll inputs rest insideIndexing⟩
termination_by structural nodes

theorem Node.sound_readBranches (inputs : List String) (branches : List (Branch Node))
    (insideIndexing isFirst : Bool) (otherwise : Option Block)
    (hotherwise : ∀ body ∈ otherwise, body.Sound) :
    (∀ branch ∈ (Node.readBranches inputs branches insideIndexing isFirst otherwise).value.1,
      branch.1.Clean ∧ branch.2.Sound) ∧
    ∀ body ∈ (Node.readBranches inputs branches insideIndexing isFirst otherwise).value.2,
      body.Sound :=
  match branches with
  | [] => ⟨List.forall_mem_nil _, hotherwise⟩
  | ⟨some condition, children, position⟩ :: rest => by
      have hbody := Reading.sound_container
        (Node.sound_readAll inputs children insideIndexing)
      have hrest := Node.sound_readBranches inputs rest insideIndexing false otherwise
        hotherwise
      have hfirst : ∀ branch ∈ (Reading.expr condition position).value.toList.map fun e =>
          (e, Reading.container (Node.readAll inputs children insideIndexing).value),
          branch.1.Clean ∧ branch.2.Sound :=
        List.forall_mem_map.mpr fun e he =>
          ⟨Reading.clean_expr condition position e (Option.mem_toList.mp he), hbody⟩
      unfold Node.readBranches
      split <;> exact ⟨List.forall_mem_append.mpr ⟨hfirst, hrest.1⟩, hrest.2⟩
  | ⟨none, children, position⟩ :: rest => by
      have hbody := Reading.sound_container
        (Node.sound_readAll inputs children insideIndexing)
      have hrest := Node.sound_readBranches inputs rest insideIndexing false
        (some (Reading.container (Node.readAll inputs children insideIndexing).value))
        (fun body heq => Option.some.inj heq ▸ hbody)
      unfold Node.readBranches
      split <;> exact hrest
termination_by structural branches

end

theorem TemplateContext.sound_blockOf {ctx : TemplateContext} {template : Template}
    {block : Block} (h : ctx.blockOf template = .ok block) : block.Sound := by
  unfold blockOf Node.toBlock at h
  obtain ⟨-, rfl⟩ := Checked.result_eq_ok_iff.mp h
  exact Node.sound_read _ _ _

/-- The code of a compiled template is clean. -/
theorem Template.clean_compile {template : Template} {ctx : TemplateContext}
    {compiled : CompiledTemplate} (h : template.compile ctx = .ok compiled) :
    compiled.expr.Clean := by
  obtain ⟨normal, hnormal, hexpr⟩ := TemplateContext.exists_everywhere Expr.labelled_clean
    Emit.admits_clean (fun he => Expr.writesClean he) (compileWith_of_compile h) fun block hblock => by
      obtain ⟨inline, hinline⟩ := TemplateContext.exists_blockOf hblock
      have hsound := TemplateContext.sound_blockOf hinline
      exact ⟨hsound.authored, hsound.binders⟩
  rw [hexpr]
  exact TemplateContext.everywhere_localizeWrites Emit.admits_clean
    (fun he => Expr.writesClean he) hnormal

end SceneQuiz
