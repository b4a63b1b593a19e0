import SceneQuiz.Proofs.Template.EmittedForm
/-!
Code of templates under a restraint.  Normal forms of restrained code are
restrained, and so is the code of a template if what its authors wrote is, in
the template itself and in those that it inlines.
-/

namespace SceneQuiz

namespace Expr

variable {rule : Restraint} {caught : Bool}

namespace Restrained

/-- What the rule for nodes says, for code that no other rule is about. -/
theorem of_open {e : Expr} (h : e.Restrained rule caught) (he : e.isOpen = true) :
    ∀ part ∈ e.children, part.Restrained rule caught := by
  cases h with
  | node _ hparts => exact hparts
  | quote | assign | define => cases he
  | leave | block | bare => simp [isOpen] at he
  | flagged => simp [isOpen, Expr.flagged, Expr.block] at he

theorem of_assign {left right : Expr}
    (h : (Expr.binary .assign left right).Restrained rule caught) :
    right.Restrained rule caught := by
  cases h with
  | node he => cases he
  | assign _ hsource => exact hsource

theorem str (text : String) : (Expr.str text).Restrained rule caught := .node rfl nofun

end Restrained

theorem composed_restrained (rule : Restraint) (caught : Bool) :
    Concat.Composed (Restrained rule caught) where
  text := .str
  sconcat := ⟨fun h => h.of_open rfl, fun h => .node rfl h⟩
  list := ⟨fun h => h.of_open rfl, fun h => .node rfl h⟩

/-- A declaration of a block: the value of a local, or code like any other. -/
structure RestrainedLocal (rule : Restraint) (caught : Bool) (e : Expr) : Prop where
  value : ∀ left right, e = .binary .assign left right → right.Restrained rule caught
  other : (∀ left right, e ≠ .binary .assign left right) → e.Restrained rule caught

namespace RestrainedLocal

theorem of_restrained {e : Expr} (h : e.Restrained rule caught) :
    e.RestrainedLocal rule caught := by
  refine ⟨?_, fun _ => h⟩
  rintro left right rfl
  exact h.of_assign

theorem assign (left : Expr) {right : Expr} (h : right.Restrained rule caught) :
    (Expr.binary .assign left right).RestrainedLocal rule caught := by
  refine ⟨?_, fun hother => absurd rfl (hother left right)⟩
  rintro _ _ ⟨⟩
  exact h

/-- Lists that are taken apart in a normal form. -/
theorem tagged {items : List Expr} (h : ∀ e ∈ items, e.RestrainedLocal rule caught) :
    ∃ others, Concat.tagged items = .list others ∧
      ∀ e ∈ others, e.RestrainedLocal rule caught := by
  have hparts : ∀ e ∈ items, ∀ part ∈ e.rootParts, part.RestrainedLocal rule caught := by
    intro e he part hpart
    by_cases hassign : ∃ left right, e = .binary .assign left right
    · obtain ⟨left, right, rfl⟩ := hassign
      rw [Concat.rootParts_other (by simp), List.mem_singleton] at hpart
      rw [hpart]
      exact h _ he
    · have hrestrained := (h e he).other fun left right heq => hassign ⟨left, right, heq⟩
      exact of_restrained ((composed_restrained rule caught).rootParts hrestrained part hpart)
  unfold Concat.tagged
  split
  · next tag rest =>
      split
      · refine ⟨_, rfl, List.forall_mem_cons.mpr ⟨of_restrained (.str tag), ?_⟩⟩
        intro part hpart
        rcases Concat.mem_mergeTexts hpart with hmem | ⟨text, rfl⟩
        · rw [Concat.rootPartsOfAll_eq] at hmem
          obtain ⟨e, he, hinside⟩ := List.mem_flatMap.mp hmem
          exact hparts e (List.mem_cons_of_mem _ he) part hinside
        · exact of_restrained (.str text)
      · exact ⟨_, rfl, h⟩
  · exact ⟨_, rfl, h⟩

end RestrainedLocal

theorem Restrained.of_locals {declarations body : List Expr}
    (hlocals : ∀ e ∈ declarations, e.RestrainedLocal rule caught)
    (hbody : ∀ part ∈ body, part.Restrained rule true) :
    (Expr.call "block" (.list declarations :: body)).Restrained rule caught :=
  .block (fun left right hmem => (hlocals _ hmem).value left right rfl)
    (fun e he hother => (hlocals e he).other hother) hbody

theorem isOpen_mapParts (change : Expr → Expr) (e : Expr) :
    (e.mapParts change).isOpen = e.isOpen := by
  cases e <;> rfl

end Expr

/-- The code of a flagged injection is changed in its value only. -/
theorem Emit.Partwise.flagged {change : Expr → Expr} (h : Partwise change) (flag : Bool)
    (value : Expr) : change (.flagged flag value) = .flagged flag (change value) := by
  unfold Expr.flagged
  rw [h.block (by simp [Expr.assign, Expr.isLocal])]
  simp [h.assign, h.ident, h.bool]

namespace Expr

variable {rule : Restraint} {caught : Bool} {limit : Nat}

theorem RestrainedLocal.change {change : Expr → Expr} (hchange : Emit.Partwise change) {e : Expr}
    (hvalue : ∀ left right, e = .binary .assign left right →
      (change right).Restrained rule caught)
    (hother : (∀ left right, e ≠ .binary .assign left right) →
      (change e).Restrained rule caught) : (change e).RestrainedLocal rule caught := by
  by_cases hassign : ∃ left right, e = .binary .assign left right
  · obtain ⟨left, right, rfl⟩ := hassign
    rw [hchange.binary]
    exact .assign _ (hvalue left right rfl)
  · exact .of_restrained (hother fun left right heq => hassign ⟨left, right, heq⟩)

theorem exists_list_of_foldConcats {e : Expr} {items : List Expr}
    (h : e.foldConcats limit = .list items) : ∃ others, e = .list others := by
  rcases foldConcats_cases limit e with hform | ⟨_, _, _, rfl, hform⟩
  · cases e <;> cases hform.symm.trans h
    exact ⟨_, rfl⟩
  · cases hform.symm.trans h

/-- By induction on how the code is restrained. -/
theorem Restrained.foldConcats {e : Expr} (h : e.Restrained rule caught) :
    (e.foldConcats limit).Restrained rule caught := by
  induction h with
  | node he _ ih =>
      rw [foldConcats_eq]
      apply (composed_restrained rule _).shortened
      apply Restrained.node ((isOpen_mapParts _ _).trans he)
      rw [children_mapParts]
      exact List.forall_mem_map.mpr ih
  | quote operand => exact .quote _
  | assign htarget _ ih =>
      rw [(Emit.partwise_foldConcats limit).binary]
      exact .assign (fun name heq => htarget name (eq_ident_of_foldConcats heq)) ih
  | define target _ ih => exact .define _ ih
  | leave _ ih =>
      rw [foldConcats_eq]
      exact .leave (List.forall_mem_map.mpr ih)
  | block _ _ _ ihvalues ihothers ihbody =>
      rw [(Emit.partwise_foldConcats limit).call _ (by decide) (by decide), List.map_cons,
        foldConcats_eq limit (.list _)]
      apply Restrained.of_locals _ (List.forall_mem_map.mpr ihbody)
      refine List.forall_mem_map.mpr fun e he => ?_
      apply RestrainedLocal.change (Emit.partwise_foldConcats limit)
      · rintro left right rfl
        exact ihvalues left right he
      · exact ihothers e he
  | bare hbare _ ih =>
      rw [(Emit.partwise_foldConcats limit).call _ (by decide) (by decide)]
      refine .bare (fun declarations body heq => ?_) (List.forall_mem_map.mpr ih)
      obtain ⟨first, rest, rfl, hfirst, -⟩ := List.map_eq_cons_iff.mp heq
      obtain ⟨others, rfl⟩ := exists_list_of_foldConcats hfirst
      exact hbare others rest rfl
  | flagged hsaved hresult hflag _ ih =>
      rw [(Emit.partwise_foldConcats limit).flagged]
      exact .flagged hsaved hresult hflag ih

section Merging

variable {expand : String → Except TemplateIssue Expr}

/-- The inline templates in code stand for code that is restrained on its own. -/
def RestrainedInlines (expand : String → Except TemplateIssue Expr) (rule : Restraint)
    (e : Expr) : Prop :=
  ∀ (arg inlined : Expr) (source : String), Expr.call "castext" [arg] ∈ e.parts →
    arg.mergedForm expand = .str source → expand source = .ok inlined →
      inlined.Restrained rule false ∧ ∀ name, inlined ≠ .ident name

theorem RestrainedInlines.inside {e part : Expr} (h : e.RestrainedInlines expand rule)
    (hpart : part ∈ e.parts) : part.RestrainedInlines expand rule :=
  fun arg inlined source hcall => h arg inlined source (mem_parts_trans hcall hpart)

/-- An inline call that is not expanded stays. -/
theorem RestrainedInlines.call {args : List Expr}
    (h : (Expr.call "castext" args).RestrainedInlines expand rule) :
    (Expr.call "castext" args).mergedForm expand =
        .call "castext" (args.map (Expr.mergedForm expand)) ∨
      ∃ inlined, (Expr.call "castext" args).mergedForm expand = Concat.settle inlined ∧
        inlined.Restrained rule false ∧ ∀ name, inlined ≠ .ident name := by
  rcases mergedForm_castext args with
    hform | ⟨arg, source, inlined, rfl, hsource, hexpand, hform⟩
  · exact .inl hform
  · exact .inr ⟨inlined, hform, h arg inlined source (mem_parts_self _) hsource hexpand⟩

theorem RestrainedInlines.eq_ident {e : Expr} {name : String}
    (h : e.RestrainedInlines expand rule) (hname : e.mergedForm expand = .ident name) :
    e = .ident name := by
  by_cases hcastext : ∃ args, e = .call "castext" args
  · obtain ⟨args, rfl⟩ := hcastext
    rcases h.call with hform | ⟨inlined, hform, -, hunnamed⟩
    · cases hform.symm.trans hname
    · exact absurd (eq_ident_of_settle (hform.symm.trans hname)) (hunnamed name)
  · exact eq_ident_of_mergedForm hname fun args heq => hcastext ⟨args, heq⟩

/-- What becomes a list was one, or stands for code that is restrained. -/
theorem RestrainedInlines.list_cases {e : Expr} {items : List Expr}
    (h : e.RestrainedInlines expand rule) (hlist : e.mergedForm expand = .list items) :
    (∃ others, e = .list others) ∨ (Expr.list items).Restrained rule false := by
  by_cases hcastext : ∃ args, e = .call "castext" args
  · obtain ⟨args, rfl⟩ := hcastext
    rcases h.call with hform | ⟨inlined, hform, hrestrained, -⟩
    · cases hform.symm.trans hlist
    · right
      rw [← hlist, hform]
      exact (composed_restrained rule false).settle hrestrained
  · left
    rw [mergedForm_eq expand fun args heq => hcastext ⟨args, heq⟩] at hlist
    cases e with
    | list others => exact ⟨others, rfl⟩
    | call name args =>
        simp only [mapParts, Concat.settle] at hlist
        split at hlist
        · have htext := yieldsText_concatenation (args.map (Expr.mergedForm expand))
          rw [hlist] at htext
          cases htext
        · cases hlist
    | _ => cases hlist

/-- By induction on how the code is restrained. -/
theorem Restrained.mergedForm {e : Expr} (h : e.Restrained rule caught)
    (hinline : e.RestrainedInlines expand rule) :
    (e.mergedForm expand).Restrained rule caught := by
  induction h with
  | @node caught e he _ ih =>
      have hparts : ∀ child ∈ e.children, (child.mergedForm expand).Restrained rule caught :=
        fun child hchild => ih child hchild (hinline.inside (mem_parts_child hchild))
      by_cases hcastext : ∃ args, e = .call "castext" args
      · obtain ⟨args, rfl⟩ := hcastext
        rcases hinline.call with hform | ⟨inlined, hform, hrestrained, -⟩
        · rw [hform]
          exact .node rfl (List.forall_mem_map.mpr hparts)
        · rw [hform]
          exact (composed_restrained rule caught).settle (hrestrained.mono nofun)
      · rw [mergedForm_eq expand fun args heq => hcastext ⟨args, heq⟩]
        apply (composed_restrained rule caught).settle
        apply Restrained.node ((isOpen_mapParts _ _).trans he)
        rw [children_mapParts]
        exact List.forall_mem_map.mpr hparts
  | quote operand => exact .quote _
  | assign htarget _ ih =>
      rw [(Emit.partwise_mergedForm expand).binary]
      obtain ⟨hleft, hright⟩ := (forall_children_two rfl).mp fun part hpart =>
        hinline.inside (mem_parts_child hpart)
      exact .assign (fun name heq => htarget name (hleft.eq_ident heq)) (ih hright)
  | define target _ ih =>
      rw [(Emit.partwise_mergedForm expand).binary]
      exact .define _ (ih (hinline.inside (mem_parts_child (by simp [children]))))
  | leave _ ih =>
      rw [mergedForm_eq expand (by simp)]
      exact .leave (List.forall_mem_map.mpr fun arg harg =>
        ih arg harg (hinline.inside (mem_parts_child harg)))
  | @block caught declarations body _ _ _ ihvalues ihothers ihbody =>
      have hlocal : ∀ e ∈ declarations, e ∈
          (Expr.call "block" (.list declarations :: body)).parts := fun e he =>
        mem_parts_of_child (List.mem_cons_self ..) (mem_parts_child he)
      have hlocals : ∀ e ∈ declarations.map (Expr.mergedForm expand),
          e.RestrainedLocal rule caught := by
        refine List.forall_mem_map.mpr fun e he => ?_
        apply RestrainedLocal.change (Emit.partwise_mergedForm expand)
        · rintro left right rfl
          apply ihvalues left right he
          exact hinline.inside
            (mem_parts_trans (mem_parts_child (by simp [children])) (hlocal _ he))
        · exact fun hother => ihothers e he hother (hinline.inside (hlocal e he))
      obtain ⟨others, hform, hothers⟩ := RestrainedLocal.tagged hlocals
      rw [(Emit.partwise_mergedForm expand).call _ (by decide) (by decide), List.map_cons,
        mergedForm_eq expand (by simp)]
      simp only [mapParts, Concat.settle]
      rw [hform]
      apply Restrained.of_locals hothers
      refine List.forall_mem_map.mpr fun part hpart => ihbody part hpart (hinline.inside ?_)
      exact mem_parts_child (List.mem_cons_of_mem _ hpart)
  | @bare caught args hbare _ ih =>
      have hargs : ∀ arg ∈ args, (arg.mergedForm expand).Restrained rule true := fun arg harg =>
        ih arg harg (hinline.inside (mem_parts_child harg))
      rw [(Emit.partwise_mergedForm expand).call _ (by decide) (by decide)]
      by_cases hlist : ∃ items body, args.map (Expr.mergedForm expand) = .list items :: body
      · obtain ⟨items, body, hform⟩ := hlist
        obtain ⟨first, rest, rfl, hfirst, rfl⟩ := List.map_eq_cons_iff.mp hform
        rw [List.forall_mem_cons] at hargs
        have hmem : first ∈ (Expr.call "block" (first :: rest)).parts :=
          mem_parts_child List.mem_cons_self
        rcases (hinline.inside hmem).list_cases hfirst with ⟨others, rfl⟩ | hrestrained
        · exact absurd rfl (hbare others rest)
        · rw [hform]
          apply Restrained.of_locals _ (List.forall_mem_map.mpr hargs.2)
          exact fun e he => .of_restrained ((hrestrained.of_open rfl e he).mono nofun)
      · exact .bare (fun items body heq => hlist ⟨items, body, heq⟩) (List.forall_mem_map.mpr hargs)
  | flagged hsaved hresult hflag _ ih =>
      rw [(Emit.partwise_mergedForm expand).flagged]
      refine .flagged hsaved hresult hflag (ih (hinline.inside ?_))
      exact mem_parts_trans (mem_parts_assign "%_r" _)
        (mem_parts_block (.inr (List.mem_cons_of_mem _ List.mem_cons_self)))

end Merging

theorem lasts_restrained (rule : Restraint) : Lasts (Restrained rule false) where
  folded _ _ he := he.foldConcats
  merged he hinline := he.mergedForm fun _ _ _ => hinline

end Expr

/-- A restraint that the code of blocks is able to heed. -/
structure Restraint.Fits (rule : Restraint) : Prop where
  result : "%_r" ∉ rule.kept
  saved : "simp" ∈ rule.kept → Expr.savedFlag ∈ rule.kept
  helper : ∀ n, Emit.loopIndex n ∉ rule.kept ∧ Emit.loopOutput n ∉ rule.kept ∧
    ∀ i, Emit.loopList n i ∉ rule.kept

namespace Emit

open SceneQuiz.Expr

variable {rule : Restraint}

theorem restrained_localized (names : List String) {body : Expr}
    (h : body.Restrained rule false) : (localized names body).Restrained rule false := by
  unfold localized
  split
  · exact h
  · apply Restrained.of_locals
    · exact List.forall_mem_map.mpr fun name _ => .assign _ (.node rfl nofun)
    · simpa using h.mono nofun

theorem restrained_flagged (hfits : rule.Fits) {flag : Bool}
    (hflag : "simp" ∈ rule.kept → .bool flag ∈ rule.flags) {value : Expr}
    (h : value.Restrained rule false) : (Expr.flagged flag value).Restrained rule false := by
  have hvalue : value.Restrained rule true := h.mono nofun
  by_cases hkept : "simp" ∈ rule.kept
  · exact .flagged (hfits.saved hkept) hfits.result (hflag hkept) hvalue
  · have hfree : ∀ name ∉ rule.kept, ∀ {source : Expr}, source.Restrained rule true →
        (Expr.assign name source).Restrained rule true := by
      intro name hname source hsource
      refine .assign ?_ hsource
      rintro _ ⟨⟩
      exact hname
    apply Restrained.of_locals
    · simp only [List.forall_mem_cons]
      exact ⟨.assign _ (.node rfl nofun), .of_restrained (.node rfl nofun), List.forall_mem_nil _⟩
    · simp only [List.forall_mem_cons]
      exact ⟨hfree _ hkept (.node rfl nofun), hfree _ hfits.result hvalue,
        hfree _ hkept (.node rfl nofun), .node rfl nofun, List.forall_mem_nil _⟩

theorem composes_restrained (hfits : rule.Fits) :
    Composes 0 (· ∉ rule.kept) (fun flag => "simp" ∈ rule.kept → .bool flag ∈ rule.flags)
      (Restrained rule false) where
  literal := ⟨.node rfl nofun, fun _ => .node rfl nofun, fun _ => .node rfl nofun⟩
  ident _ := .node rfl nofun
  call name hname hblock _ hargs := by
    have hreturn : name ≠ "return" := by
      rintro rfl
      revert hname
      decide
    exact .node (by simp [isOpen, hblock, hreturn]) hargs
  index htarget hindices := .node rfl (forall_children_index.mpr ⟨htarget, hindices⟩)
  empty := .node rfl nofun
  block _ hlocals hbody := .of_locals (fun e he => .of_restrained (hlocals e he))
    fun e he => (hbody e he).mono nofun
  group hitems := .node rfl hitems
  assign hname _ hvalue := by
    refine .assign ?_ hvalue
    rintro _ ⟨⟩
    exact hname
  cond hbranches hotherwise := .node rfl (forall_children_cond.mpr ⟨hbranches, hotherwise⟩)
  forRange _ _ _ _ _ hfirst hstep hlast hbody :=
    .node rfl (forall_children_forRange.mpr ⟨hfirst, hstep, hlast, hbody⟩)
  flagged hflag _ hvalue := restrained_flagged hfits hflag hvalue
  helper n _ := hfits.helper n

end Emit

/-- The code of a template is restrained if what the authors wrote is. -/
theorem Template.restrained_of_compile {rule : Restraint} (hfits : rule.Fits)
    {template : Template} {ctx : TemplateContext} {compiled : CompiledTemplate}
    (h : template.compile ctx = .ok compiled)
    (hauthored : ∀ block ∈ ctx.blocksWithin ctx.options.inlineDepth template,
      (∀ e ∈ block.authored, e.Restrained rule false) ∧ (∀ name ∈ block.binders, name ∉ rule.kept) ∧
        ∀ flag ∈ block.flags, "simp" ∈ rule.kept → .bool flag ∈ rule.flags) :
    compiled.expr.Restrained rule false := by
  have hlocal : ∀ {e : Expr}, e.Restrained rule false →
      (TemplateContext.localizeWrites e).Restrained rule false :=
    fun he => Emit.restrained_localized _ he
  obtain ⟨normal, hnormal, hexpr⟩ := TemplateContext.exists_composed
    (Emit.composes_restrained hfits)
    (fun tag _ hitems => .node rfl (List.forall_mem_cons.mpr ⟨.str tag, hitems⟩))
    (Expr.lasts_restrained rule) hlocal (compileWith_of_compile h) hauthored
  rw [hexpr]
  exact hlocal hnormal

end SceneQuiz
