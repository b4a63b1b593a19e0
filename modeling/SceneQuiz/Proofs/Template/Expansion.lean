import SceneQuiz.Proofs.Question.Accepted
import SceneQuiz.Proofs.Template.Settled
/-!
Inline templates.  Merging reports an inline call that it cannot expand and
expands all others, also those whose text only merging brings together; so
nothing is left to expand in code that is merged without a fault.  A template
that compiles within some levels compiles to the same within more.  Main result:
a compiled template has no inline call with a literal text in it, and a template
whose inline templates nest deeper than the options allow does not compile.
-/

namespace SceneQuiz

namespace Expr

/-- A node that is no inline call with a literal text. -/
def Expanded (e : Expr) : Prop := ∀ source, e ≠ .call "castext" [.str source]

variable {expand other : String → Except TemplateIssue Expr} {e : Expr} {args items : List Expr}

theorem faults_of_mergedAll (h : (mergedAll expand items).faults = []) :
    ∀ e ∈ items, (e.merged expand).faults = [] := by
  induction items with
  | nil => exact List.forall_mem_nil _
  | cons e rest ih =>
      simp only [mergedAll, Checked.faults_bind, Checked.faults_pure, List.append_nil,
        List.append_eq_nil_iff] at h
      exact List.forall_mem_cons.mpr ⟨h.2, ih h.1⟩

theorem faults_of_mergedBranches {branches : List (Expr × Expr)}
    (h : (mergedBranches expand branches).faults = []) :
    ∀ branch ∈ branches, (branch.1.merged expand).faults = [] ∧
      (branch.2.merged expand).faults = [] := by
  induction branches with
  | nil => exact List.forall_mem_nil _
  | cons branch rest ih =>
      simp only [mergedBranches, Checked.faults_bind, Checked.faults_pure, List.append_nil,
        List.append_eq_nil_iff] at h
      exact List.forall_mem_cons.mpr ⟨⟨h.2.2, h.2.1⟩, ih h.1⟩

/-- What is reported about a part is reported about the whole. -/
theorem faults_of_children (h : (e.merged expand).faults = []) :
    ∀ part ∈ e.children, (part.merged expand).faults = [] := by
  cases e with
  | number | str | bool | ident => exact List.forall_mem_nil _
  | call name args =>
      rw [merged, Checked.faults_bind, List.append_eq_nil_iff] at h
      exact faults_of_mergedAll h.1
  | list items | set items | group items =>
      rw [merged, Checked.faults_bind, List.append_eq_nil_iff] at h
      exact faults_of_mergedAll h.1
  | index target indices =>
      simp only [merged, Checked.faults_bind, Checked.faults_pure, List.append_nil,
        List.append_eq_nil_iff] at h
      exact forall_children_index.mpr ⟨h.2, faults_of_mergedAll h.1⟩
  | neg operand | not operand | quote operand | factorial operand =>
      rw [merged, Checked.faults_bind, List.append_eq_nil_iff] at h
      exact (forall_children_one rfl).mpr h.1
  | binary op left right =>
      simp only [merged, Checked.faults_bind, Checked.faults_pure, List.append_nil,
        List.append_eq_nil_iff] at h
      exact (forall_children_two rfl).mpr h.symm
  | cond branches otherwise =>
      cases otherwise with
      | some body =>
          simp only [merged, Checked.faults_bind, Checked.faults_pure, List.append_nil,
            List.append_eq_nil_iff, faults_map] at h
          refine forall_children_cond.mpr ⟨faults_of_mergedBranches h.2, ?_⟩
          exact fun _ hbody => Option.some.inj hbody ▸ h.1
      | none =>
          simp only [merged, Checked.faults_bind, Checked.faults_pure, List.append_nil,
            List.nil_append] at h
          exact forall_children_cond.mpr ⟨faults_of_mergedBranches h, by simp⟩
  | forIn var source body =>
      simp only [merged, Checked.faults_bind, Checked.faults_pure, List.append_nil,
        List.append_eq_nil_iff] at h
      exact (forall_children_two rfl).mpr h.symm
  | forRange var first step last body =>
      cases step with
      | some width =>
          simp only [merged, Checked.faults_bind, Checked.faults_pure, List.append_nil,
            List.append_eq_nil_iff, faults_map] at h
          obtain ⟨hbody, hlast, hwidth, hfirst⟩ := h
          refine forall_children_forRange.mpr ⟨hfirst, ?_, hlast, hbody⟩
          exact fun _ hstep => Option.some.inj hstep ▸ hwidth
      | none =>
          simp only [merged, Checked.faults_bind, Checked.faults_pure, List.append_nil,
            List.append_eq_nil_iff, List.nil_append] at h
          obtain ⟨hbody, hlast, hfirst⟩ := h
          exact forall_children_forRange.mpr ⟨hfirst, by simp, hlast, hbody⟩

theorem faults_of_parts (h : (e.merged expand).faults = []) :
    ∀ part ∈ e.parts, (part.merged expand).faults = [] := by
  induction e using Expr.ofParts with
  | hstep e ih =>
    have hchildren := faults_of_children h
    rw [parts_eq, List.forall_mem_cons]
    refine ⟨h, fun part hpart => ?_⟩
    obtain ⟨child, hchild, hmem⟩ := List.mem_flatMap.mp hpart
    exact ih child hchild (hchildren child hchild) part hmem

theorem mergedForm_inline (args : List Expr) :
    (Expr.call "castext" args).mergedForm expand =
      (Concat.call expand "castext" (args.map (mergedForm expand))).value := by
  rw [← value_mergedAll]
  rfl

theorem faults_inline (args : List Expr) :
    ((Expr.call "castext" args).merged expand).faults = (mergedAll expand args).faults ++
      (Concat.call expand "castext" (args.map (mergedForm expand))).faults := by
  rw [← value_mergedAll]
  rfl

theorem call_literal {source : String} {inlined : Expr} (h : expand source = .ok inlined) :
    Concat.call expand "castext" [.str source] = pure (Concat.settle inlined) := by
  simp only [Concat.call, if_true, h]

theorem call_unexpanded (h : (Expr.call "castext" args).Expanded) :
    Concat.call expand "castext" args = pure (.call "castext" args) := by
  simp only [Concat.call, if_true]
  split
  · exact absurd rfl (h _)
  · rfl

/-- An inline call about which nothing is reported has no literal text, or it is
expanded. -/
theorem inline_cases (h : ((Expr.call "castext" args).merged expand).faults = []) :
    (Expr.call "castext" (args.map (mergedForm expand))).Expanded ∨
      ∃ arg source inlined, args = [arg] ∧ arg.mergedForm expand = .str source ∧
        expand source = .ok inlined := by
  rw [faults_inline, List.append_eq_nil_iff] at h
  refine or_iff_not_imp_left.mpr fun hliteral => ?_
  obtain ⟨source, hsource⟩ : ∃ source, Expr.call "castext" (args.map (mergedForm expand)) =
      .call "castext" [.str source] := by simpa [Expanded] using hliteral
  rw [(Expr.call.inj hsource).2] at h
  obtain ⟨arg, rest, rfl, harg, hrest⟩ := List.map_eq_cons_iff.mp (Expr.call.inj hsource).2
  obtain rfl := List.map_eq_nil_iff.mp hrest
  cases hexpand : expand source with
  | ok inlined => exact ⟨arg, source, inlined, rfl, harg, hexpand⟩
  | error issue =>
      have hreported := h.2
      simp only [Concat.call, if_true, hexpand] at hreported
      cases hreported

/-- What is merged without a fault is merged to the same where more can be
expanded, by induction on the parts. -/
theorem merged_extends
    (hother : ∀ {source inlined}, expand source = .ok inlined → other source = .ok inlined)
    (h : (e.merged expand).faults = []) :
    (e.merged other).faults = [] ∧ e.mergedForm other = e.mergedForm expand := by
  induction e using Expr.ofParts with
  | hstep e ih =>
    have hchildren := faults_of_children h
    have hparts : ∀ part ∈ e.children, (part.merged other).faults = [] ∧
        part.mergedForm other = part.mergedForm expand :=
      fun part hpart => ih part hpart (hchildren part hpart)
    by_cases hcastext : ∃ args, e = .call "castext" args
    · obtain ⟨args, rfl⟩ := hcastext
      have hargs : args.map (mergedForm other) = args.map (mergedForm expand) :=
        List.map_congr_left fun arg harg => (hparts arg harg).2
      have hnone : (mergedAll other args).faults = [] :=
        faults_mergedAll other fun arg harg => (hparts arg harg).1
      rw [faults_inline, mergedForm_inline, mergedForm_inline, hargs, hnone]
      rcases inline_cases h with hexpanded | ⟨arg, source, inlined, rfl, harg, hexpand⟩
      · rw [call_unexpanded hexpanded, call_unexpanded hexpanded]
        exact ⟨rfl, rfl⟩
      · rw [List.map_singleton, harg, call_literal hexpand, call_literal (hother hexpand)]
        exact ⟨rfl, rfl⟩
    · have hinline : ∀ args, e ≠ .call "castext" args := fun args heq => hcastext ⟨args, heq⟩
      refine ⟨faults_merged other hinline fun part hpart => (hparts part hpart).1, ?_⟩
      rw [mergedForm_eq other hinline, mergedForm_eq expand hinline,
        mapParts_congr fun part hpart => (hparts part hpart).2]

end Expr

namespace Concat

open SceneQuiz.Expr

theorem mem_mergeTexts_of_other {items : List Expr} {e : Expr} (he : e ∈ items)
    (hother : ∀ text, e ≠ .str text) : e ∈ mergeTexts items := by
  fun_induction mergeTexts items with
  | case1 => exact he
  | case2 rest ih =>
      rcases List.mem_cons.mp he with rfl | hrest
      · exact absurd rfl (hother "")
      · exact ih hrest
  | case3 text rest htext more others hmerged ih =>
      rw [hmerged] at ih
      rcases List.mem_cons.mp he with rfl | hrest
      · exact absurd rfl (hother text)
      · rcases List.mem_cons.mp (ih hrest) with rfl | hmem
        · exact absurd rfl (hother more)
        · exact List.mem_cons_of_mem _ hmem
  | case4 text rest htext hmerged ih =>
      rcases List.mem_cons.mp he with rfl | hrest
      · exact absurd rfl (hother text)
      · exact List.mem_cons_of_mem _ (ih hrest)
  | case5 first rest hfirst ih =>
      rcases List.mem_cons.mp he with rfl | hrest
      · exact List.mem_cons_self
      · exact List.mem_cons_of_mem _ (ih hrest)

end Concat

namespace Expr

open Concat

variable {expand : String → Except TemplateIssue Expr} {e : Expr}

/-- Nothing is reported about an expression that merging makes a literal text of:
calls that cannot be expanded stay, and they are no texts.  By induction on the
parts, for all that a concatenation takes in. -/
theorem faults_of_texts
    (h : ∀ part ∈ (e.mergedForm expand).concatParts, ∃ text, part = .str text) :
    (e.merged expand).faults = [] := by
  induction e using Expr.ofParts with
  | hstep e ih =>
    by_cases hcastext : ∃ args, e = .call "castext" args
    · obtain ⟨args, rfl⟩ := hcastext
      rcases @mergedForm_castext expand args with
        hform | ⟨arg, source, inlined, rfl, harg, hexpand, -⟩
      · obtain ⟨_, htext⟩ := h (.call "castext" (args.map (mergedForm expand)))
          (by rw [hform]; exact List.mem_singleton_self _)
        cases htext
      · have hsource : (arg.merged expand).faults = [] := by
          apply ih arg List.mem_cons_self
          rw [harg]
          exact List.forall_mem_singleton.mpr ⟨source, rfl⟩
        have hnone : (mergedAll expand [arg]).faults = [] :=
          faults_mergedAll expand (List.forall_mem_singleton.mpr hsource)
        rw [faults_inline, hnone, List.map_singleton, harg, call_literal hexpand]
        rfl
    · have hinline : ∀ args, e ≠ .call "castext" args := fun args heq => hcastext ⟨args, heq⟩
      apply faults_merged expand hinline
      by_cases hsconcat : ∃ args, e = .call "sconcat" args
      · obtain ⟨args, rfl⟩ := hsconcat
        intro arg harg
        apply ih arg harg
        intro part hpart
        by_contra hother
        have hmem : part ∈ concatPartsOfAll (args.map (mergedForm expand)) := by
          rw [concatPartsOfAll_eq]
          exact List.mem_flatMap.mpr ⟨_, List.mem_map_of_mem harg, hpart⟩
        have hmerged := mem_mergeTexts_of_other hmem (not_exists.mp hother)
        rw [mergedForm_sconcat] at h
        rcases concatParts_concatenation (args.map (mergedForm expand)) with
          hparts | ⟨hnil, -⟩
        · exact hother (h part (hparts ▸ hmerged))
        · rw [← mergedParts, hnil] at hmerged
          cases hmerged
      · have hform : ∀ args, e.mergedForm expand ≠ .call "sconcat" args := by
          intro args heq
          obtain ⟨others, rfl⟩ := exists_call_of_mergedForm heq hinline
            fun found heq => hsconcat ⟨found, heq⟩
          exact hsconcat ⟨others, rfl⟩
        rw [concatParts_other hform, List.forall_mem_singleton] at h
        obtain ⟨text, htext⟩ := h
        rcases @mergedForm_cases expand e hinline with
          ⟨-, args, rfl⟩ | ⟨items, hlist⟩ | hparts
        · exact absurd ⟨args, rfl⟩ hsconcat
        · cases hlist.symm.trans htext
        · rw [hparts] at htext
          cases e <;> cases htext
          exact List.forall_mem_nil _

theorem faults_of_literal {source : String} (h : e.mergedForm expand = .str source) :
    (e.merged expand).faults = [] := by
  apply faults_of_texts
  rw [h]
  exact List.forall_mem_singleton.mpr ⟨source, rfl⟩

theorem composed_expanded : Composed (Everywhere Expanded) where
  text _ := .leaf nofun rfl
  sconcat := ⟨fun h _ harg => h.inside harg,
    fun h => .node (fun _ heq => absurd (Expr.call.inj heq).1 (by decide)) h⟩
  list := ⟨fun h _ hitem => h.inside hitem, fun h => .node nofun h⟩

/-- Where nothing is reported, no inline call with a literal text is left, if
none comes in with what is expanded. -/
theorem expanded_mergedForm (h : (e.merged expand).faults = [])
    (hinline : ∀ {source inlined}, expand source = .ok inlined → inlined.Everywhere Expanded) :
    (e.mergedForm expand).Everywhere Expanded := by
  induction e using Expr.ofParts with
  | hstep e ih =>
    have hchildren := faults_of_children h
    have hparts : ∀ part ∈ e.children, (part.mergedForm expand).Everywhere Expanded :=
      fun part hpart => ih part hpart (hchildren part hpart)
    by_cases hcastext : ∃ args, e = .call "castext" args
    · obtain ⟨args, rfl⟩ := hcastext
      rw [mergedForm_inline]
      rcases inline_cases h with hexpanded | ⟨arg, source, inlined, rfl, harg, hexpand⟩
      · rw [call_unexpanded hexpanded]
        exact .node hexpanded (List.forall_mem_map.mpr hparts)
      · rw [List.map_singleton, harg, call_literal hexpand]
        exact composed_expanded.settle (hinline hexpand)
    · have hother : ∀ args, e ≠ .call "castext" args := fun args heq => hcastext ⟨args, heq⟩
      rw [mergedForm_eq expand hother]
      apply composed_expanded.settle
      refine .node (fun source heq => ?_) (by rwa [children_mapParts, List.forall_mem_map])
      cases e with
      | call name args => exact hother args (by rw [(Expr.call.inj heq).1])
      | _ => cases heq

theorem expanded_foldConcats (limit : Nat) (he : e.Everywhere Expanded) :
    (e.foldConcats limit).Everywhere Expanded := by
  induction e using Expr.ofParts with
  | hstep e ih =>
    rw [foldConcats_eq]
    apply composed_expanded.shortened
    apply Everywhere.node
    · intro source heq
      cases e with
      | call name args =>
          obtain ⟨rfl, hargs⟩ := Expr.call.inj heq
          obtain ⟨arg, rest, rfl, harg, hrest⟩ := List.map_eq_cons_iff.mp hargs
          obtain rfl := List.map_eq_nil_iff.mp hrest
          exact he.here source (by rw [eq_str_of_foldConcats harg])
      | _ => cases heq
    · rw [children_mapParts, List.forall_mem_map]
      exact fun part hpart => ih part hpart (he.inside hpart)

end Expr

/-- What holds of all that is emitted also admits less. -/
theorem Emit.Admits.mono {loops : Nat} {N : String → Prop} {P Q : Expr → Prop}
    (h : Emit.Admits loops N P) (himp : ∀ {e}, P e → Q e) : Emit.Admits loops N Q where
  literal := ⟨himp h.literal.1, fun text => himp (h.literal.2.1 text),
    fun truth => himp (h.literal.2.2 truth)⟩
  ident hname := himp (h.ident hname)
  call name hname args := himp (h.call name hname args)
  index target indices := himp (h.index target indices)
  locals hitems := himp (h.locals hitems)
  group items := himp (h.group items)
  assign left right := himp (h.assign left right)
  cond branches otherwise := himp (h.cond branches otherwise)
  forRange hvar first step last body := himp (h.forRange hvar first step last body)
  saved := h.saved
  helper := h.helper

namespace TemplateContext

open SceneQuiz.Expr

variable {ctx : TemplateContext} {template inline : Template}
  {expand other : String → Except TemplateIssue Expr} {compiled : CompiledTemplate}
  {source : String} {levels more : Nat}

theorem compileWith_of_block {block : Block} {normal : Expr}
    (hblock : ctx.blockOf template = .ok block)
    (hnormal : block.code.normalize expand ctx.options.foldLimit = .ok normal) :
    ctx.compileWith expand template = .ok ⟨localizeWrites normal, block.isFlat⟩ := by
  unfold blockOf at hblock
  simp only [compileWith, skeleton, hblock, bind, Except.bind, pure, Except.pure, hnormal]

/-- A template that compiles also compiles where more can be expanded. -/
theorem compileWith_extends
    (hother : ∀ {source inlined}, expand source = .ok inlined → other source = .ok inlined)
    (h : ctx.compileWith expand template = .ok compiled) :
    ctx.compileWith other template = .ok compiled := by
  obtain ⟨block, normal, hblock, hnormal, rfl⟩ := exists_of_compileWith h
  obtain ⟨hfaults, rfl⟩ := exists_of_normalize hnormal
  obtain ⟨hnone, hform⟩ := merged_extends hother hfaults
  apply compileWith_of_block hblock
  have hresult : (block.code.merged other).result = .ok (block.code.mergedForm expand) :=
    Checked.result_eq_ok_iff.mpr ⟨hnone, hform⟩
  rw [Expr.normalize, hresult]
  rfl

theorem expandWithin_of_compileWith (hinline : ctx.inlineTemplate? source = some inline)
    (h : ctx.compileWith (ctx.expandWithin levels) inline = .ok compiled) :
    ctx.expandWithin (levels + 1) source = .ok compiled.expr := by
  unfold inlineTemplate? at hinline
  unfold expandWithin
  cases hreader : ctx.reader with
  | none => simp [hreader] at hinline
  | some reader =>
      cases hroot : reader source with
      | error message => simp [hreader, hroot] at hinline
      | ok root =>
          simp only [hreader, hroot, Option.some.injEq] at hinline
          simp only [hroot, hinline, h]

/-- One more level expands to the same, by induction on the levels. -/
theorem expandWithin_succ {inlined : Expr} (h : ctx.expandWithin levels source = .ok inlined) :
    ctx.expandWithin (levels + 1) source = .ok inlined := by
  induction levels generalizing source inlined with
  | zero =>
      obtain ⟨inner, -, -, hlevels, -⟩ := exists_of_expandWithin h
      cases hlevels
  | succ levels ih =>
      obtain ⟨inner, inline, compiled, hlevels, hinline, hcompiled, rfl⟩ :=
        exists_of_expandWithin h
      cases hlevels
      exact expandWithin_of_compileWith hinline (compileWith_extends ih hcompiled)

theorem expandWithin_mono (hmore : levels ≤ more) {inlined : Expr}
    (h : ctx.expandWithin levels source = .ok inlined) :
    ctx.expandWithin more source = .ok inlined := by
  induction hmore with
  | refl => exact h
  | step _ ih => exact expandWithin_succ ih

theorem expanded_step
    (hinline : ∀ {source inlined}, expand source = .ok inlined → inlined.Everywhere Expanded)
    (h : ctx.compileWith expand template = .ok compiled) :
    compiled.expr.Everywhere Expanded := by
  obtain ⟨block, normal, -, hnormal, rfl⟩ := exists_of_compileWith h
  obtain ⟨hfaults, rfl⟩ := exists_of_normalize hnormal
  have hadmits : Emit.Admits 0 (fun _ => True) Expanded :=
    Emit.admits_notInline.mono fun hother source => hother _
  apply everywhere_localizeWrites hadmits fun _ _ _ => trivial
  exact expanded_foldConcats _ (expanded_mergedForm hfaults hinline)

/-- Nothing is left to expand in a compiled template, by induction on the levels. -/
theorem expanded_of_compileWith
    (h : ctx.compileWith (ctx.expandWithin levels) template = .ok compiled) :
    compiled.expr.Everywhere Expanded := by
  induction levels generalizing template compiled with
  | zero =>
      refine expanded_step (fun hexpand => ?_) h
      obtain ⟨_, _, _, hlevels, -⟩ := exists_of_expandWithin hexpand
      cases hlevels
  | succ levels ih =>
      refine expanded_step (fun hexpand => ?_) h
      obtain ⟨_, _, _, hlevels, -, hcompiled, rfl⟩ := exists_of_expandWithin hexpand
      cases hlevels
      exact ih hcompiled

/-- The template has an inline call of the text `source`, once what is inline in
the argument of the call is expanded as deep as it goes. -/
def Inlines (ctx : TemplateContext) (template : Template) (source : String) : Prop :=
  ∃ block arg levels, ctx.blockOf template = .ok block ∧
    .call "castext" [arg] ∈ block.code.parts ∧
      arg.mergedForm (ctx.expandWithin levels) = .str source

/-- To expand all inline templates, they would have to nest more than so many
levels deep. -/
inductive NestsDeeper (ctx : TemplateContext) : Nat → Template → Prop where
  | here {outer : Template} {source : String} (hinlines : ctx.Inlines outer source) :
      NestsDeeper ctx 0 outer
  | inside {levels : Nat} {outer inner : Template} {source : String}
      (hinlines : ctx.Inlines outer source) (hinner : ctx.inlineTemplate? source = some inner)
      (hdeeper : NestsDeeper ctx levels inner) : NestsDeeper ctx (levels + 1) outer

/-- What a compiled template inlines is expanded. -/
theorem exists_of_inlines (hinlines : ctx.Inlines template source)
    (h : ctx.compileWith (ctx.expandWithin levels) template = .ok compiled) :
    ∃ inlined, ctx.expandWithin levels source = .ok inlined := by
  obtain ⟨block, arg, deep, hblock, hcall, hdeep⟩ := hinlines
  obtain ⟨found, normal, hfound, hnormal, -⟩ := exists_of_compileWith h
  cases hblock.symm.trans hfound
  obtain ⟨hfaults, -⟩ := exists_of_normalize hnormal
  have hnone := faults_of_parts hfaults _ hcall
  obtain ⟨-, hform⟩ := merged_extends (expandWithin_mono (Nat.le_max_left levels deep))
    (faults_of_children hnone arg List.mem_cons_self)
  obtain ⟨-, hliteral⟩ := merged_extends (expandWithin_mono (Nat.le_max_right levels deep))
    (faults_of_literal hdeep)
  have hsource : arg.mergedForm (ctx.expandWithin levels) = .str source :=
    hform.symm.trans (hliteral.trans hdeep)
  rcases inline_cases hnone with hexpanded | ⟨_, _, inlined, heq, hsame, hexpand⟩
  · exact absurd (by rw [List.map_singleton, hsource]) (hexpanded source)
  · cases heq
    cases hsource.symm.trans hsame
    exact ⟨inlined, hexpand⟩

/-- Too deep a template does not compile, by induction on the levels. -/
theorem not_nestsDeeper (h : ctx.compileWith (ctx.expandWithin levels) template = .ok compiled) :
    ¬ ctx.NestsDeeper levels template := by
  intro hdeeper
  induction hdeeper generalizing compiled with
  | here hinlines =>
      obtain ⟨inlined, hexpand⟩ := exists_of_inlines hinlines h
      obtain ⟨_, _, _, hlevels, -⟩ := exists_of_expandWithin hexpand
      cases hlevels
  | inside hinlines hinline _ ih =>
      obtain ⟨inlined, hexpand⟩ := exists_of_inlines hinlines h
      obtain ⟨_, _, _, hlevels, hfound, hcompiled, -⟩ := exists_of_expandWithin hexpand
      cases hlevels
      cases hinline.symm.trans hfound
      exact ih hcompiled

/-- A template that inlines itself nests deeper than any number of levels. -/
theorem nestsDeeper_of_inlines (hinlines : ctx.Inlines template source)
    (hitself : ctx.inlineTemplate? source = some template) (levels : Nat) :
    ctx.NestsDeeper levels template := by
  induction levels with
  | zero => exact .here hinlines
  | succ levels ih => exact .inside hinlines hitself ih

end TemplateContext

/-- However texts are read as inline templates, compiling a template ends, in one
of two ways: with a compiled template, in which nothing is left to expand and
whose inline templates nest no deeper than the options allow, or with errors. -/
theorem Template.compile_expands (template : Template) (ctx : TemplateContext) :
    (∃ compiled, template.compile ctx = .ok compiled ∧
      compiled.expr.Everywhere (fun part => ∀ source, part ≠ .call "castext" [.str source]) ∧
        ¬ ctx.NestsDeeper ctx.options.inlineDepth template) ∨
      ∃ log, template.compile ctx = .error log ∧ log.hasErrors = true := by
  cases hcompile : template.compile ctx with
  | ok compiled =>
      have hwithin := Template.compileWith_of_compile hcompile
      exact .inl ⟨compiled, rfl, TemplateContext.expanded_of_compileWith hwithin,
        TemplateContext.not_nestsDeeper hwithin⟩
  | error log =>
      exact .inr ⟨log, rfl, Bool.eq_true_of_not_eq_false (Template.hasErrors_of_compile hcompile)⟩

namespace Template

def mirrorSite : Site := ⟨⟨0, 0⟩, false⟩

/-- A template that inlines the text `mirror`. -/
def mirrorTemplate : Template :=
  ⟨"mirror", .root mirrorSite [.inject mirrorSite .value "castext(\"mirror\")"]⟩

/-- Every text stands for that template. -/
def mirrorContext : TemplateContext where
  options := .default
  inputs := []
  reader := some fun _ => .ok mirrorTemplate.root

example : (mirrorTemplate.compile mirrorContext).isOk = false := by decide +kernel

end Template

end SceneQuiz
