import SceneQuiz.Proofs.Template.Echo
/-!
Bringing the code of a template to normal form never changes what is rendered.
Main result: if the code of a block has a value, its normal form has a value
that gives the same text or the same fault and leaves the same page.
-/

namespace SceneQuiz

namespace Expr

/-- Code without inline templates has a normal form. -/
theorem normalize_eq_ok (expand : String → Except TemplateIssue Expr) (limit : Nat) {e : Expr}
    (he : e.Everywhere fun part => ∀ args, part ≠ .call "castext" args) :
    e.normalize expand limit = .ok (e.normalForm expand limit) := by
  have hfaults : (e.merged expand).faults = [] := by
    induction e using Expr.ofParts with
    | hstep e ih =>
      exact faults_merged expand he.here fun part hpart => ih part hpart (he.inside hpart)
  rw [normalize, Checked.result_eq_ok_iff.mpr ⟨hfaults, rfl⟩]
  rfl

end Expr

/-- Blocks call no inline templates of their own. -/
theorem Emit.admits_notInline :
    Emit.Admits 0 (fun _ => True) fun part => ∀ args, part ≠ .call "castext" args where
  literal := ⟨nofun, fun _ => nofun, fun _ => nofun⟩
  ident _ := nofun
  call name hname args others heq := by
    obtain ⟨rfl, -⟩ := Expr.call.inj heq
    revert hname
    decide
  index _ _ := nofun
  locals _ := nofun
  group _ := nofun
  assign _ _ := nofun
  cond _ _ := nofun
  forRange _ _ _ _ _ := nofun
  saved _ _ := trivial
  helper _ _ := ⟨trivial, trivial, fun _ => trivial⟩

mutual

/-- The code of a block is rendered like its normal form, by the cases of the
block.  The outputs of loops around it may differ.  Flat items are steady as one
text; other items keep their own places, with definitions local to them. -/
theorem Block.echoed_codeAfter {expand : String → Except TemplateIssue Expr} {limit : Nat}
    (loops : Nat) {loose : Set String} (hloose : loose ⊆ Emit.earlierOutputs loops)
    (block : Block) (hauthored : ∀ e ∈ block.authored, e.Plain)
    (hbinders : ∀ name ∈ block.binders, isHidden name = false) :
    (block.codeAfter loops).Echoed expand limit loose :=
  match block with
  | .container items => by
      cases hflat : Block.allFlat items with
      | true =>
          exact (Block.steady_codeAfter hloose (.container items) hflat hauthored hbinders).echoed
      | false =>
          rw [Block.codeAfter, hflat]
          apply Emit.echoed_localized
          · intro name hname hmem
            obtain ⟨pairs, hdefine, pair, hpair, rfl⟩ := Emit.mem_definedNames hname
            exact Emit.notMem_earlierOutputs_of_visible
              (hbinders _ (Block.binders_of_define hdefine hpair)) (hloose hmem)
          · exact Expr.echoed_root (Block.echoed_codeOfAll loops hloose items hauthored hbinders)
  | .text content => (Block.steady_codeAfter hloose _ rfl hauthored hbinders).echoed
  | .inject injection => (Block.steady_codeAfter hloose _ rfl hauthored hbinders).echoed
  | .define pairs => (Block.steady_codeAfter hloose _ rfl hauthored hbinders).echoed
  | .cond branches otherwise => by
      unfold Block.authored at hauthored
      unfold Block.binders at hbinders
      rw [List.forall_mem_append] at hauthored hbinders
      unfold Block.codeAfter
      apply Emit.echoed_conditional
      · exact Block.echoed_codeOfBranches loops hloose branches hauthored.1 hbinders.1
      · cases otherwise with
        | some body =>
            exact Block.echoed_codeAfter _ (hloose.trans (Emit.earlierOutputs_mono (by omega))) body
              hauthored.2 hbinders.2
        | none =>
            have htext : (Expr.str "").Steady loose :=
              (Emit.admits_steady hloose).composes.str ""
            exact htext.echoed
  | .foreach iterators body => by
      cases hflat : body.isFlat with
      | true =>
          exact (Block.steady_codeAfter hloose (.foreach iterators body) hflat hauthored
            hbinders).echoed
      | false =>
          rw [Block.authored, List.forall_mem_append] at hauthored
          rw [Block.binders, List.forall_mem_append] at hbinders
          rw [Block.codeAfter, hflat]
          apply Emit.echoed_loop hloose
          · exact fun iterator hmem => ⟨hbinders.1 _ (List.mem_map_of_mem hmem),
              hauthored.1 _ (List.mem_map_of_mem hmem)⟩
          · exact (Block.echoed_codeAfter _ (Emit.insert_subset_earlierOutputs hloose) body
              hauthored.2 hbinders.2).whole
  | .indexing style start body => by
      rw [Block.authored, List.forall_mem_cons] at hauthored
      have hstart := hauthored.1.steady hloose
      have hbody : (body.codeAfter loops).Echoed expand limit loose :=
        Block.echoed_codeAfter loops hloose body hauthored.2 hbinders
      apply Emit.echoed_marker (by decide) fun fuel =>
        Expr.mirrors_all_cons (Expr.mirrors_str style.pattern) (Expr.mirrors_all_cons hstart.mirrors
          (Expr.mirrors_all_cons hbody.whole (Expr.mirrors_all_nil fuel)))
      rintro _ _ ⟨_, _, _, _, rfl, rfl, ⟨rfl, rfl⟩, first, _, _, _, rfl, rfl, rfl,
        _, _, _, _, rfl, rfl, hvalues, rfl, rfl⟩
      exact hvalues.indexing _ first
  | .index => by
      apply Emit.echoed_marker (by decide) Expr.mirrors_all_nil
      rintro _ _ ⟨rfl, rfl⟩
      exact .refl _
  | .reveal input value body => by
      rw [Block.authored, List.forall_mem_cons] at hauthored
      have hvalue := hauthored.1.steady hloose
      have hbody : (body.codeAfter loops).Echoed expand limit loose :=
        Block.echoed_codeAfter loops hloose body hauthored.2 hbinders
      apply Emit.echoed_marker (by decide) fun fuel =>
        Expr.mirrors_all_cons (Expr.mirrors_str input) (Expr.mirrors_all_cons hvalue.mirrors
          (Expr.mirrors_all_cons hbody.whole (Expr.mirrors_all_nil fuel)))
      rintro _ _ ⟨_, _, _, _, rfl, rfl, ⟨rfl, rfl⟩, first, _, _, _, rfl, rfl, rfl,
        _, _, _, _, rfl, rfl, hvalues, rfl, rfl⟩
      exact hvalues.reveal _ first
  | .lang codes body => by
      have hbody : (body.codeAfter loops).Echoed expand limit loose :=
        Block.echoed_codeAfter loops hloose body hauthored hbinders
      apply Emit.echoed_marker (by decide) fun fuel =>
        Expr.mirrors_all_cons (Expr.mirrors_str (",".intercalate codes))
          (Expr.mirrors_all_cons hbody.whole (Expr.mirrors_all_nil fuel))
      rintro _ _ ⟨_, _, _, _, rfl, rfl, ⟨rfl, rfl⟩, _, _, _, _, rfl, rfl, hvalues, rfl, rfl⟩
      exact hvalues.lang _
termination_by structural block

theorem Block.echoed_codeOfAll {expand : String → Except TemplateIssue Expr} {limit : Nat}
    (loops : Nat) {loose : Set String} (hloose : loose ⊆ Emit.earlierOutputs loops)
    (blocks : List Block) (hauthored : ∀ e ∈ Block.authoredOfAll blocks, e.Plain)
    (hbinders : ∀ name ∈ Block.bindersOfAll blocks, isHidden name = false) :
    ∀ e ∈ Block.codeOfAll loops blocks, e.Echoed expand limit loose :=
  match blocks with
  | [] => List.forall_mem_nil _
  | block :: rest => by
      rw [Block.authoredOfAll, List.forall_mem_append] at hauthored
      rw [Block.bindersOfAll, List.forall_mem_append] at hbinders
      exact List.forall_mem_cons.mpr
        ⟨Block.echoed_codeAfter loops hloose block hauthored.1 hbinders.1,
          Block.echoed_codeOfAll _ (hloose.trans (Emit.earlierOutputs_mono (by omega))) rest
            hauthored.2 hbinders.2⟩
termination_by structural blocks

theorem Block.echoed_codeOfBranches {expand : String → Except TemplateIssue Expr} {limit : Nat}
    (loops : Nat) {loose : Set String} (hloose : loose ⊆ Emit.earlierOutputs loops)
    (branches : List (Expr × Block)) (hauthored : ∀ e ∈ Block.authoredOfBranches branches, e.Plain)
    (hbinders : ∀ name ∈ Block.bindersOfBranches branches, isHidden name = false) :
    ∀ branch ∈ Block.codeOfBranches loops branches,
      branch.1.Steady loose ∧ branch.2.Echoed expand limit loose :=
  match branches with
  | [] => List.forall_mem_nil _
  | (test, body) :: rest => by
      rw [Block.authoredOfBranches, List.cons_append, List.forall_mem_cons,
        List.forall_mem_append] at hauthored
      rw [Block.bindersOfBranches, List.forall_mem_append] at hbinders
      exact List.forall_mem_cons.mpr ⟨⟨hauthored.1.steady hloose,
          Block.echoed_codeAfter loops hloose body hauthored.2.1 hbinders.1⟩,
        Block.echoed_codeOfBranches _ (hloose.trans (Emit.earlierOutputs_mono (by omega))) rest
          hauthored.2.2 hbinders.2⟩
termination_by structural branches

end

namespace Block

/-- The code of a block has a normal form, and if the code has a value, then the
normal form has one that is rendered alike on every page, unless it uses up its
budget. -/
theorem normalize_renders_alike (expand : String → Except TemplateIssue Expr) (limit : Nat)
    {block : Block} (hauthored : ∀ e ∈ block.authored, e.Plain)
    (hbinders : ∀ name ∈ block.binders, isHidden name = false) :
    ∃ normal, block.code.normalize expand limit = .ok normal ∧
      ∀ machine : Machine, machine.HasBuiltins → (∀ name, machine.functions.get? name = none) →
        ∀ value after, block.code.eval machine = .ok value after →
          (∃ spent, normal.eval machine = .error .gasExhausted spent) ∨
            ∃ other final, normal.eval machine = .ok other final ∧ ∀ processor page,
              value.toDatum.render processor page = other.toDatum.render processor page := by
  have hinline : block.code.Everywhere fun part => ∀ args, part ≠ .call "castext" args := by
    apply everywhere_codeAfter Emit.admits_notInline
    · exact fun _ _ _ => nofun
    · exact fun e he => (hauthored e he).mono fun _ hpart => hpart.1.notInline
    · exact fun _ _ => trivial
  have hechoed : block.code.Echoed expand limit ∅ :=
    echoed_codeAfter 0 (Set.empty_subset _) block hauthored hbinders
  refine ⟨_, Expr.normalize_eq_ok expand limit hinline, ?_⟩
  intro machine hbuiltins hfunctions value after hrun
  obtain ⟨seen, final, hagree, -, hleads⟩ := (hechoed.whole machine.remaining).ends
    (.refl ⟨hbuiltins, hfunctions⟩) (hrun.trans (Eval.lift_ok value after).symm) trivial
  cases hagree with
  | value hrenders =>
      rcases hleads machine.remaining machine (.refl machine) with
        hspent | ⟨_, last, ⟨⟩, -, hend⟩
      · exact .inl hspent
      · exact .inr ⟨_, last, hend, fun processor page => congrFun (hrenders processor) page⟩

/-- Containers inside each other, with texts to join and to drop, and a loop with
a marker in it. -/
def nestedBlock : Block :=
  .container [.text "a", .container [.text "b", .text "", .lang ["en"] (.text "c")],
    .foreach [("x", .list [.int 1, .int 2])]
      (.container [.text "d", .text "e", .index,
        .inject ⟨.value, .ident "x", none, none, false⟩])]

/-- No inline templates are known. -/
def noInlines : String → Except TemplateIssue Expr := fun _ => .error .noReader

theorem nestedBlock_renders_alike :
    (∀ e ∈ nestedBlock.authored, e.Plain) ∧
    (∀ name ∈ nestedBlock.binders, isHidden name = false) ∧ (Machine.fresh 1000).HasBuiltins ∧
    ∃ normal value after other final, nestedBlock.code.normalize noInlines 2 = .ok normal ∧
      nestedBlock.code.eval (Machine.fresh 1000) = .ok value after ∧
      normal.eval (Machine.fresh 1000) = .ok other final ∧
      value.displayText ≠ other.displayText ∧
      ∀ processor page, value.toDatum.render processor page =
        other.toDatum.render processor page := by
  have hauthored : ∀ e ∈ nestedBlock.authored, e.Plain := by
    unfold Expr.Plain
    decide +kernel
  have hbinders : ∀ name ∈ nestedBlock.binders, isHidden name = false := by decide +kernel
  have hbuiltins : (Machine.fresh 1000).HasBuiltins := fun _ => ⟨rfl, rfl⟩
  refine ⟨hauthored, hbinders, hbuiltins, ?_⟩
  obtain ⟨normal, hnormal, hrenders⟩ := normalize_renders_alike noInlines 2 hauthored hbinders
  have hends : (match nestedBlock.code.normalize noInlines 2 with
      | .error _ => false
      | .ok normal =>
          match nestedBlock.code.eval (Machine.fresh 1000), normal.eval (Machine.fresh 1000) with
          | .ok value _, .ok other _ => value.displayText != other.displayText
          | _, _ => false) = true := by
    decide +kernel
  rw [hnormal] at hends
  dsimp only at hends
  split at hends
  · next value after other final hrun hother =>
      rcases hrenders _ hbuiltins (fun _ => rfl) value after hrun with
        ⟨spent, hspent⟩ | ⟨found, last, hfound, hsame⟩
      · cases hother.symm.trans hspent
      · cases hother.symm.trans hfound
        exact ⟨normal, value, after, other, final, hnormal, hrun, hother, by simpa using hends,
          hsame⟩
  · cases hends

/-- A list with the tag in a concatenation of its own, shown as a value. -/
def taggedBlock : Block := .inject ⟨.value, Expr.computedTag, none, none, false⟩

/-- A tag may come from a concatenation of literals: then the normal form shows
another text. -/
theorem taggedBlock_shows_otherwise :
    (∀ e ∈ taggedBlock.authored, e.Everywhere Expr.Ordinary ∧
      e.Everywhere fun part => part.isDiscreet = true) ∧
    taggedBlock.binders = [] ∧ (Machine.fresh 100).HasBuiltins ∧
    (∀ name, (Machine.fresh 100).functions.get? name = none) ∧
    ∃ normal value after other final, taggedBlock.code.normalize noInlines 2 = .ok normal ∧
      taggedBlock.code.eval (Machine.fresh 100) = .ok value after ∧
      normal.eval (Machine.fresh 100) = .ok other final ∧
      ∀ page, value.toDatum.render .none page = .ok "[\"%root\", \"a\", \"b\"]" page ∧
        other.toDatum.render .none page = .ok "[\"%root\", \"ab\"]" page := by
  refine ⟨?_, rfl, fun _ => ⟨rfl, rfl⟩, fun _ => rfl, ?_⟩
  · intro e he
    obtain rfl := List.mem_singleton.mp he
    exact ⟨Expr.ordinary_computedTag, by decide +kernel⟩
  · obtain ⟨value, after, hrun, hvalue⟩ := Expr.exists_of_check taggedBlock.code.eval
      (Machine.fresh 100) (fun value _ => Expr.isText "[\"%root\", \"a\", \"b\"]" value)
      (by decide +kernel)
    obtain ⟨other, final, hother, hfound⟩ := Expr.exists_of_check
      (Expr.call "string" [.list [.str rootTag, .str "ab"]]).eval (Machine.fresh 100)
      (fun value _ => Expr.isText "[\"%root\", \"ab\"]" value) (by decide +kernel)
    obtain rfl := Expr.eq_of_isText hvalue
    obtain rfl := Expr.eq_of_isText hfound
    exact ⟨_, _, after, _, final, rfl, hrun, hother, fun _ => ⟨rfl, rfl⟩⟩

end Block

end SceneQuiz
