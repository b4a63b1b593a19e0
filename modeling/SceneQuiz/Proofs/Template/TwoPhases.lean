import SceneQuiz.Proofs.Page.Counters
import SceneQuiz.Proofs.Template.EmittedForm
import SceneQuiz.Proofs.Template.BlockValue
import SceneQuiz.Proofs.Template.Placement
/-!
The two phases of a template, evaluation and rendering.  A template is flat
exactly if it holds no block known by name.  Evaluation gives a text for a flat
template; for any other it gives a value that is rendered, on every page whose
counters have room for it, unless the start of a numbering turns out to be no
integer.
-/

namespace SceneQuiz

namespace Expr

/-- Code of authors: no `return`, no helper variable, and no definition of a
function that blocks rely on. -/
def Authorly (e : Expr) : Prop :=
  e.Everywhere fun part => part.isDiscreet = true ∧ part.definesReserved = false

end Expr

namespace TemplateContext

variable {ctx : TemplateContext} {template : Template}

/-- The value of a compiled template, by induction on how deep inline templates
may still nest. -/
theorem shows_compiled {levels : Nat} {compiled : CompiledTemplate}
    (h : ctx.compileWith (ctx.expandWithin levels) template = .ok compiled)
    (hauthored : ∀ block ∈ ctx.blocksWithin levels template,
      (∀ e ∈ block.authored, e.Authorly) ∧ ∀ name ∈ block.binders, isHidden name = false) :
    compiled.expr.Shows (Value.IsShown compiled.isFlat false) ∧
      ∀ name, compiled.expr ≠ .ident name := by
  induction levels using Nat.strongRecOn generalizing template compiled with
  | ind levels ih =>
    obtain ⟨block, normal, hblock, hnormal, rfl⟩ := exists_of_compileWith h
    obtain ⟨-, rfl⟩ := Expr.exists_of_normalize hnormal
    have hown := hauthored block (mem_blocksWithin levels hblock)
    have hmerged : ∀ e ∈ block.authored,
        (e.mergedForm (ctx.expandWithin levels)).Obeys .discreet Expr.visible := by
      intro e he
      apply Expr.obeys_mergedForm (hown.1 e he)
      intro arg inlined source hcall hsource hexpand
      obtain ⟨inner, inline, compiled, rfl, hinline, hcompiled, rfl⟩ :=
        exists_of_expandWithin hexpand
      have hcode := Expr.mem_parts_trans hcall (Block.mem_parts_codeAfter 0 block he)
      obtain ⟨hshows, hunnamed⟩ := ih inner (by omega) hcompiled fun block hinner =>
        hauthored block (mem_blocksWithin_inline hblock hcode hsource hinline hinner)
      exact ⟨hshows.obeys, hunnamed⟩
    have hplaced := (Node.stands_toBlock hblock).placed
    have hsuits := Block.suits_mergedForm ctx.options.foldLimit 0 block hplaced hmerged hown.2
    refine ⟨Emit.shows_localized _ hsuits.whole, fun name heq => ?_⟩
    unfold localizeWrites Emit.localized at heq
    split at heq
    · exact hsuits.unnamed name (Expr.eq_ident_of_foldConcats heq)
    · cases heq

end TemplateContext

namespace Template

/-- The contract of the two phases.  The counters of the page that is left are kept
in their 32 and 64 bits. -/
theorem compile_two_phases {template : Template} {ctx : TemplateContext}
    {compiled : CompiledTemplate} (hcompiled : template.compile ctx = .ok compiled) :
    (compiled.isFlat = true ↔ template.root.hasNamed = false) ∧
    ((∀ block ∈ ctx.blocksWithin ctx.options.inlineDepth template,
        (∀ e ∈ block.authored, e.Authorly) ∧ ∀ name ∈ block.binders, isHidden name = false) →
      ∀ machine : Machine, machine.HasBuiltins →
        (∀ name, machine.functions.get? name = none) →
        (∀ name host, machine.hosts.get? name = some host → ∀ args, Unreturned (host args)) →
        ∀ value after, compiled.expr.eval machine = .ok value after →
          (compiled.isFlat = true → ∃ text, value = .str text) ∧
          (compiled.isFlat = false → ∀ page : Page,
            page.HasRoom (page.layout value.toDatum).pieces →
              ∃ final : Page, final.InRange ∧
                ((∃ text, value.toDatum.render .none page = .ok text final) ∨
                  value.toDatum.render .none page =
                    .error (.malformed "indexing" .startNoInteger) final))) := by
  have hcompile := compileWith_of_compile hcompiled
  constructor
  · obtain ⟨block, normal, hblock, -, rfl⟩ := TemplateContext.exists_of_compileWith hcompile
    rw [(Node.stands_toBlock hblock).flat]
    cases template.root.hasNamed <;> simp
  · intro hauthored machine hbuiltins hfunctions hhosts value after hrun
    obtain ⟨hshows, -⟩ := TemplateContext.shows_compiled hcompile hauthored
    obtain ⟨-, hvalue⟩ := (hshows.gives machine.remaining).ends
      (Policy.governs_discreet hbuiltins hfunctions hhosts)
      (hrun.trans (Eval.lift_ok value after).symm)
    have hshown : value.IsShown compiled.isFlat false := hvalue
    refine ⟨fun hflat => ?_, fun hflat page hroom => ?_⟩
    · rwa [hflat] at hshown
    · have hleft := hroom.left_inRange
      rcases hshown.renders.ends page nofun with ⟨text, final, hrender, -⟩ | ⟨final, hrender⟩
      · rw [hrender] at hleft
        exact ⟨final, hleft, .inl ⟨text, hrender⟩⟩
      · rw [hrender] at hleft
        exact ⟨final, hleft, .inr hrender⟩

/-- A template with markers of every kind, a definition, a loop, a conditional
and an inline template that assigns. -/
def markedTemplate : Template :=
  let site : Site := ⟨⟨0, 0⟩, false⟩
  ⟨"", .root site [.define site [⟨"a", "1"⟩],
    .named site "indexing" [⟨"style", "01"⟩, ⟨"start", "a"⟩]
      [.foreach site [⟨"x", "[1, 2]"⟩]
        [.named site "index" [] [],
          .cond site [⟨some "is(x = 2)", [.inject site .value "castext(\"inline\")"], ⟨0, 0⟩⟩]]],
    .named site "lang" [⟨"code", "en"⟩] [.raw site "text"],
    .named site "reveal" [⟨"input", "i"⟩, ⟨"value", "a"⟩] [.inject site .latex "a"]]⟩

/-- The template has an input `i`. -/
def markedContext : TemplateContext := { inliningContext with inputs := ["i"] }

/-- Does code with markers end in a value that is good? -/
def endsMarked (compiled : CompiledTemplate) (machine : Machine) (good : Value → Bool) : Bool :=
  match compiled.expr.eval machine with
  | .ok value _ => !compiled.isFlat && good value
  | .error _ _ => false

theorem exists_of_endsMarked {compiled : CompiledTemplate} {machine : Machine}
    {good : Value → Bool} (h : endsMarked compiled machine good = true) :
    compiled.isFlat = false ∧
      ∃ value after, compiled.expr.eval machine = .ok value after ∧ good value = true := by
  unfold endsMarked at h
  split at h
  · next value after hrun =>
      rw [Bool.and_eq_true, Bool.not_eq_true'] at h
      exact ⟨h.1, value, after, hrun, h.2⟩
  · cases h

theorem markedTemplate_two_phases :
    let page := Page.blank (some "en")
    (∀ block ∈ markedContext.blocksWithin markedContext.options.inlineDepth markedTemplate,
      (∀ e ∈ block.authored, e.Authorly) ∧ ∀ name ∈ block.binders, isHidden name = false) ∧
    (Machine.fresh 1000).HasBuiltins ∧
    ∃ compiled value after, markedTemplate.compile markedContext = .ok compiled ∧
      compiled.isFlat = false ∧ compiled.expr.eval (Machine.fresh 1000) = .ok value after ∧
        page.HasRoom (page.layout value.toDatum).pieces ∧
          ∃ final : Page, final.InRange ∧
            ((∃ text, value.toDatum.render .none page = .ok text final) ∨
              value.toDatum.render .none page =
                .error (.malformed "indexing" .startNoInteger) final) := by
  intro page
  have hauthored : ∀ block ∈
      markedContext.blocksWithin markedContext.options.inlineDepth markedTemplate,
      (∀ e ∈ block.authored, e.Authorly) ∧ ∀ name ∈ block.binders, isHidden name = false := by
    unfold Expr.Authorly
    decide +kernel
  have hbuiltins : (Machine.fresh 1000).HasBuiltins := fun _ => ⟨rfl, rfl⟩
  refine ⟨hauthored, hbuiltins, ?_⟩
  obtain ⟨compiled, hcompiled, hends⟩ := exists_of_compilesTo
    (by decide +kernel : markedTemplate.compilesTo markedContext
      (fun compiled => endsMarked compiled (Machine.fresh 1000) fun value =>
        decide ((Page.blank (some "en")).HasRoom
          ((Page.blank (some "en")).layout value.toDatum).pieces)) = true)
  obtain ⟨hflat, value, after, hrun, hgood⟩ := exists_of_endsMarked hends
  have hroom : page.HasRoom (page.layout value.toDatum).pieces := of_decide_eq_true hgood
  obtain ⟨-, hphases⟩ := compile_two_phases hcompiled
  refine ⟨compiled, value, after, hcompiled, hflat, hrun, hroom, ?_⟩
  exact (hphases hauthored _ hbuiltins (fun _ => rfl) nofun value after hrun).2 hflat page hroom

/-- A flat template that defines the function its own code calls. -/
def redefiningTemplate : Template :=
  let site : Site := ⟨⟨0, 0⟩, false⟩
  ⟨"", .root site [.inject site .value "sconcat(x, y) := 5", .raw site "a"]⟩

/-- A flat template that assigns what an outside function gives. -/
def callingTemplate : Template :=
  let site : Site := ⟨⟨0, 0⟩, false⟩
  ⟨"", .root site [.inject site .value "x: f()"]⟩

/-- A numbering whose only index has the greatest number of 64 bits. -/
def lastNumberTemplate : Template :=
  let site : Site := ⟨⟨0, 0⟩, false⟩
  ⟨"", .root site [.named site "indexing" [⟨"start", "9223372036854775807"⟩]
    [.named site "index" [] []]]⟩

/-- The outside function ends in the signal of a `return`. -/
def returningMachine : Machine :=
  (Machine.fresh 1000).register "f" fun _ => .error (.returned (.int 5))

/-- Is the template flat, and its value 5 all the same? -/
def isFlatFive (template : Template) (ctx : TemplateContext) (machine : Machine) : Bool :=
  match template.compile ctx with
  | .error _ => false
  | .ok compiled =>
      match compiled.expr.eval machine with
      | .ok (.int 5) _ => compiled.isFlat
      | _ => false

theorem exists_of_isFlatFive {template : Template} {ctx : TemplateContext} {machine : Machine}
    (h : template.isFlatFive ctx machine = true) :
    ∃ compiled after, template.compile ctx = .ok compiled ∧ compiled.isFlat = true ∧
      compiled.expr.eval machine = .ok (.int 5) after := by
  unfold isFlatFive at h
  split at h
  · cases h
  · next compiled hcompiled =>
      split at h
      · next after hrun => exact ⟨compiled, after, hcompiled, h, hrun⟩
      · cases h

/-- Neither the definition of a function that blocks rely on nor an outside
function that returns can be allowed: the values of these templates are no
texts, although they are flat.  Nor are there only values that a blank page has
room for. -/
theorem flat_templates_without_text :
    ((∀ block ∈ inliningContext.blocksWithin inliningContext.options.inlineDepth
          redefiningTemplate,
        (∀ e ∈ block.authored, e.Everywhere fun part => part.isDiscreet = true) ∧
          ∀ name ∈ block.binders, isHidden name = false) ∧
      (Machine.fresh 1000).HasBuiltins ∧
      (∀ name, (Machine.fresh 1000).functions.get? name = none) ∧
      ∃ compiled after, redefiningTemplate.compile inliningContext = .ok compiled ∧
        compiled.isFlat = true ∧
          compiled.expr.eval (Machine.fresh 1000) = .ok (.int 5) after) ∧
    (∀ block ∈ inliningContext.blocksWithin inliningContext.options.inlineDepth callingTemplate,
      (∀ e ∈ block.authored, e.Authorly) ∧ ∀ name ∈ block.binders, isHidden name = false) ∧
    returningMachine.HasBuiltins ∧ (∀ name, returningMachine.functions.get? name = none) ∧
    (∃ compiled after, callingTemplate.compile inliningContext = .ok compiled ∧
      compiled.isFlat = true ∧ compiled.expr.eval returningMachine = .ok (.int 5) after) ∧
    (∀ block ∈ inliningContext.blocksWithin inliningContext.options.inlineDepth
        lastNumberTemplate,
      (∀ e ∈ block.authored, e.Authorly) ∧ ∀ name ∈ block.binders, isHidden name = false) ∧
    ∃ compiled value after, lastNumberTemplate.compile inliningContext = .ok compiled ∧
      compiled.isFlat = false ∧ compiled.expr.eval (Machine.fresh 1000) = .ok value after ∧
        ¬ (Page.blank none).HasRoom ((Page.blank none).layout value.toDatum).pieces := by
  unfold Expr.Authorly
  refine ⟨⟨by decide +kernel, fun _ => ⟨rfl, rfl⟩, fun _ => rfl,
    exists_of_isFlatFive (by decide +kernel)⟩, by decide +kernel, ?_, fun _ => rfl,
    exists_of_isFlatFive (by decide +kernel), by decide +kernel, ?_⟩
  · intro builtin
    cases builtin <;> exact ⟨rfl, rfl⟩
  · obtain ⟨compiled, hcompiled, hends⟩ := exists_of_compilesTo
      (by decide +kernel : lastNumberTemplate.compilesTo inliningContext
        (fun compiled => endsMarked compiled (Machine.fresh 1000) fun value =>
          decide (¬ (Page.blank none).HasRoom
            ((Page.blank none).layout value.toDatum).pieces)) = true)
    obtain ⟨hflat, value, after, hrun, hgood⟩ := exists_of_endsMarked hends
    exact ⟨compiled, value, after, hcompiled, hflat, hrun, of_decide_eq_true hgood⟩

end Template

end SceneQuiz
