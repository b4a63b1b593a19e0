import SceneQuiz.Proofs.Machine.Writes
import SceneQuiz.Proofs.Template.Authored
/-!
A template leaves the variables around it alone.  Whatever its code assigns is
local to it, but for `simp`, which code may switch; and since scopes are closed
however a run ends, this holds of runs that fail as well.
-/

namespace SceneQuiz

namespace Expr

theorem labelled_makesFunction : Labelled fun node => node.makesFunction = false where
  text _ := rfl
  call name hname args := by
    have hlambda : name ≠ "lambda" := by
      rintro rfl
      simp at hname
    simpa [makesFunction] using hlambda
  list _ := rfl
  mapParts {e} _ he := by
    cases e with
    | binary op _ _ => cases op <;> exact he
    | _ => exact he

end Expr

theorem Emit.admits_makesFunction :
    Emit.Admits 0 (fun _ => True) fun node => node.makesFunction = false where
  literal := ⟨rfl, fun _ => rfl, fun _ => rfl⟩
  ident _ := rfl
  call name hname args := by
    have hlambda : name ≠ "lambda" := by
      rintro rfl
      revert hname
      decide
    simpa [Expr.makesFunction] using hlambda
  index _ _ := rfl
  locals _ := rfl
  group _ := rfl
  assign _ _ := rfl
  cond _ _ := rfl
  forRange _ _ _ _ _ := rfl
  saved _ _ := trivial
  helper _ _ := ⟨trivial, trivial, fun _ => trivial⟩

namespace Emit

variable {policy : Policy} {written : Set String}

theorem declared_keepAll (names : List String) :
    Expr.declared (keepAll names) = {name | name ∈ names} := by
  have hkept : (keepAll names).filterMap Expr.declaredName? = names := by
    simp [keepAll, List.filterMap_map, Function.comp_def, Expr.keep, Expr.assign,
      Expr.declaredName?, Expr.asIdent?]
  simp [Expr.declared, hkept]

/-- Names that are kept as locals may be assigned inside. -/
theorem obeys_localized {names : List String} {body : Expr}
    (hbody : body.Obeys policy (written ∪ {name | name ∈ names})) :
    (localized names body).Obeys policy written := by
  unfold localized
  split
  · next hempty =>
      rw [List.isEmpty_iff.mp hempty] at hbody
      exact hbody.mono (by simp)
  · apply Expr.Obeys.block
    · intro left right hmem
      obtain ⟨name, -, heq⟩ := List.mem_map.mp hmem
      cases heq
      exact .node trivial nofun
    · rw [declared_keepAll]
      simpa using hbody

end Emit

/-- Code that makes no function assigns only switches once its writes are made
local. -/
theorem TemplateContext.obeys_localizeWrites {policy : Policy} (hreturns : policy.returns)
    {e : Expr} (he : e.Everywhere fun part => part.makesFunction = false) :
    (localizeWrites e).Obeys policy {"simp"} := by
  apply Emit.obeys_localized
  apply Expr.obeys_of_usage hreturns he
  intro name hname
  by_cases hflag : isGlobalFlag name = true
  · exact .inl (by simpa [isGlobalFlag, globalFlags] using hflag)
  · exact .inr (List.mem_filter.mpr ⟨hname, by simpa using hflag⟩)

namespace Template

/-- Evaluation of a compiled template, however it ends, leaves every variable
but `simp` with the binding it had before, in every scope. -/
theorem compile_keeps_bindings {template : Template} {ctx : TemplateContext}
    {compiled : CompiledTemplate} (hcompiled : template.compile ctx = .ok compiled)
    (hauthored : ∀ block ∈ ctx.blocksWithin ctx.options.inlineDepth template,
      ∀ e ∈ block.authored, e.Everywhere fun part => part.makesFunction = false)
    {machine after : Machine} (hfunctions : ∀ name, machine.functions.get? name = none)
    {outcome : Except EvalError Value}
    (hrun : compiled.expr.eval machine = Eval.lift outcome after) {name : String}
    (hname : name ≠ "simp") : after.env.column name = machine.env.column name := by
  obtain ⟨normal, hnormal, hexpr⟩ := TemplateContext.exists_everywhere
    Expr.labelled_makesFunction Emit.admits_makesFunction (fun _ _ _ => trivial)
    (compileWith_of_compile hcompiled)
    fun block hblock => ⟨hauthored block hblock, fun _ _ => trivial⟩
  have hobeys : compiled.expr.Obeys (Policy.assigning {"simp"}) {"simp"} := by
    rw [hexpr]
    exact TemplateContext.obeys_localizeWrites trivial hnormal
  exact hobeys.keeps_bindings hfunctions hrun hname

/-- A template that assigns on all its ways: by a definition, in a loop, by an
injection and in an inline template.  The loop fails in its second round. -/
def assigningTemplate : Template :=
  let site : Site := ⟨⟨0, 0⟩, false⟩
  ⟨"", .root site [.define site [⟨"a", "1"⟩],
    .inject site .value "castext(\"inline\")",
    .foreach site [⟨"x", "[1, 2]"⟩] [.inject site .value "y: a / (2 - x)"]]⟩

/-- A context where the text `inline` stands for an injection of `z: 3`. -/
def inliningContext : TemplateContext where
  options := .default
  inputs := []
  reader := some fun source =>
    let site : Site := ⟨⟨0, 0⟩, false⟩
    if source = "inline" then .ok (.root site [.inject site .value "z: 3, simp=false"])
    else .error "unknown template"

/-- The variables of the template are bound, in two scopes. -/
def boundMachine : Machine :=
  { Machine.fresh 1000 with
    env := (Environment.initial.assign "y" (.int 7)).under
      (NameMap.ofList [("x", .int 8), ("z", .int 9)]) }

/-- Is a template compiled, and does the code have a property? -/
def compilesTo (template : Template) (ctx : TemplateContext) (good : CompiledTemplate → Bool) :
    Bool :=
  match template.compile ctx with
  | .ok compiled => good compiled
  | .error _ => false

theorem exists_of_compilesTo {template : Template} {ctx : TemplateContext}
    {good : CompiledTemplate → Bool} (h : template.compilesTo ctx good = true) :
    ∃ compiled, template.compile ctx = .ok compiled ∧ good compiled = true := by
  unfold compilesTo at h
  split at h
  · next compiled hcompiled => exact ⟨compiled, hcompiled, h⟩
  · cases h

theorem assigningTemplate_keeps_bindings :
    (∀ block ∈ inliningContext.blocksWithin inliningContext.options.inlineDepth assigningTemplate,
      ∀ e ∈ block.authored, e.Everywhere fun part => part.makesFunction = false) ∧
    (∀ name, boundMachine.functions.get? name = none) ∧
    ∃ compiled after, assigningTemplate.compile inliningContext = .ok compiled ∧
      compiled.expr.eval boundMachine = Eval.lift (.error .divisionByZero) after ∧
        ∀ name, name ≠ "simp" → after.env.column name = boundMachine.env.column name := by
  have hauthored : ∀ block ∈
      inliningContext.blocksWithin inliningContext.options.inlineDepth assigningTemplate,
      ∀ e ∈ block.authored, e.Everywhere fun part => part.makesFunction = false := by
    decide +kernel
  have hfunctions : ∀ name, boundMachine.functions.get? name = none := fun _ => rfl
  refine ⟨hauthored, hfunctions, ?_⟩
  obtain ⟨compiled, hcompiled, hfails⟩ := exists_of_compilesTo
    (by decide +kernel : assigningTemplate.compilesTo inliningContext
      (fun compiled => Eval.dividesByZero (compiled.expr.eval boundMachine)) = true)
  obtain ⟨after, hrun⟩ := Eval.exists_of_dividesByZero hfails
  have hends : compiled.expr.eval boundMachine = Eval.lift (.error .divisionByZero) after := hrun
  exact ⟨compiled, after, hcompiled, hends, fun name hname =>
    compile_keeps_bindings hcompiled hauthored hfunctions hends hname⟩

end Template

end SceneQuiz
