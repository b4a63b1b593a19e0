import Mathlib.Data.List.Forall2
import SceneQuiz.Proofs.Parse.FailureReport
import SceneQuiz.Template.Reading
/-!
Reading without a fault.  What is read from the parts of a template is handed on
exactly if there is nothing to report, and each part says what that takes: its
texts are expressions, its names are variables, its parameters are known.
-/

namespace SceneQuiz

namespace Checked

variable {α β : Type}

/-- A result without faults is one that was handed on. -/
theorem result_eq_ok {checked : Checked α} {value : α} :
    checked.result = .ok value ↔ checked = pure value := by
  rw [result_eq_ok_iff]
  constructor
  · rintro ⟨hfaults, rfl⟩
    exact congrArg (Checked.mk checked.value) hfaults
  · rintro rfl
    exact ⟨rfl, rfl⟩

theorem pure_eq_pure {one two : α} :
    (pure one : Checked α) = pure two ↔ one = two :=
  ⟨fun h => congrArg Checked.value h, fun h => congrArg pure h⟩

/-- Work is without fault if each of its parts is. -/
theorem bind_eq_pure {first : Checked α} {next : α → Checked β} {value : β} :
    first >>= next = pure value ↔ ∃ a, first = pure a ∧ next a = pure value := by
  constructor
  · intro h
    obtain ⟨hbefore, hafter⟩ := List.append_eq_nil_iff.mp (congrArg Checked.faults h)
    have hvalue : (next first.value).value = value := congrArg Checked.value h
    refine ⟨first.value, congrArg (Checked.mk first.value) hbefore, ?_⟩
    rw [← hvalue]
    exact congrArg (Checked.mk (next first.value).value) hafter
  · rintro ⟨a, rfl, hnext⟩
    exact hnext

theorem unit_bind_eq_pure {first : Checked Unit} {next : Unit → Checked β} {value : β} :
    first >>= next = pure value ↔ first = pure () ∧ next () = pure value := by
  rw [bind_eq_pure]
  exact ⟨fun ⟨(), h⟩ => h, fun h => ⟨(), h⟩⟩

theorem map_eq_pure {checked : Checked α} {f : α → β} {value : β} :
    f <$> checked = pure value ↔ ∃ a, checked = pure a ∧ f a = value := by
  show (checked >>= fun a => pure (f a)) = pure value ↔ _
  simp only [bind_eq_pure, pure_eq_pure]

/-- After a report nothing is without fault. -/
theorem report_ne_pure {issue : TemplateIssue} {position : Option Position}
    {next : Unit → Checked β} {value : β} : report issue position >>= next ≠ pure value :=
  fun h => absurd (congrArg Checked.faults h) nofun

end Checked

open Checked

namespace Reading

/-- An expression is read without fault exactly if its text is one. -/
theorem expr_eq_pure {source : String} {position : Position} {found : Option Expr} :
    expr source position = pure found ↔ ∃ e, Expr.parse source = .ok e ∧ found = some e := by
  unfold expr
  split
  · next e hparse =>
      rw [pure_eq_pure]
      constructor
      · rintro rfl
        exact ⟨e, hparse, rfl⟩
      · rintro ⟨other, hother, rfl⟩
        rw [hparse] at hother
        rw [Except.ok.inj hother]
  · next hsilent => exact absurd rfl (Expr.issues_of_parse hsilent)
  · next hparse =>
      refine ⟨fun h => absurd h report_ne_pure, ?_⟩
      rintro ⟨e, hother, -⟩
      rw [hparse] at hother
      cases hother

/-- A pair that was read: its name is a variable and its value an expression. -/
structure PairRead (pair : Attribute) (read : String × Expr) : Prop where
  isVariable : isName pair.name = true
  name : read.1 = pair.name
  value : Expr.parse pair.value = .ok read.2

theorem pairs_eq_pure {block : String} {position : Position} {given : List Attribute}
    {read : List (String × Expr)} :
    pairs block position given = pure read ↔ List.Forall₂ PairRead given read := by
  induction given generalizing read with
  | nil =>
      rw [pairs, pure_eq_pure, List.forall₂_nil_left_iff]
      exact eq_comm
  | cons pair rest ih =>
      unfold pairs
      split
      · next hname =>
          simp only [bind_eq_pure, expr_eq_pure, ih, pure_eq_pure]
          constructor
          · rintro ⟨_, ⟨e, hvalue, rfl⟩, others, hothers, rfl⟩
            exact .cons ⟨hname, rfl, hvalue⟩ hothers
          · rintro ⟨_⟩
            next first others hfirst hothers =>
              refine ⟨some first.2, ⟨first.2, hfirst.value, rfl⟩, others, hothers, ?_⟩
              rw [← hfirst.name]
              rfl
      · next hname =>
          refine ⟨fun h => absurd h report_ne_pure, ?_⟩
          rintro ⟨_⟩
          next hfirst _ => exact absurd hfirst.isVariable hname

/-- Flags are read without fault if each says something about `simp`. -/
theorem simp_eq_pure {position : Position} {sofar value : Option Bool} {flags : List Flag} :
    simp position sofar flags = pure value ↔
      (∀ flag ∈ flags, (simpOf? flag).isSome) ∧
        value = (flags.getLast?.map simpOf?).getD sofar := by
  induction flags generalizing sofar with
  | nil =>
      rw [simp, pure_eq_pure]
      exact ⟨fun h => ⟨List.forall_mem_nil _, h.symm⟩, fun h => h.2.symm⟩
  | cons flag rest ih =>
      unfold simp
      split
      · next said hsaid =>
          have hlast : ((flag :: rest).getLast?.map simpOf?).getD sofar =
              (rest.getLast?.map simpOf?).getD (some said) := by
            rw [← hsaid, Option.getD_map, List.getLast?_cons]
            rfl
          rw [ih, List.forall_mem_cons, hlast, hsaid, Option.isSome_some]
          simp only [true_and]
      · next hsilent =>
          refine ⟨fun h => absurd h report_ne_pure, fun h => ?_⟩
          have hsaid := h.1 flag List.mem_cons_self
          rw [hsilent] at hsaid
          cases hsaid

/-- A text is no fragment for a reason. -/
theorem issues_of_fragment {source : String} {issues : List CodeIssue}
    (h : Fragment.parse source = .error issues) : issues ≠ [] := by
  unfold Fragment.parse at h
  dsimp only at h
  split at h
  · cases h
  · next hissues =>
      cases h
      rwa [List.isEmpty_iff] at hissues

/-- An injection of the single statement of a text. -/
inductive InjectionRead (mode : InjectMode) (source : String) (site : Site) : Block → Prop
  | single {statement : Statement} (hread : Fragment.parse source = .ok [statement])
      (hflags : ∀ flag ∈ statement.flags, (simpOf? flag).isSome) :
      InjectionRead mode source site (.inject ⟨mode, statement.expr, keyOf? statement.expr,
        (statement.flags.getLast?.map simpOf?).getD none, site.mathMode⟩)

theorem injection_eq_pure {mode : InjectMode} {source : String} {site : Site} {block : Block} :
    injection mode source site = pure block ↔ InjectionRead mode source site block := by
  have hread : ∀ {statements : Fragment}, Fragment.parse source = .ok statements →
      InjectionRead mode source site block → ∃ statement, statements = [statement] := by
    rintro statements hparse ⟨hsingle, -⟩
    exact ⟨_, Except.ok.inj (hparse.symm.trans hsingle)⟩
  unfold injection
  split
  · next hsilent => exact absurd rfl (issues_of_fragment hsilent)
  · next hparse =>
      refine ⟨fun h => absurd h report_ne_pure, ?_⟩
      rintro ⟨hsingle, -⟩
      rw [hparse] at hsingle
      cases hsingle
  · next statement hparse =>
      simp only [bind_eq_pure, simp_eq_pure, pure_eq_pure]
      constructor
      · rintro ⟨_, ⟨hflags, rfl⟩, rfl⟩
        exact .single hparse hflags
      · rintro ⟨hsingle, hflags⟩
        cases Except.ok.inj (hparse.symm.trans hsingle)
        exact ⟨_, ⟨hflags, rfl⟩, rfl⟩
  · next statements hother hparse =>
      refine ⟨fun h => absurd h report_ne_pure, fun h => ?_⟩
      obtain ⟨statement, rfl⟩ := hread hparse h
      exact absurd rfl (hother statement)

theorem checkParams_eq_pure {name : String} {position : Position} {params : List Attribute} :
    checkParams name position params = pure () ↔
      ∀ param ∈ params, param.name ∈ allowedParams name := by
  induction params with
  | nil => exact ⟨fun _ => List.forall_mem_nil _, fun _ => rfl⟩
  | cons param rest ih =>
      unfold checkParams
      rw [List.forall_mem_cons]
      split
      · next hunknown =>
          exact ⟨fun h => absurd h report_ne_pure, fun h => absurd h.1 hunknown⟩
      · next hknown =>
          rw [Decidable.not_not] at hknown
          simp only [hknown, true_and]
          exact ih

theorem neededParam_eq_pure {block : String} {params : List Attribute} {name : String}
    {position : Position} {found : Option String} :
    neededParam block params name position = pure found ↔
      ∃ value, param? params name = some value ∧ found = some value := by
  unfold neededParam
  split
  · next value hgiven => simp [pure_eq_pure, hgiven, eq_comm]
  · next hmissing =>
      refine ⟨fun h => absurd h report_ne_pure, ?_⟩
      rintro ⟨value, hgiven, -⟩
      rw [hmissing] at hgiven
      cases hgiven

theorem style_eq_pure {pattern : String} {position : Position} {found : IndexStyle} :
    style pattern position = pure found ↔ IndexStyle.ofPattern? pattern = some found := by
  unfold style
  split
  · next style hstyle => simp [pure_eq_pure, hstyle]
  · next hnone =>
      refine ⟨fun h => absurd h report_ne_pure, fun h => ?_⟩
      rw [hnone] at h
      cases h

/-- Where numbering starts: at the expression given for it, or at one. -/
def StartRead (params : List Attribute) (start : Expr) : Prop :=
  match param? params "start" with
  | some source => Expr.parse source = .ok start
  | none => start = .int 1

theorem indexing_eq_pure {params : List Attribute} {position : Position} {body : Checked Block}
    {block : Block} : indexing params position body = pure block ↔
      ∃ style start inner, IndexStyle.ofPattern? ((param? params "style").getD "1") = some style ∧
        StartRead params start ∧ body = pure inner ∧ block = .indexing style start inner := by
  unfold indexing
  rw [bind_eq_pure]
  simp only [style_eq_pure]
  split
  · next source hgiven =>
      simp only [StartRead, hgiven, bind_eq_pure, expr_eq_pure, pure_eq_pure]
      constructor
      · rintro ⟨style, hstyle, _, ⟨start, hstart, rfl⟩, inner, hinner, rfl⟩
        exact ⟨style, start, inner, hstyle, hstart, hinner, rfl⟩
      · rintro ⟨style, start, inner, hstyle, hstart, hinner, rfl⟩
        exact ⟨style, hstyle, some start, ⟨start, hstart, rfl⟩, inner, hinner, rfl⟩
  · next hmissing =>
      simp only [StartRead, hmissing, bind_eq_pure, pure_eq_pure]
      constructor
      · rintro ⟨style, hstyle, _, rfl, inner, hinner, rfl⟩
        exact ⟨style, .int 1, inner, hstyle, rfl, hinner, rfl⟩
      · rintro ⟨style, _, inner, hstyle, rfl, hinner, rfl⟩
        exact ⟨style, hstyle, none, rfl, inner, hinner, rfl⟩

theorem reveal_eq_pure {inputs : List String} {params : List Attribute} {position : Position}
    {body : Checked Block} {block : Block} : reveal inputs params position body = pure block ↔
      ∃ input source value inner, param? params "input" = some input ∧ input ∈ inputs ∧
        param? params "value" = some source ∧ Expr.parse source = .ok value ∧
        body = pure inner ∧ block = .reveal input value inner := by
  unfold reveal
  rw [bind_eq_pure]
  simp only [neededParam_eq_pure]
  constructor
  · rintro ⟨_, ⟨input, hinput, rfl⟩, h⟩
    dsimp only at h
    split at h
    · exact absurd h report_ne_pure
    · next hknown =>
        obtain ⟨_, hneeded, h⟩ := bind_eq_pure.mp h
        obtain ⟨source, hsource, rfl⟩ := neededParam_eq_pure.mp hneeded
        simp only [bind_eq_pure, expr_eq_pure, pure_eq_pure] at h
        obtain ⟨_, ⟨value, hvalue, rfl⟩, inner, hinner, rfl⟩ := h
        exact ⟨input, source, value, inner, hinput, Decidable.not_not.mp hknown, hsource,
          hvalue, hinner, rfl⟩
  · rintro ⟨input, source, value, inner, hinput, hknown, hsource, hvalue, hinner, rfl⟩
    refine ⟨some input, ⟨input, hinput, rfl⟩, ?_⟩
    dsimp only
    rw [if_neg (not_not_intro hknown)]
    refine bind_eq_pure.mpr ⟨some source, neededParam_eq_pure.mpr ⟨source, hsource, rfl⟩, ?_⟩
    simp only [bind_eq_pure, expr_eq_pure, pure_eq_pure]
    exact ⟨some value, ⟨value, hvalue, rfl⟩, inner, hinner, rfl⟩

theorem lang_eq_pure {params : List Attribute} {position : Position} {body : Checked Block}
    {block : Block} : lang params position body = pure block ↔
      ∃ codes inner, param? params "code" = some codes ∧ body = pure inner ∧
        block = .lang (languageCodes codes) inner := by
  unfold lang
  simp only [bind_eq_pure, neededParam_eq_pure, pure_eq_pure]
  constructor
  · rintro ⟨_, ⟨codes, hcodes, rfl⟩, inner, hinner, rfl⟩
    exact ⟨codes, inner, hcodes, hinner, rfl⟩
  · rintro ⟨codes, inner, hcodes, hinner, rfl⟩
    exact ⟨some codes, ⟨codes, hcodes, rfl⟩, inner, hinner, rfl⟩

end Reading

end SceneQuiz
