import SceneQuiz.Proofs.Template.Concatenation
import SceneQuiz.Template.Compiled
/-!
Bringing code to normal form keeps its meaning.  A concatenation is compared by
the texts that its arguments give, everything else by its parts.  Main result:
code and its normal form end alike wherever both end, as long as the code is
evaluated as it stands, no list in it is tagged, and the builtins that yield
texts stay what they are.
-/

namespace SceneQuiz

namespace Expr

open Concat

variable {limit : Nat} {expand : String → Except TemplateIssue Expr}

/-- A concatenation in normal form reads as its merged parts do. -/
theorem leads_normalForm {args : List Expr} {before after : Machine}
    {outcome : Except EvalError String}
    (h : Reads before ((mergedParts args).map (foldConcats limit)) outcome after)
    (fuel : Nat) :
    (((concatenation args).foldConcats limit).evalWithin fuel).Leads before
      (outcome.map Value.str) after := by
  unfold concatenation
  rw [← mergedParts]
  split
  · next hnil =>
      rw [hnil] at h
      cases h with
      | nil halike _ => exact leads_literal "" fuel halike
  · next only honly =>
      rw [honly] at h
      split
      · next htext => exact h.leads_text ((yieldsText_foldConcats only).trans htext) fuel
      · exact h.leads_foldCall limit fuel
  · rw [foldConcats, foldConcatsAll_eq_map]
    exact h.leads_foldCall limit fuel

theorem isDeclarative_of_yieldsText {e : Expr} (h : yieldsText e = true) :
    e.isDeclarative = false := by
  cases e with
  | str | call => rfl
  | _ => cases h

theorem isDeclarative_concatenation (args : List Expr) :
    (concatenation args).isDeclarative = false := by
  unfold concatenation
  split
  · rfl
  · split
    · next htext => exact isDeclarative_of_yieldsText htext
    · rfl
  · rfl

/-- What a normal form has in common with the expression. -/
structure Preserved (expand : String → Except TemplateIssue Expr) (limit : Nat)
    (e : Expr) : Prop where
  kept : e.KeptBy (normalForm expand limit)
  follows : ∀ fuel other, Eval.Follows textFunctions (e.evalWithin fuel)
    ((e.normalForm expand limit).evalWithin other)
  reads : TextFollows [e] ((e.mergedForm expand).concatParts.map (foldConcats limit))

theorem textFollows_args {args : List Expr}
    (h : ∀ e ∈ args, e.Preserved expand limit) :
    TextFollows args
      ((concatPartsOfAll (args.map (mergedForm expand))).map (foldConcats limit)) := by
  induction args with
  | nil => exact .nil
  | cons e rest ih =>
      rw [List.forall_mem_cons] at h
      rw [List.map_cons, concatPartsOfAll, List.map_append]
      exact h.1.reads.append (ih h.2)

theorem preserved_sconcat {args : List Expr} (h : ∀ e ∈ args, e.Preserved expand limit) :
    (Expr.call "sconcat" args).Preserved expand limit := by
  have hargs : TextFollows args
      ((mergedParts (args.map (mergedForm expand))).map (foldConcats limit)) := by
    rw [mergedParts, ← mergeTexts_map foldConcats_str fun _ _ => eq_str_of_foldConcats]
    exact (textFollows_args h).merge
  refine ⟨Or.inr ⟨rfl, ?_⟩, fun fuel other => ?_, ?_⟩
  · rw [normalForm, isDeclarative_foldConcats, mergedForm_sconcat,
      isDeclarative_concatenation]
  · have hself : Eval.Follows textFunctions
        ((Expr.call "sconcat" args).evalWithin fuel)
        ((Expr.call "sconcat" args).evalWithin fuel) := Eval.Follows.refl _ fuel fuel
    refine ⟨hself.grows, ?_⟩
    intro before outcome after hrun hgas hlacks
    obtain ⟨rest, hstep⟩ := Eval.Follows.exists_step hrun hgas
    obtain ⟨text, hjoined, rfl⟩ := joined_of_sconcat hstep hlacks
    have htext : text ≠ .error .gasExhausted := by
      rintro rfl
      exact hgas rfl
    have hstart : before.Alike { before with gas := before.gas + 1 } := ⟨rfl, rfl, rfl⟩
    rw [normalForm, mergedForm_sconcat]
    exact leads_normalForm ((hargs _ _ _ _ hjoined htext hlacks).alike hstart) other
  · rw [mergedForm_sconcat]
    rcases concatParts_concatenation (args.map (mergedForm expand)) with
      hparts | ⟨hnil, hparts⟩
    · rw [hparts]
      exact hargs.nested
    · rw [hparts]
      rw [hnil] at hargs
      exact hargs.nested.empty_literal

theorem preserved_other {e : Expr} (he : e.Everywhere Rewritable)
    (hsconcat : ∀ args, e ≠ .call "sconcat" args)
    (h : ∀ part ∈ e.children, part.Everywhere (Preserved expand limit)) :
    e.Preserved expand limit := by
  have hnormal : e.normalForm expand limit = e.mapParts (normalForm expand limit) :=
    normalForm_eq he hsconcat
  have hfollows : ∀ fuel other, Eval.Follows textFunctions (e.evalWithin fuel)
      ((e.normalForm expand limit).evalWithin other) := by
    intro fuel other
    rw [hnormal]
    cases fuel with
    | zero => exact Eval.Follows.without_fuel e _
    | succ fuel =>
        refine Eval.Follows.of_step (fun other => ?_) other
        refine Eval.Follows.step (fun body => Eval.Follows.refl body fuel other) ?_ ?_
        · intro hverbatim
          exact absurd (he.here.evaluated.symm.trans hverbatim) (by decide)
        · exact fun part hpart => (h part hpart).mono fun _ hpreserved =>
            ⟨hpreserved.kept, hpreserved.follows fuel other⟩
  refine ⟨Or.inl hnormal, hfollows, ?_⟩
  have hwhole : (e.mergedForm expand).concatParts = [e.mergedForm expand] := by
    refine concatParts_other fun args heq => ?_
    rw [mergedForm_eq expand he.here.notInline, settle_mapParts he hsconcat] at heq
    cases e with
    | call name items =>
        rw [(Expr.call.inj heq).1] at hsconcat
        exact hsconcat items rfl
    | _ => cases heq
  rw [hwhole]
  exact TextFollows.single hfollows

theorem preserved {e : Expr} (he : e.Everywhere Rewritable) :
    e.Everywhere (Preserved expand limit) := by
  induction e using Expr.ofParts with
  | hstep e ih =>
    have hparts : ∀ part ∈ e.children, part.Everywhere (Preserved expand limit) :=
      fun part hpart => ih part hpart (he.inside hpart)
    refine .node ?_ hparts
    by_cases hsconcat : ∃ args, e = .call "sconcat" args
    · obtain ⟨args, rfl⟩ := hsconcat
      exact preserved_sconcat fun part hpart => (hparts part hpart).here
    · exact preserved_other he (fun args heq => hsconcat ⟨args, heq⟩) hparts

theorem merged_complete {e : Expr} (he : e.Everywhere Rewritable) :
    (e.merged expand).faults = [] := by
  induction e using Expr.ofParts with
  | hstep e ih =>
    exact faults_merged expand he.here.notInline fun part hpart =>
      ih part hpart (he.inside hpart)

/-- Code whose parts are all evaluated as they stand, without inline templates
and without lists tagged by a literal first item, has a normal form, and that
does what the code does: from the same machine both end in the same value or in
similar errors and leave the same variables and functions, if neither uses up
its budget and no function takes the name of a builtin that yields texts.
Functions are never removed, so it is enough that none has in the end. -/
theorem normalizedIn_follows (ctx : TemplateContext) {e : Expr}
    (he : e.Everywhere Rewritable) :
    ∃ normal, e.normalizedIn ctx = .ok normal ∧
      ∀ {machine after final : Machine} {outcome seen : Except EvalError Value},
        e.eval machine = Eval.lift outcome after →
        normal.eval machine = Eval.lift seen final →
        outcome ≠ .error .gasExhausted → seen ≠ .error .gasExhausted →
        after.Lacks textFunctions → Similar outcome seen ∧ after.Alike final := by
  have hresult : (e.merged ctx.expand).result = .ok (e.mergedForm ctx.expand) :=
    Checked.result_eq_ok_iff.mpr ⟨merged_complete he, rfl⟩
  refine ⟨e.normalForm ctx.expand ctx.options.foldLimit, ?_, ?_⟩
  · rw [normalizedIn, normalize, hresult]
    rfl
  · intro machine after final outcome seen hrun hnormal hgas hseen hlacks
    have hpreserved : e.Preserved ctx.expand ctx.options.foldLimit := (preserved he).here
    rcases (hpreserved.follows machine.remaining machine.remaining).leads hrun hgas
      hlacks machine (.refl machine) with
      ⟨spent, hspent⟩ | ⟨other, last, hsimilar, halike, hend⟩
    · obtain ⟨rfl, -⟩ := Eval.lift_injective
        ((Eval.lift_error .gasExhausted spent).trans (hspent.symm.trans hnormal))
      exact absurd rfl hseen
    · obtain ⟨rfl, rfl⟩ := Eval.lift_injective (hend.symm.trans hnormal)
      exact ⟨hsimilar, halike⟩

/-- A check of how a run ends, as a fact about the run. -/
theorem exists_of_check (run : Eval Value) (machine : Machine)
    (check : Value → Machine → Bool)
    (h : (match run machine with
      | .ok value after => check value after
      | .error _ _ => false) = true) :
    ∃ value after, run machine = Eval.lift (.ok value) after ∧
      check value after = true := by
  split at h
  · next value after hrun => exact ⟨value, after, hrun, h⟩
  · cases h

/-- Is a value this text? -/
def isText (text : String) : Value → Bool
  | .str found => found == text
  | _ => false

theorem eq_of_isText {text : String} {value : Value} (h : isText text value = true) :
    value = .str text := by
  cases value with
  | str found => exact congrArg Value.str (beq_iff_eq.mp h)
  | _ => cases h

/-- `sconcat("a", sconcat("b", x: "c"), "", string(x))` -/
def assigningConcat : Expr :=
  .call "sconcat" [.str "a",
    .call "sconcat" [.str "b", assign "x" (.str "c")], .str "",
    .call "string" [.ident "x"]]

/-- `sconcat(sconcat("ab", x: "c"), string(x))` -/
def foldedConcat : Expr :=
  .call "sconcat" [.call "sconcat" [.str "ab", assign "x" (.str "c")],
    .call "string" [.ident "x"]]

/-- Settings that allow two arguments in one concatenation. -/
def shortConcats : TemplateContext :=
  ⟨{ Options.default with concatLimit := 0 }, [], none⟩

theorem assigningConcat_follows :
    assigningConcat.Everywhere Rewritable ∧
      assigningConcat.normalizedIn shortConcats = .ok foldedConcat ∧
      ∃ after final,
        assigningConcat.eval (Machine.fresh 100) =
          Eval.lift (.ok (.str "abcc")) after ∧
        foldedConcat.eval (Machine.fresh 100) = Eval.lift (.ok (.str "abcc")) final ∧
        after.Lacks textFunctions ∧ after.Alike final := by
  have htext : ∀ text, (Expr.str text).Everywhere Rewritable := fun _ =>
    .leaf ⟨⟨rfl, nofun, nofun⟩, rfl⟩ rfl
  have hname : (Expr.ident "x").Everywhere Rewritable :=
    .leaf ⟨⟨rfl, nofun, nofun⟩, rfl⟩ rfl
  have hassign : (Expr.assign "x" (.str "c")).Everywhere Rewritable :=
    .node ⟨⟨rfl, nofun, nofun⟩, rfl⟩ (by simp [assign, children, htext, hname])
  have hinner : (Expr.call "sconcat" [.str "b", assign "x" (.str "c")]).Everywhere
      Rewritable :=
    .node (rewritable_call (by decide) _) (by simp [children, htext, hassign])
  have hstring : (Expr.call "string" [.ident "x"]).Everywhere Rewritable :=
    .node (rewritable_call (by decide) _) (by simp [children, hname])
  have he : assigningConcat.Everywhere Rewritable :=
    .node (rewritable_call (by decide) _)
      (by simp [assigningConcat, children, htext, hinner, hstring])
  obtain ⟨normal, hnormal, hmeaning⟩ := normalizedIn_follows shortConcats he
  have hform : assigningConcat.normalizedIn shortConcats = .ok foldedConcat := rfl
  cases hnormal.symm.trans hform
  obtain ⟨value, after, hrun, hcheck⟩ := exists_of_check assigningConcat.eval
    (Machine.fresh 100) (fun value after =>
      isText "abcc" value && decide (after.Lacks textFunctions)) (by decide +kernel)
  rw [Bool.and_eq_true, decide_eq_true_iff] at hcheck
  obtain ⟨hvalue, hlacks⟩ := hcheck
  obtain rfl := eq_of_isText hvalue
  obtain ⟨seen, final, hend, hseen⟩ := exists_of_check foldedConcat.eval
    (Machine.fresh 100) (fun value _ => isText "abcc" value) (by decide +kernel)
  obtain rfl := eq_of_isText hseen
  have hmeans := hmeaning hrun hend (by simp) (by simp) hlacks
  exact ⟨he, hform, after, final, hrun, hend, hlacks, hmeans.2⟩

/-- `[sconcat("%root"), "a", "b"]` -/
def computedTag : Expr := .list [.call "sconcat" [.str rootTag], .str "a", .str "b"]

theorem ordinary_computedTag : computedTag.Everywhere Ordinary := by
  have htext : ∀ text, (Expr.str text).Everywhere Ordinary := fun _ =>
    .leaf ⟨rfl, nofun, nofun⟩ rfl
  have htag : (Expr.call "sconcat" [.str rootTag]).Everywhere Ordinary :=
    .node (rewritable_call (by decide) _).toOrdinary (by simp [children, htext])
  exact .node ⟨rfl, nofun, nofun⟩ (by simp [computedTag, children, htext, htag])

/-- `(f(), sconcat(string(true)))` -/
def lateRedefinition : Expr :=
  .group [.call "f" [], .call "sconcat" [.call "string" [.bool true]]]

theorem ordinary_lateRedefinition : lateRedefinition.Everywhere Ordinary := by
  have htrue : (Expr.bool true).Everywhere Ordinary := .leaf ⟨rfl, nofun, nofun⟩ rfl
  have hf : (Expr.call "f" []).Everywhere Ordinary :=
    .leaf (rewritable_call (by decide) _).toOrdinary rfl
  have hstring : (Expr.call "string" [.bool true]).Everywhere Ordinary :=
    .node (rewritable_call (by decide) _).toOrdinary (by simp [children, htrue])
  have hconcat : (Expr.call "sconcat" [.call "string" [.bool true]]).Everywhere Ordinary :=
    .node (rewritable_call (by decide) _).toOrdinary (by simp [children, hstring])
  exact .node ⟨rfl, nofun, nofun⟩ (by simp [lateRedefinition, children, hf, hconcat])

/-- A machine where a call of `f` defines `string(x) := x`. -/
def redefiner : Machine :=
  { Machine.fresh 100 with
    functions := NameMap.empty.insert "f"
      ⟨[], .binary .define (.call "string" [.ident "x"]) (.ident "x")⟩ }

/-- A tag may come from a concatenation of literals, and a builtin may be
hidden while the code runs: then the normal form has another value. -/
theorem normalizedIn_alters :
    (computedTag.Everywhere Ordinary ∧ (Machine.fresh 100).Lacks textFunctions ∧
      ∃ normal after final, computedTag.normalizedIn shortConcats = .ok normal ∧
        computedTag.eval (Machine.fresh 100) =
          .ok (.list [.str "%root", .str "a", .str "b"]) after ∧
        normal.eval (Machine.fresh 100) =
          .ok (.list [.str "%root", .str "ab"]) final) ∧
    lateRedefinition.Everywhere Ordinary ∧ redefiner.Lacks textFunctions ∧
      ∃ normal after final, lateRedefinition.normalizedIn shortConcats = .ok normal ∧
        lateRedefinition.eval redefiner = .ok (.str "true") after ∧
        normal.eval redefiner = .ok (.bool true) final := by
  refine ⟨⟨ordinary_computedTag, fun _ _ => ⟨rfl, rfl⟩, .list [.str rootTag, .str "ab"],
    _, _, rfl, rfl, rfl⟩, ordinary_lateRedefinition, by decide +kernel,
    .group [.call "f" [], .call "string" [.bool true]], ?_⟩
  obtain ⟨value, after, hrun, hvalue⟩ := exists_of_check lateRedefinition.eval redefiner
    (fun value _ => isText "true" value) (by decide +kernel)
  obtain ⟨seen, final, hend, hseen⟩ := exists_of_check
    (Expr.group [.call "f" [], .call "string" [.bool true]]).eval redefiner
    (fun value _ => value.asBool? == some true) (by decide +kernel)
  obtain rfl := eq_of_isText hvalue
  cases seen <;> simp [Value.asBool?] at hseen
  subst hseen
  exact ⟨after, final, rfl, hrun, hend⟩

end Expr

end SceneQuiz
