import SceneQuiz.Proofs.Machine.Mirroring
import SceneQuiz.Proofs.Page.Completion
import SceneQuiz.Proofs.Template.Discreet
import SceneQuiz.Proofs.Template.Meaning
/-!
Code whose normal form does the same even where the outputs of loops around it
differ: it is rewritten faithfully and does not read those outputs.  What the
author wrote is such code, and so is the code of every flat block.
-/

namespace SceneQuiz

namespace Emit

open SceneQuiz.Expr

/-- Names of loop outputs have an `o` after their number. -/
theorem notMem_toDigits (n : Nat) : 'o' ∉ Nat.toDigits 10 n := by
  intro hmem
  exact absurd (Nat.isDigit_of_mem_toDigits (by omega) (by omega) hmem) (by decide)

/-- The outputs of the first `loops` loops. -/
def earlierOutputs (loops : Nat) : Set String := {name | ∃ n ≤ loops, name = loopOutput n}

variable {loops n : Nat}

theorem notMem_earlierOutputs {name : String} (h : 'o' ∉ name.toList) :
    name ∉ earlierOutputs loops := by
  rintro ⟨n, -, rfl⟩
  exact h (by simp [loopOutput])

theorem notMem_earlierOutputs_of_visible {name : String} (h : isHidden name = false) :
    name ∉ earlierOutputs loops := by
  rintro ⟨n, -, rfl⟩
  simp [isHidden, loopOutput, loopStem] at h

theorem loopIndex_notMem_earlierOutputs (n : Nat) : loopIndex n ∉ earlierOutputs loops := by
  apply notMem_earlierOutputs
  simp [loopIndex, loopStem, notMem_toDigits]

theorem loopList_notMem_earlierOutputs (n i : Nat) : loopList n i ∉ earlierOutputs loops := by
  apply notMem_earlierOutputs
  simp [loopList, loopStem, notMem_toDigits]

theorem loopOutput_notMem_earlierOutputs (h : loops < n) :
    loopOutput n ∉ earlierOutputs loops := by
  rintro ⟨other, hother, heq⟩
  have hdigits : Nat.toDigits 10 n = Nat.toDigits 10 other := by
    have htext := congrArg String.toList heq
    simpa [loopOutput, loopStem] using htext
  have hsame := congrArg (Nat.ofDigitChars 10 · 0) hdigits
  rw [Nat.ofDigitChars_ten_toDigits, Nat.ofDigitChars_ten_toDigits] at hsame
  omega

theorem earlierOutputs_mono {more : Nat} (h : loops ≤ more) :
    earlierOutputs loops ⊆ earlierOutputs more :=
  fun _ ⟨n, hn, hname⟩ => ⟨n, hn.trans h, hname⟩

/-- Inside a loop, its own output joins those of the loops around it. -/
theorem insert_subset_earlierOutputs {loose : Set String} (h : loose ⊆ earlierOutputs loops) :
    insert (loopOutput (loops + 1)) loose ⊆ earlierOutputs (loops + 1) :=
  Set.insert_subset ⟨_, Nat.le_refl _, rfl⟩ (h.trans (earlierOutputs_mono (Nat.le_succ loops)))

end Emit

namespace Expr

open Eval Emit Value

variable {expand : String → Except TemplateIssue Expr} {limit loops : Nat} {loose : Set String}

/-- Is this an inline template? -/
def isInline : Expr → Bool
  | .call name _ => name == "castext"
  | _ => false

theorem rewritable_iff {e : Expr} :
    e.Rewritable ↔ e.isVerbatim = false ∧ e.isInline = false ∧ e.isTagged = false := by
  constructor
  · intro h
    refine ⟨h.evaluated, ?_, h.untagged⟩
    cases e with
    | call name args =>
        have hname : name ≠ "castext" := fun heq => h.notInline args (by rw [heq])
        simpa [isInline] using hname
    | _ => rfl
  · rintro ⟨hevaluated, hinline, huntagged⟩
    refine ⟨⟨hevaluated, ?_, ?_⟩, huntagged⟩
    · rintro args rfl
      cases hinline
    · rintro rest rfl
      cases huntagged

instance : DecidablePred Rewritable := fun _ => decidable_of_iff _ rewritable_iff.symm

/-- Code that is rewritten faithfully and reads no loose variable. -/
def Steady (loose : Set String) (e : Expr) : Prop :=
  e.Everywhere fun part => part.Rewritable ∧ part.Avoids loose

/-- What an author may write. -/
def Plain (e : Expr) : Prop :=
  e.Everywhere fun part => part.Rewritable ∧ part.isDiscreet = true

theorem Plain.steady {e : Expr} (he : e.Plain) (hloose : loose ⊆ earlierOutputs loops) :
    e.Steady loose := by
  apply he.mono
  rintro part ⟨hpart, hdiscreet⟩
  have hvisible : ∀ {name}, (!isHidden name) = true → name ∉ loose := by
    intro name hname hmem
    exact notMem_earlierOutputs_of_visible (by simpa using hname) (hloose hmem)
  refine ⟨hpart, ?_⟩
  cases part with
  | ident name => exact hvisible hdiscreet
  | forIn var => exact hvisible hdiscreet
  | forRange var => exact hvisible hdiscreet
  | binary op left right =>
      cases op with
      | define => exact absurd hpart.evaluated (by simp [isVerbatim])
      | _ => trivial
  | _ => trivial

namespace Steady

variable {e : Expr}

theorem rewritable (h : e.Steady loose) : e.Everywhere Rewritable := h.mono fun _ hpart => hpart.1

/-- The normal form has the same values. -/
theorem mirrors (h : e.Steady loose) :
    e.MirrorsExactly CollectsAs loose (e.normalForm expand limit) := by
  intro fuel
  apply Eval.Mirrors.of_blind
  · exact Blind.evalWithin fuel (h.mono fun _ hpart => hpart.2)
  · exact (preserved h.rewritable).here.follows fuel
  · rw [Concat.textFunctions_eq]
    exact List.forall_mem_map.mpr fun builtin _ => ⟨builtin, rfl⟩

/-- A local that starts the same. -/
theorem sameLocal (h : e.Steady loose) (hlocal : e.isLocal = true) :
    SameLocal CollectsAs loose e (e.normalForm expand limit) := by
  rcases exists_of_isLocal hlocal with ⟨name, rfl⟩ | ⟨name, right, rfl⟩
  · exact .plain h.here.2
  · have hname : (Expr.ident name).Steady loose := h.inside (by simp [children])
    have hright : right.Steady loose := h.inside (by simp [children])
    have hform : (Expr.binary .assign (.ident name) right).normalForm expand limit =
        .assign name (right.normalForm expand limit) := rfl
    rw [hform]
    exact .start hname.here.2 hright.mirrors

theorem sameLocals {items : List Expr} (h : ∀ e ∈ items, e.Steady loose)
    (hlocals : ∀ e ∈ items, e.isLocal = true) :
    List.Forall₂ (SameLocal CollectsAs loose) items (items.map (normalForm expand limit)) := by
  apply List.forall₂_map_right_iff.mpr
  exact List.forall₂_same.mpr fun e he => (h e he).sameLocal (hlocals e he)

theorem mirrors_each {items : List Expr} (h : ∀ e ∈ items, e.Steady loose) :
    List.Forall₂ (Mirrors CollectsAs loose fun _ _ => True) items
      (items.map (normalForm expand limit)) := by
  apply List.forall₂_map_right_iff.mpr
  exact List.forall₂_same.mpr fun e he => (h e he).mirrors.weaken fun _ => trivial

/-- The normal form is no tagged list. -/
theorem rootParts (h : e.Steady loose) :
    (e.mergedForm expand).rootParts = [e.mergedForm expand] := by
  apply Concat.rootParts_other
  intro items heq
  by_cases hsconcat : ∃ args, e = .call "sconcat" args
  · obtain ⟨args, rfl⟩ := hsconcat
    have hplain := isDeclarative_concatenation (args.map (mergedForm expand))
    rw [← mergedForm_sconcat, heq] at hplain
    cases hplain
  · rw [mergedForm_eq expand h.rewritable.here.notInline,
      settle_mapParts h.rewritable fun args hargs => hsconcat ⟨args, hargs⟩] at heq
    cases e with
    | list parts =>
        obtain ⟨first, rest, rfl, hfirst, -⟩ := List.map_eq_cons_iff.mp (Expr.list.inj heq)
        have htext : (first.mergedForm expand).literalText? = first.literalText? :=
          literalText?_mergedForm (h.rewritable.inside (List.mem_cons_self ..))
        rw [hfirst] at htext
        have htagged : (first.literalText? == some rootTag) = true := beq_iff_eq.mpr htext.symm
        exact absurd (h.rewritable.here.untagged.symm.trans htagged) (by decide)
    | _ => cases heq

end Steady

end Expr

namespace Emit

theorem admits_steady {loops : Nat} {loose : Set String} (hloose : loose ⊆ earlierOutputs loops) :
    Admits loops (· ∉ loose) fun e => e.Rewritable ∧ e.Avoids loose where
  literal := ⟨⟨⟨⟨rfl, nofun, nofun⟩, rfl⟩, trivial⟩, fun _ => ⟨⟨⟨rfl, nofun, nofun⟩, rfl⟩, trivial⟩,
    fun _ => ⟨⟨⟨rfl, nofun, nofun⟩, rfl⟩, trivial⟩⟩
  ident hname := ⟨⟨⟨rfl, nofun, nofun⟩, rfl⟩, hname⟩
  call name hname args := by
    refine ⟨Expr.rewritable_call ?_ args, trivial⟩
    rintro rfl
    revert hname
    decide
  index _ _ := ⟨⟨⟨rfl, nofun, nofun⟩, rfl⟩, trivial⟩
  locals {items} hitems := by
    refine ⟨?_, trivial⟩
    cases items with
    | nil => exact ⟨⟨rfl, nofun, nofun⟩, rfl⟩
    | cons first rest =>
        rcases Expr.exists_of_isLocal (hitems first rfl) with ⟨name, rfl⟩ | ⟨name, right, rfl⟩ <;>
          exact ⟨⟨rfl, nofun, nofun⟩, rfl⟩
  group _ := ⟨⟨⟨rfl, nofun, nofun⟩, rfl⟩, trivial⟩
  assign _ _ := ⟨⟨⟨rfl, nofun, nofun⟩, rfl⟩, trivial⟩
  cond _ _ := ⟨⟨⟨rfl, nofun, nofun⟩, rfl⟩, trivial⟩
  forRange hvar _ _ _ _ := ⟨⟨⟨rfl, nofun, nofun⟩, rfl⟩, hvar⟩
  saved name hname hmem := by
    have hsaved : ∀ name ∈ ["%_s", "%_r", "simp"], 'o' ∉ name.toList := by decide
    exact notMem_earlierOutputs (hsaved name hname) (hloose hmem)
  helper n hn :=
    ⟨fun hmem => loopIndex_notMem_earlierOutputs n (hloose hmem),
      fun hmem => loopOutput_notMem_earlierOutputs hn (hloose hmem),
      fun i hmem => loopList_notMem_earlierOutputs n i (hloose hmem)⟩

end Emit

/-- The code of a flat block is steady. -/
theorem Block.steady_codeAfter {loops : Nat} {loose : Set String}
    (hloose : loose ⊆ Emit.earlierOutputs loops) (block : Block) (hflat : block.isFlat = true)
    (hauthored : ∀ e ∈ block.authored, e.Plain)
    (hbinders : ∀ name ∈ block.binders, isHidden name = false) :
    (block.codeAfter loops).Steady loose := by
  apply Block.everywhere_codeAfter (Emit.admits_steady hloose)
  · intro hnot
    rw [hflat] at hnot
    cases hnot
  · exact fun e he => (hauthored e he).steady hloose
  · exact fun name hname hmem =>
      Emit.notMem_earlierOutputs_of_visible (hbinders name hname) (hloose hmem)

end SceneQuiz
