import Mathlib.Data.List.Forall2
import SceneQuiz.Proofs.Diagnostic.Stored
/-!
What work that reports diagnostics comes to: its result, and whether it reports
an error.  Neither depends on what was reported before, nor on the places that
the diagnostics name, so it can be said of each part of the work by itself.
-/

namespace SceneQuiz

/-- A result, and whether an error is reported on the way to it. -/
structure Verdict (α : Type) where
  value : α
  isFaulty : Bool

namespace Verdict

variable {α β : Type}

def map (f : α → β) (verdict : Verdict α) : Verdict β := ⟨f verdict.value, verdict.isFaulty⟩

/-- Work after which comes other work. -/
def andThen (first : Verdict α) (second : Verdict β) : Verdict β :=
  ⟨second.value, first.isFaulty || second.isFaulty⟩

theorem map_andThen {γ : Type} (f : β → γ) (first : Verdict α) (second : Verdict β) :
    (first.andThen second).map f = first.andThen (second.map f) := rfl

theorem andThen_isFaulty {first : Verdict α} {second : Verdict β} :
    (first.andThen second).isFaulty = false ↔
      first.isFaulty = false ∧ second.isFaulty = false :=
  Bool.or_eq_false_iff

/-- Errors that are reported. -/
def ofErrors (diagnostics : List Diagnostic) : Verdict Unit := ⟨(), !diagnostics.isEmpty⟩

theorem ofErrors_isFaulty {diagnostics : List Diagnostic} :
    (ofErrors diagnostics).isFaulty = false ↔ diagnostics = [] := by
  rw [ofErrors, Bool.not_eq_false', List.isEmpty_iff]

/-- The lists of two verdicts, one after the other. -/
def append (first second : Verdict (List α)) : Verdict (List α) :=
  first.andThen (second.map (first.value ++ ·))

/-- The lists of several verdicts, one after the other. -/
def flatMap (items : List α) (judge : α → Verdict (List β)) : Verdict (List β) :=
  ⟨items.flatMap fun item => (judge item).value, items.any fun item => (judge item).isFaulty⟩

theorem flatMap_cons (item : α) (rest : List α) (judge : α → Verdict (List β)) :
    flatMap (item :: rest) judge = (judge item).append (flatMap rest judge) := rfl

theorem flatMap_isFaulty {items : List α} {judge : α → Verdict (List β)} :
    (flatMap items judge).isFaulty = false ↔ ∀ item ∈ items, (judge item).isFaulty = false := by
  simp [flatMap]

/-- Verdicts that differ in the order of their lists at most. -/
structure Alike (first second : Verdict (List α)) : Prop where
  value : first.value.Perm second.value
  isFaulty : first.isFaulty = second.isFaulty

namespace Alike

theorem refl (verdict : Verdict (List α)) : Alike verdict verdict := ⟨.refl _, rfl⟩

theorem trans {first second third : Verdict (List α)} (hleft : Alike first second)
    (hright : Alike second third) : Alike first third :=
  ⟨hleft.value.trans hright.value, hleft.isFaulty.trans hright.isFaulty⟩

theorem andThen {γ : Type} {before after : Verdict γ} {first second : Verdict (List α)}
    (hbefore : before.isFaulty = after.isFaulty) (h : Alike first second) :
    Alike (before.andThen first) (after.andThen second) :=
  ⟨h.value, congrArg₂ or hbefore h.isFaulty⟩

theorem append {first second third fourth : Verdict (List α)} (hleft : Alike first second)
    (hright : Alike third fourth) : Alike (first.append third) (second.append fourth) :=
  ⟨hleft.value.append hright.value, congrArg₂ or hleft.isFaulty hright.isFaulty⟩

theorem of_perm {items others : List α} (h : items.Perm others)
    (judge : α → Verdict (List β)) : Alike (flatMap items judge) (flatMap others judge) :=
  ⟨h.flatMap_right _, h.any_eq⟩

theorem of_forall₂ {R : α → α → Prop} {items others : List α} (h : List.Forall₂ R items others)
    {judge rejudge : α → Verdict (List β)}
    (hjudge : ∀ item other, R item other → Alike (judge item) (rejudge other)) :
    Alike (flatMap items judge) (flatMap others rejudge) := by
  induction h with
  | nil => exact refl _
  | cons hhead _ ih => exact (hjudge _ _ hhead).append ih

end Alike

end Verdict

/-- What reading statements comes to. -/
def Fragment.verdict (source : String) : Verdict (Option Fragment) :=
  match Fragment.parse source with
  | .ok code => ⟨some code, false⟩
  | .error issues => ⟨none, (CodeIssue.log issues source).hasErrors⟩

/-- What reading an expression comes to. -/
def Expr.verdict (source : String) : Verdict (Option Expr) :=
  match Expr.parse source with
  | .ok e => ⟨some e, false⟩
  | .error issues => ⟨none, (CodeIssue.log issues source).hasErrors⟩

theorem Fragment.verdict_value (source : String) :
    (Fragment.verdict source).value = (Fragment.parse source).toOption := by
  unfold verdict
  cases Fragment.parse source <;> rfl

namespace Log

theorem hasErrors_pushErrors (log : Log) (diagnostics : List Diagnostic) :
    (diagnostics.foldl pushError log).hasErrors = (log.hasErrors || !diagnostics.isEmpty) := by
  unfold hasErrors
  rw [totalErrors_foldl_pushError]
  cases diagnostics with
  | nil => simp
  | cons diagnostic rest =>
      rw [List.length_cons, List.isEmpty_cons, Bool.not_false, Bool.or_true, decide_eq_true_iff]
      omega

theorem hasErrors_absorb (log : Log) {other : Log} (h : other.Filled) (path : Locator) :
    (log.absorb other path).hasErrors = (log.hasErrors || other.hasErrors) := by
  unfold Filled at h
  have htotal : (log.absorb other path).totalErrors = log.totalErrors + other.totalErrors := by
    rw [totalErrors_absorb]
    omega
  unfold hasErrors
  rw [htotal, ← Bool.decide_or, decide_eq_decide]
  omega

end Log

namespace Logged

variable {α β : Type}

/-- Whatever was reported before, the work comes to a verdict; a log that stores
what it can still does. -/
structure ComesTo (work : Logged α) (verdict : Verdict α) : Prop where
  value : ∀ log, (work.run log).1 = verdict.value
  reports : ∀ log, (work.run log).2.hasErrors = (log.hasErrors || verdict.isFaulty)
  fills : Fills work

namespace ComesTo

theorem of_pure (value : α) : ComesTo (pure value) ⟨value, false⟩ :=
  ⟨fun _ => rfl, fun log => (Bool.or_false log.hasErrors).symm, .of_pure value⟩

theorem bind {work : Logged α} {next : α → Logged β} {first : Verdict α}
    {second : Verdict β} (hwork : ComesTo work first)
    (hnext : ComesTo (next first.value) second) :
    ComesTo (work >>= next) (first.andThen second) := by
  have hrun : ∀ log, (work >>= next).run log = (next first.value).run (work.run log).2 := by
    intro log
    rw [← hwork.value log]
    rfl
  refine ⟨fun log => ?_, fun log => ?_, fun log hlog => ?_⟩
  · rw [hrun]
    exact hnext.value _
  · rw [hrun, hnext.reports, hwork.reports, Bool.or_assoc]
    rfl
  · rw [hrun]
    exact hnext.fills _ (hwork.fills log hlog)

/-- Work that ends in a change of the result. -/
theorem map {work : Logged α} {next : α → Logged β} {verdict : Verdict α} {f : α → β}
    (hwork : ComesTo work verdict) (hnext : ∀ value, next value = pure (f value)) :
    ComesTo (work >>= next) (verdict.map f) := by
  have hpure : ComesTo (next verdict.value) ⟨f verdict.value, false⟩ := by
    rw [hnext]
    exact of_pure _
  have hboth := hwork.bind hpure
  rwa [Verdict.andThen, Bool.or_false] at hboth

theorem errors (diagnostics : List Diagnostic) :
    ComesTo (Logged.errors diagnostics) (.ofErrors diagnostics) :=
  ⟨fun _ => rfl, fun log => log.hasErrors_pushErrors diagnostics, .errors diagnostics⟩

theorem absorb {other : Log} (h : other.Filled) (path : Locator) :
    ComesTo (Logged.absorb other path) ⟨(), other.hasErrors⟩ :=
  ⟨fun _ => rfl, fun log => log.hasErrors_absorb h path, .absorb h path⟩

theorem fragment? (source : String) (path : Locator) :
    ComesTo (Logged.fragment? source path) (Fragment.verdict source) := by
  unfold Logged.fragment? Fragment.verdict
  cases Fragment.parse source with
  | ok found => exact of_pure (some found)
  | error issues =>
      exact (absorb (Log.filled_ofErrors _) path).map (f := fun _ => none) fun _ => rfl

theorem expr? (source : String) (path : Locator) :
    ComesTo (Logged.expr? source path) (Expr.verdict source) := by
  unfold Logged.expr? Expr.verdict
  cases Expr.parse source with
  | ok found => exact of_pure (some found)
  | error issues =>
      exact (absorb (Log.filled_ofErrors _) path).map (f := fun _ => none) fun _ => rfl

/-- Two lists, one after the other. -/
theorem append {work rest : Logged (List α)} {first second : Verdict (List α)}
    (hwork : ComesTo work first) (hrest : ComesTo rest second) :
    ComesTo (do let entries ← work; let others ← rest; return entries ++ others)
      (first.append second) :=
  hwork.bind (hrest.map fun _ => rfl)

/-- What holds of accepted work holds of a verdict without faults. -/
theorem accepted {work : Logged α} {verdict : Verdict α} {post : α → Prop}
    (h : ComesTo work verdict) (haccepts : Accepts work post)
    (hfaulty : verdict.isFaulty = false) : post verdict.value := by
  rw [← h.value .empty]
  refine (haccepts .empty ?_).2
  rw [h.reports, hfaulty]
  rfl

end ComesTo

end Logged

end SceneQuiz
