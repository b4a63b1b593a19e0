import SceneQuiz.Proofs.Diagnostic.Reported
/-!
Which errors a log stores.  It stores the first ones up to its limit and counts
the others, whatever is reported to it and whatever logs it takes over.  So a
log that counts an error has one to show, and nothing that an inner log drops would
have found room in an outer one.  However a log came about, by reports and by logs that
were taken over in any order and to any depth, it shows the first errors of the full
sequence and counts all of them.

A report is located within the part that it is about, and moved below the locator of
that part when its log is taken over.  So the places that work may point at are those
of its own reports, and those of the logs it takes over.
-/

namespace SceneQuiz

namespace Log

/-- A log that stores all errors it counts, up to the limit. -/
def Filled (log : Log) : Prop := log.errors.length = min log.totalErrors errorLimit

theorem filled_empty : empty.Filled := rfl

namespace Filled

variable {log other : Log}

theorem pushError (h : log.Filled) (diagnostic : Diagnostic) :
    (log.pushError diagnostic).Filled := by
  unfold Filled at h ⊢
  by_cases hroom : log.errors.length < errorLimit
  · simp only [Log.pushError, if_pos hroom, List.length_append, List.length_singleton]
    omega
  · simp only [Log.pushError, if_neg hroom]
    omega

theorem pushErrors (h : log.Filled) (diagnostics : List Diagnostic) :
    (diagnostics.foldl Log.pushError log).Filled :=
  List.foldlRecOn diagnostics _ h fun _ hlog diagnostic _ => hlog.pushError diagnostic

theorem pushWarnings (h : log.Filled) (diagnostics : List Diagnostic) :
    (diagnostics.foldl Log.pushWarning log).Filled :=
  List.foldlRecOn diagnostics _ h fun _ hlog _ _ => hlog

/-- Errors that the other log only counts come after more than this log can
store. -/
theorem absorb (h : log.Filled) (hother : other.Filled) (path : Locator) :
    (log.absorb other path).Filled := by
  have hstored : (other.errors.foldl (fun log error => log.pushError (error.under path))
      log).Filled := by
    have hpushed := h.pushErrors (other.errors.map fun error => error.under path)
    rwa [List.foldl_map] at hpushed
  have htotal := totalErrors_foldl_pushError (other.errors.map fun error => error.under path) log
  rw [List.foldl_map, List.length_map] at htotal
  refine List.foldlRecOn other.warnings _ ?_ fun _ hlog _ _ => hlog
  unfold Filled at *
  dsimp only
  omega

end Filled

theorem filled_ofErrors (diagnostics : List Diagnostic) : (ofErrors diagnostics).Filled :=
  filled_empty.pushErrors diagnostics

/-- A log with errors has one to show. -/
theorem Filled.errors_ne_nil {log : Log} (h : log.Filled) (herrors : log.hasErrors = true) :
    log.errors ≠ [] := by
  have hcounted : 0 < log.totalErrors := of_decide_eq_true herrors
  unfold Filled errorLimit at h
  exact List.ne_nil_of_length_pos (by omega)

theorem Filled.errors_eq_nil {log : Log} (h : log.Filled) (hnone : log.hasErrors = false) :
    log.errors = [] := by
  unfold Filled at h
  rw [hasErrors_eq_false_iff.mp hnone, Nat.zero_min] at h
  exact List.length_eq_zero_iff.mp h

end Log

namespace Logged

variable {α β : Type}

/-- Work that leaves a log filled. -/
def Fills (work : Logged α) : Prop := ∀ log : Log, log.Filled → (work.run log).2.Filled

namespace Fills

theorem of_pure (value : α) : Fills (pure value : Logged α) := fun _ h => h

theorem errors (diagnostics : List Diagnostic) : Fills (Logged.errors diagnostics) :=
  fun _ h => h.pushErrors diagnostics

theorem absorb {other : Log} (h : other.Filled) (path : Locator) :
    Fills (Logged.absorb other path) :=
  fun _ hlog => hlog.absorb h path

end Fills

end Logged

namespace Diagnostic

theorem path_error (code : Code) (message : String) (path : Locator) :
    ((error code message).under path).path = path := List.append_nil path

theorem path_warning (code : Code) (message : String) (path : Locator) :
    ((warning code message).under path).path = path := List.append_nil path

end Diagnostic

namespace Log

variable {P : Locator → Prop} {log other : Log}

/-- A log whose diagnostics are all at places of a kind. -/
structure Located (P : Locator → Prop) (log : Log) : Prop where
  errors : ∀ error ∈ log.errors, P error.path
  warnings : ∀ warning ∈ log.warnings, P warning.path

theorem located_empty (P : Locator → Prop) : empty.Located P :=
  ⟨List.forall_mem_nil _, List.forall_mem_nil _⟩

namespace Located

theorem pushError (h : log.Located P) {diagnostic : Diagnostic} (hpath : P diagnostic.path) :
    (log.pushError diagnostic).Located P := by
  constructor
  · intro error herror
    by_cases hroom : log.errors.length < errorLimit
    · simp only [Log.pushError, if_pos hroom, List.mem_append, List.mem_singleton] at herror
      obtain hstored | rfl := herror
      · exact h.errors error hstored
      · exact hpath
    · simp only [Log.pushError, if_neg hroom] at herror
      exact h.errors error herror
  · exact h.warnings

theorem pushWarning (h : log.Located P) {diagnostic : Diagnostic} (hpath : P diagnostic.path) :
    (log.pushWarning diagnostic).Located P := by
  constructor
  · exact h.errors
  · rw [Log.pushWarning, List.forall_mem_append, List.forall_mem_singleton]
    exact ⟨h.warnings, hpath⟩

theorem pushErrors (h : log.Located P) {diagnostics : List Diagnostic}
    (hpaths : ∀ diagnostic ∈ diagnostics, P diagnostic.path) :
    (diagnostics.foldl Log.pushError log).Located P :=
  List.foldlRecOn diagnostics _ h fun _ hlog diagnostic hmem =>
    hlog.pushError (hpaths diagnostic hmem)

theorem pushWarnings (h : log.Located P) {diagnostics : List Diagnostic}
    (hpaths : ∀ diagnostic ∈ diagnostics, P diagnostic.path) :
    (diagnostics.foldl Log.pushWarning log).Located P :=
  List.foldlRecOn diagnostics _ h fun _ hlog diagnostic hmem =>
    hlog.pushWarning (hpaths diagnostic hmem)

/-- What the other log holds is moved below a locator, and is at places of the kind
there. -/
theorem absorb (h : log.Located P) {path : Locator}
    (hother : other.Located fun inner => P (path ++ inner)) :
    (log.absorb other path).Located P := by
  have hmoved : ∀ {diagnostics : List Diagnostic},
      (∀ diagnostic ∈ diagnostics, P (path ++ diagnostic.path)) →
        ∀ moved ∈ diagnostics.map fun diagnostic => diagnostic.under path, P moved.path := by
    intro diagnostics hpaths moved hmem
    obtain ⟨diagnostic, hdiagnostic, rfl⟩ := List.mem_map.mp hmem
    exact hpaths diagnostic hdiagnostic
  have hstored := h.pushErrors (hmoved hother.errors)
  rw [List.foldl_map] at hstored
  rw [Log.absorb]
  generalize other.errors.foldl (fun log error => log.pushError (error.under path))
    log = stored at hstored
  have hcounted : Located P { stored with
      totalErrors := stored.totalErrors + (other.totalErrors - other.errors.length) } :=
    ⟨hstored.errors, hstored.warnings⟩
  have hwarned := hcounted.pushWarnings (hmoved hother.warnings)
  rwa [List.foldl_map] at hwarned

end Located

/-- A filled log whose diagnostics are all at places of a kind. -/
structure Within (P : Locator → Prop) (log : Log) : Prop where
  filled : log.Filled
  located : log.Located P

theorem Within.mono {Q : Locator → Prop} (h : log.Within P) (himp : ∀ path, P path → Q path) :
    log.Within Q where
  filled := h.filled
  located := ⟨fun error herror => himp _ (h.located.errors error herror),
    fun warning hwarning => himp _ (h.located.warnings warning hwarning)⟩

theorem within_ofErrors {diagnostics : List Diagnostic}
    (h : ∀ diagnostic ∈ diagnostics, P diagnostic.path) : (ofErrors diagnostics).Within P :=
  ⟨filled_ofErrors diagnostics, (located_empty P).pushErrors h⟩

end Log

namespace Logged

variable {α β : Type} {P : Locator → Prop} {path : Locator}

/-- Work that reports at places of a kind only. -/
def StaysWithin (P : Locator → Prop) (work : Logged α) : Prop :=
  ∀ log : Log, log.Within P → (work.run log).2.Within P

namespace StaysWithin

theorem of_pure (value : α) : StaysWithin P (pure value) := fun _ h => h

/-- What comes next may rely on what is known of the value. -/
theorem bind_of {work : Logged α} {next : α → Logged β} (hwork : StaysWithin P work)
    (good : α → Prop) (hgood : ∀ log, good (work.run log).1)
    (hnext : ∀ value, good value → StaysWithin P (next value)) :
    StaysWithin P (work >>= next) :=
  fun log h => hnext _ (hgood log) _ (hwork log h)

theorem bind {work : Logged α} {next : α → Logged β} (hwork : StaysWithin P work)
    (hnext : ∀ value, StaysWithin P (next value)) : StaysWithin P (work >>= next) :=
  fun log h => hnext _ _ (hwork log h)

theorem errors {diagnostics : List Diagnostic}
    (h : ∀ diagnostic ∈ diagnostics, P diagnostic.path) :
    StaysWithin P (Logged.errors diagnostics) :=
  fun _ hlog => ⟨hlog.filled.pushErrors diagnostics, hlog.located.pushErrors h⟩

theorem error {diagnostic : Diagnostic} (h : P diagnostic.path) :
    StaysWithin P (Logged.error diagnostic) :=
  fun _ hlog => ⟨hlog.filled.pushError diagnostic, hlog.located.pushError h⟩

theorem warning {diagnostic : Diagnostic} (h : P diagnostic.path) :
    StaysWithin P (Logged.warning diagnostic) :=
  fun _ hlog => ⟨hlog.filled, hlog.located.pushWarning h⟩

theorem absorb {other : Log} (h : other.Within fun inner => P (path ++ inner)) :
    StaysWithin P (Logged.absorb other path) :=
  fun _ hlog => ⟨hlog.filled.absorb h.filled path, hlog.located.absorb h.located⟩

/-- Issues of code are issues of the code as a whole. -/
theorem absorbCode (h : P path) (issues : List CodeIssue) (source : String) :
    StaysWithin P (Logged.absorb (CodeIssue.log issues source) path) := by
  apply absorb
  apply Log.within_ofErrors
  intro diagnostic hdiagnostic
  obtain ⟨issue, -, rfl⟩ := List.mem_map.mp hdiagnostic
  rwa [← List.append_nil path] at h

theorem fragment? (h : P path) (source : String) :
    StaysWithin P (Logged.fragment? source path) := by
  unfold Logged.fragment?
  split
  · exact of_pure _
  · exact (absorbCode h _ source).bind fun _ => of_pure none

theorem expr? (h : P path) (source : String) : StaysWithin P (Logged.expr? source path) := by
  unfold Logged.expr?
  split
  · exact of_pure _
  · exact (absorbCode h _ source).bind fun _ => of_pure none

theorem optionalExpr? (h : P path) (source : String) :
    StaysWithin P (Logged.optionalExpr? source path) := by
  rw [Logged.optionalExpr?]
  split
  · exact of_pure none
  · exact expr? h source

end StaysWithin

end Logged

namespace Log

/-- How a log came about: from an empty one, by reports and by taking over other
logs below a locator. -/
inductive History where
  | start
  | error (before : History) (diagnostic : Diagnostic)
  | warning (before : History) (diagnostic : Diagnostic)
  /-- A report that goes by its severity. -/
  | report (before : History) (diagnostic : Diagnostic)
  | absorb (before other : History) (path : Locator)

namespace History

/-- The log that comes about. -/
def log : History → Log
  | start => empty
  | error before diagnostic => before.log.pushError diagnostic
  | warning before diagnostic => before.log.pushWarning diagnostic
  | report before diagnostic => before.log.push diagnostic
  | absorb before other path => before.log.absorb other.log path

/-- Every error that was reported, in order and below all the locators under which
it was taken over. -/
def errors : History → List Diagnostic
  | start => []
  | error before diagnostic => before.errors ++ [diagnostic]
  | warning before _ => before.errors
  | report before diagnostic =>
      match diagnostic.severity with
      | .error => before.errors ++ [diagnostic]
      | .warning => before.errors
  | absorb before other path =>
      before.errors ++ other.errors.map fun error => error.under path

/-- Every warning that was reported, in the same way. -/
def warnings : History → List Diagnostic
  | start => []
  | error before _ => before.warnings
  | warning before diagnostic => before.warnings ++ [diagnostic]
  | report before diagnostic =>
      match diagnostic.severity with
      | .error => before.warnings
      | .warning => before.warnings ++ [diagnostic]
  | absorb before other path =>
      before.warnings ++ other.warnings.map fun warning => warning.under path

end History

/-- What a log shows of all errors and warnings that were reported. -/
def capped (errors warnings : List Diagnostic) : Log where
  errors := errors.take errorLimit
  warnings := warnings
  totalErrors := errors.length
  totalWarnings := warnings.length

section Capped

variable (errors warnings : List Diagnostic)

theorem pushError_capped (diagnostic : Diagnostic) :
    (capped errors warnings).pushError diagnostic =
      capped (errors ++ [diagnostic]) warnings := by
  have hstored : (if (errors.take errorLimit).length < errorLimit
      then errors.take errorLimit ++ [diagnostic] else errors.take errorLimit) =
      (errors ++ [diagnostic]).take errorLimit := by
    rw [List.length_take]
    by_cases hroom : errors.length < errorLimit
    · rw [if_pos (by omega), List.take_of_length_le (Nat.le_of_lt hroom),
        List.take_of_length_le (by rw [List.length_append]; exact hroom)]
    · rw [if_neg (by omega), List.take_append_of_le_length (Nat.le_of_not_lt hroom)]
  have hcounted : errors.length + 1 = (errors ++ [diagnostic]).length := by
    rw [List.length_append, List.length_singleton]
  rw [pushError, capped, capped, ← hstored, ← hcounted]

theorem pushErrors_capped (diagnostics : List Diagnostic) :
    diagnostics.foldl pushError (capped errors warnings) =
      capped (errors ++ diagnostics) warnings := by
  induction diagnostics generalizing errors with
  | nil => rw [List.append_nil, List.foldl_nil]
  | cons diagnostic rest ih =>
      rw [List.foldl_cons, pushError_capped, ih, List.append_assoc, List.singleton_append]

theorem pushWarning_capped (diagnostic : Diagnostic) :
    (capped errors warnings).pushWarning diagnostic =
      capped errors (warnings ++ [diagnostic]) := by
  simp only [capped, pushWarning, List.length_append, List.length_singleton]

theorem pushWarnings_capped (diagnostics : List Diagnostic) :
    diagnostics.foldl pushWarning (capped errors warnings) =
      capped errors (warnings ++ diagnostics) := by
  induction diagnostics generalizing warnings with
  | nil => rw [List.append_nil, List.foldl_nil]
  | cons diagnostic rest ih =>
      rw [List.foldl_cons, pushWarning_capped, ih, List.append_assoc, List.singleton_append]

/-- What the other log dropped comes after more errors than this one can store, and
is counted with those that it stored. -/
theorem absorb_capped (others otherWarnings : List Diagnostic) (path : Locator) :
    (capped errors warnings).absorb (capped others otherWarnings) path =
      capped (errors ++ others.map fun error => error.under path)
        (warnings ++ otherWarnings.map fun warning => warning.under path) := by
  have hpushed := pushErrors_capped errors warnings
    ((others.take errorLimit).map fun error => error.under path)
  rw [List.foldl_map] at hpushed
  have hstored : (errors ++ (others.take errorLimit).map fun error => error.under path).take
      errorLimit = (errors ++ others.map fun error => error.under path).take errorLimit := by
    rw [List.take_append, List.take_append, ← List.map_take, ← List.map_take,
      List.take_take, Nat.min_eq_left (Nat.sub_le _ _)]
  have hcounted : (errors ++ (others.take errorLimit).map fun error => error.under path).length +
      (others.length - (others.take errorLimit).length) =
      (errors ++ others.map fun error => error.under path).length := by
    have hdropped := List.length_take_le' errorLimit others
    simp only [List.length_append, List.length_map]
    omega
  have hwarned := pushWarnings_capped (errors ++ others.map fun error => error.under path)
    warnings (otherWarnings.map fun warning => warning.under path)
  rw [List.foldl_map] at hwarned
  rw [← hwarned, absorb]
  simp only [capped] at hpushed ⊢
  rw [hpushed, hstored, hcounted]

end Capped

namespace History

/-- A step of the history keeps the log what the full sequences make it. -/
theorem log_eq_capped (history : History) :
    history.log = capped history.errors history.warnings := by
  induction history with
  | start => rfl
  | error before diagnostic ih => rw [log, ih, pushError_capped, errors, warnings]
  | warning before diagnostic ih => rw [log, ih, pushWarning_capped, errors, warnings]
  | report before diagnostic ih =>
      rw [log, ih, push, errors, warnings]
      cases diagnostic.severity with
      | error => exact pushError_capped _ _ diagnostic
      | warning => exact pushWarning_capped _ _ diagnostic
  | absorb before other path ih ihOther => rw [log, ih, ihOther, absorb_capped, errors, warnings]

/-- However a log came about: it stores the first twenty errors and all warnings, it
counts all of both, it stores no more errors than it counts, so that a log that takes
it over knows how many it dropped, and it has errors exactly if it stores one. -/
theorem log_faithful (history : History) :
    history.log.errors = history.errors.take 20 ∧
      history.log.totalErrors = history.errors.length ∧
      history.log.warnings = history.warnings ∧
      history.log.totalWarnings = history.warnings.length ∧
      history.log.errors.length ≤ history.log.totalErrors ∧
      (history.log.hasErrors = true ↔ history.log.errors ≠ []) := by
  rw [log_eq_capped]
  refine ⟨rfl, rfl, rfl, rfl, List.length_take_le' _ _, ?_⟩
  have hsome : history.errors.take 20 ≠ [] ↔ 0 < history.errors.length := by
    rw [← List.length_pos_iff, List.length_take]
    omega
  exact (decide_eq_true_iff).trans hsome.symm

end History

end Log

end SceneQuiz
