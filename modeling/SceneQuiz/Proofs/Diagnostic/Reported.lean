import SceneQuiz.Logged
/-!
Work that reports diagnostics.  What it yields can be said whatever is reported,
or for the case that no error is: then none was reported on the way, and all
that was read could be read.
-/

namespace SceneQuiz

namespace Log

theorem totalErrors_foldl_pushError (diagnostics : List Diagnostic) (log : Log) :
    (diagnostics.foldl pushError log).totalErrors =
      log.totalErrors + diagnostics.length := by
  induction diagnostics generalizing log with
  | nil => rfl
  | cons diagnostic rest ih =>
      rw [List.foldl_cons, ih, List.length_cons]
      change log.totalErrors + 1 + rest.length = _
      omega

theorem totalErrors_foldl_pushWarning {α : Type} (warning : α → Diagnostic)
    (items : List α) (log : Log) :
    (items.foldl (fun log item => log.pushWarning (warning item)) log).totalErrors =
      log.totalErrors := by
  induction items generalizing log with
  | nil => rfl
  | cons item rest ih => exact ih (log.pushWarning (warning item))

/-- A log that is taken over brings all its errors with it. -/
theorem totalErrors_absorb (log other : Log) (path : Locator) :
    (log.absorb other path).totalErrors =
      log.totalErrors + other.errors.length +
        (other.totalErrors - other.errors.length) := by
  unfold absorb
  rw [totalErrors_foldl_pushWarning]
  have hpush := totalErrors_foldl_pushError
    (other.errors.map fun error => error.under path) log
  rw [List.foldl_map, List.length_map] at hpush
  exact congrArg (· + (other.totalErrors - other.errors.length)) hpush

theorem hasErrors_eq_false_iff {log : Log} :
    log.hasErrors = false ↔ log.totalErrors = 0 := by
  unfold hasErrors
  rw [decide_eq_false_iff_not]
  omega

theorem hasErrors_ofErrors {diagnostics : List Diagnostic}
    (h : (ofErrors diagnostics).hasErrors = false) : diagnostics = [] := by
  rw [hasErrors_eq_false_iff, ofErrors, totalErrors_foldl_pushError] at h
  exact List.length_eq_zero_iff.mp (by omega)

end Log

namespace Logged

variable {α β : Type}

/-- If no error is reported in the end, none was before, and the result is as
`post` says. -/
def Accepts (work : Logged α) (post : α → Prop) : Prop :=
  ∀ log, (work.run log).2.hasErrors = false →
    log.hasErrors = false ∧ post (work.run log).1

theorem Accepts.of_pure {post : α → Prop} {value : α} (h : post value) :
    Accepts (pure value) post :=
  fun _ hlog => ⟨hlog, h⟩

theorem Accepts.bind {work : Logged α} {next : α → Logged β}
    {middle : α → Prop} {post : β → Prop} (hwork : Accepts work middle)
    (hnext : ∀ value,
      Accepts (next value) fun result => middle value → post result) :
    Accepts (work >>= next) post := by
  intro log hlog
  obtain ⟨hbetween, hpost⟩ := hnext _ _ hlog
  obtain ⟨hbefore, hmiddle⟩ := hwork log hbetween
  exact ⟨hbefore, hpost hmiddle⟩

theorem accepts_errors (diagnostics : List Diagnostic) :
    Accepts (errors diagnostics) fun _ => diagnostics = [] := by
  intro log hlog
  have htotal := Log.totalErrors_foldl_pushError diagnostics log
  have hnone : (diagnostics.foldl Log.pushError log).totalErrors = 0 :=
    Log.hasErrors_eq_false_iff.mp hlog
  refine ⟨Log.hasErrors_eq_false_iff.mpr (by omega), ?_⟩
  exact List.length_eq_zero_iff.mp (by omega)

theorem accepts_absorb (other : Log) (path : Locator) :
    Accepts (absorb other path) fun _ => other.hasErrors = false := by
  intro log hlog
  have htotal := Log.totalErrors_absorb log other path
  have hnone : (log.absorb other path).totalErrors = 0 :=
    Log.hasErrors_eq_false_iff.mp hlog
  exact ⟨Log.hasErrors_eq_false_iff.mpr (by omega),
    Log.hasErrors_eq_false_iff.mpr (by omega)⟩

theorem accepts_error (diagnostic : Diagnostic) :
    Accepts (error diagnostic) fun _ => False := by
  intro log hlog
  have hreported : (log.pushError diagnostic).totalErrors = 0 :=
    Log.hasErrors_eq_false_iff.mp hlog
  cases hreported

theorem accepts_warning (diagnostic : Diagnostic) : Accepts (warning diagnostic) fun _ => True :=
  fun _ hlog => ⟨hlog, trivial⟩

/-- Statements that are accepted could be read. -/
theorem accepts_fragment? (source : String) (path : Locator) :
    Accepts (fragment? source path) fun result =>
      ∃ code ∈ result, Fragment.parse source = .ok code := by
  unfold fragment?
  split
  · next code hparse => exact .of_pure ⟨code, rfl, hparse⟩
  · next issues hparse =>
      refine (accepts_absorb _ _).bind fun _ => .of_pure fun hnone => ?_
      unfold Fragment.parse at hparse
      dsimp only at hparse
      split at hparse
      · cases hparse
      · next hissues =>
          cases hparse
          have hempty := Log.hasErrors_ofErrors hnone
          simp_all

theorem accepts_expr? (source : String) (path : Locator) :
    Accepts (expr? source path) fun result => ∀ e ∈ result, Expr.parse source = .ok e := by
  unfold expr?
  split
  · next e hparse =>
      apply Accepts.of_pure
      rintro _ ⟨⟩
      exact hparse
  · exact (accepts_absorb _ _).bind fun _ => .of_pure fun _ => nofun

theorem accepts_optionalExpr? (source : String) (path : Locator) :
    Accepts (optionalExpr? source path) fun result =>
      ∀ e ∈ result, Expr.parse source = .ok e := by
  unfold optionalExpr?
  split
  · exact .of_pure nofun
  · exact accepts_expr? source path

/-- The result is as `post` says, whatever is reported. -/
def Yields (work : Logged α) (post : α → Prop) : Prop := ∀ log, post (work.run log).1

namespace Yields

theorem of_pure {post : α → Prop} {value : α} (h : post value) :
    Yields (pure value) post :=
  fun _ => h

theorem bind {work : Logged α} {next : α → Logged β} {middle : α → Prop}
    {post : β → Prop} (hwork : Yields work middle)
    (hnext : ∀ value, middle value → Yields (next value) post) :
    Yields (work >>= next) post :=
  fun log => hnext _ (hwork log) _

/-- Work whose result does not matter. -/
theorem after {work : Logged α} {next : α → Logged β} {post : β → Prop}
    (hnext : ∀ value, Yields (next value) post) : Yields (work >>= next) post :=
  fun _ => hnext _ _

theorem expr? (source : String) (path : Locator) {good : Expr → Prop}
    (h : ∀ e, Expr.parse source = .ok e → good e) :
    Yields (Logged.expr? source path) fun found => ∀ e ∈ found, good e := by
  unfold Logged.expr?
  split
  · next e he =>
      refine of_pure ?_
      intro found hfound
      rw [← Option.some.inj hfound]
      exact h e he
  · exact .after fun _ => .of_pure nofun

theorem fragment? (source : String) (path : Locator) {good : Fragment → Prop}
    (h : ∀ code, Fragment.parse source = .ok code → good code) :
    Yields (Logged.fragment? source path) fun found => ∀ code ∈ found, good code := by
  unfold Logged.fragment?
  split
  · next code hcode =>
      refine of_pure ?_
      intro found hfound
      rw [← Option.some.inj hfound]
      exact h code hcode
  · exact .after fun _ => .of_pure nofun

end Yields

end Logged

end SceneQuiz
