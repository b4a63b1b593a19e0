import SceneQuiz.Machine.Environment
/-!
Reading and assigning through the innermost scope.  A name that the scope binds
is read and assigned there and nowhere else; any other name passes the scope by,
as if it were not open.
-/

namespace SceneQuiz

namespace NameMap

variable {α : Type}

theorem eq_of_entries {left right : NameMap α}
    (h : left.entries = right.entries) : left = right := by
  cases left
  cases right
  congr

theorem insertEntry_insertEntry (name : String) (first second : α)
    (entries : List (String × α)) :
    insertEntry name second (insertEntry name first entries) =
      insertEntry name second entries := by
  induction entries with
  | nil => simp [insertEntry]
  | cons entry rest ih =>
      obtain ⟨key, old⟩ := entry
      by_cases hlt : name < key
      · simp [insertEntry, hlt]
      · by_cases heq : name = key
        · subst heq
          simp [insertEntry]
        · simp [insertEntry, hlt, heq, ih]

/-- A value that is stored twice in a row under one name is the later one. -/
theorem insert_insert (name : String) (first second : α) (map : NameMap α) :
    (map.insert name first).insert name second = map.insert name second :=
  eq_of_entries (insertEntry_insertEntry name first second map.entries)

theorem contains_insert_self (name : String) (value : α) (map : NameMap α) :
    (map.insert name value).contains name = true := by
  simp [contains]

theorem lookup_eq_none {name : String} {entries : List (String × α)}
    (h : name ∉ entries.map Prod.fst) : lookup name entries = none := by
  induction entries with
  | nil => rfl
  | cons entry rest ih =>
      rw [List.map_cons, List.mem_cons, not_or] at h
      simp [lookup, h.1, ih h.2]

/-- Ascending entries are known by what each name gives. -/
theorem entries_eq_of_lookup {left right : List (String × α)}
    (hleft : (left.map Prod.fst).Pairwise (· < ·))
    (hright : (right.map Prod.fst).Pairwise (· < ·))
    (h : ∀ name, lookup name left = lookup name right) : left = right := by
  induction left generalizing right with
  | nil =>
      cases right with
      | nil => rfl
      | cons entry rest => simpa [lookup] using h entry.1
  | cons first rest ih =>
      cases right with
      | nil => simpa [lookup] using h first.1
      | cons second others =>
          obtain ⟨key, value⟩ := first
          obtain ⟨other, stored⟩ := second
          rw [List.map_cons, List.pairwise_cons] at hleft hright
          have hbefore : ∀ {low high : String} {keys : List String},
              (∀ key ∈ keys, high < key) → low < high → low ∉ high :: keys := by
            intro low high keys hkeys hlow hmem
            rcases List.mem_cons.mp hmem with rfl | hmem
            · exact String.lt_irrefl _ hlow
            · exact String.lt_irrefl _ (String.lt_trans hlow (hkeys low hmem))
          have hkey : key = other := by
            apply Decidable.byContradiction
            intro hne
            by_cases hlt : key < other
            · have hnone : lookup key ((other, stored) :: others) = none :=
                lookup_eq_none (hbefore hright.1 hlt)
              rw [← h key] at hnone
              simp [lookup] at hnone
            · have hgt : other < key := Std.lt_of_le_of_ne (String.not_lt.mp hlt) (Ne.symm hne)
              have hnone : lookup other ((key, value) :: rest) = none :=
                lookup_eq_none (hbefore hleft.1 hgt)
              rw [h other] at hnone
              simp [lookup] at hnone
          subst hkey
          have hvalue : value = stored := by simpa [lookup] using h key
          subst hvalue
          rw [ih hleft.2 hright.2 ?_]
          intro name
          by_cases hname : name = key
          · subst hname
            have hfirst : name ∉ rest.map Prod.fst := fun hmem =>
              String.lt_irrefl name (hleft.1 name hmem)
            have hsecond : name ∉ others.map Prod.fst := fun hmem =>
              String.lt_irrefl name (hright.1 name hmem)
            rw [lookup_eq_none hfirst, lookup_eq_none hsecond]
          · simpa [lookup, hname] using h name

/-- Maps that give the same for every name are equal. -/
theorem eq_of_get? {left right : NameMap α}
    (h : ∀ name, left.get? name = right.get? name) : left = right :=
  eq_of_entries (entries_eq_of_lookup left.ascending right.ascending h)

/-- A map from entries whose keys differ gives what the entries say. -/
theorem get?_ofList {entries : List (String × α)}
    (h : (entries.map Prod.fst).Nodup) (name : String) :
    (ofList entries).get? name = lookup name entries := by
  have hfold : ∀ map : NameMap α,
      (entries.foldl (fun map entry => map.insert entry.1 entry.2) map).get?
        name = (lookup name entries).or (map.get? name) := by
    induction entries with
    | nil => intro map; rfl
    | cons entry rest ih =>
        intro map
        rw [List.map_cons, List.nodup_cons] at h
        rw [List.foldl_cons, ih h.2, get?_insert]
        by_cases hname : name = entry.1
        · subst hname
          simp [lookup, lookup_eq_none h.1]
        · simp [lookup, hname]
  rw [ofList, hfold, get?_empty, Option.or_none]

theorem lookup_eq_some_iff {entries : List (String × α)}
    (h : (entries.map Prod.fst).Nodup) {name : String} {value : α} :
    lookup name entries = some value ↔ (name, value) ∈ entries := by
  induction entries with
  | nil => simp [lookup]
  | cons entry rest ih =>
      obtain ⟨key, stored⟩ := entry
      rw [List.map_cons, List.nodup_cons] at h
      by_cases hname : name = key
      · subst hname
        have hrest : (name, value) ∉ rest := fun hmem =>
          h.1 (List.mem_map.mpr ⟨(name, value), hmem, rfl⟩)
        simp [lookup, hrest, eq_comm]
      · simp [lookup, hname, ih h.2]

end NameMap

namespace Environment

/-- One more scope, with these bindings. -/
def under (env : Environment) (scope : Scope) : Environment :=
  { env with locals := scope :: env.locals }

@[simp] theorem pop_under (env : Environment) (scope : Scope) :
    (env.under scope).pop = env := rfl

/-- Bindings made in a new scope are the scope. -/
theorem push_defineAll (env : Environment) (bindings : List (String × Value)) :
    env.push.defineAll bindings = env.under (NameMap.ofList bindings) := by
  have hfold : ∀ scope : Scope, (env.under scope).defineAll bindings =
      env.under (bindings.foldl
        (fun map entry => map.insert entry.1 entry.2) scope) := by
    induction bindings with
    | nil => intro scope; rfl
    | cons binding rest ih =>
        intro scope
        exact ih (scope.insert binding.1 binding.2)
  exact hfold .empty

theorem get?_under_bound {env : Environment} {scope : Scope} {name : String}
    {value : Value} (h : scope.get? name = some value) :
    (env.under scope).get? name = some value := by
  simp [get?, under, lookup, h]

theorem get?_under_free {env : Environment} {scope : Scope} {name : String}
    (h : scope.get? name = none) :
    (env.under scope).get? name = env.get? name := by
  simp [get?, under, lookup, h]

theorem assign_under_bound {env : Environment} {scope : Scope} {name : String}
    (value : Value) (h : scope.contains name = true) :
    (env.under scope).assign name value =
      env.under (scope.insert name value) := by
  simp [assign, under, reassign?, h]

theorem assign_under_free {env : Environment} {scope : Scope} {name : String}
    (value : Value) (h : scope.contains name = false) :
    (env.under scope).assign name value =
      (env.assign name value).under scope := by
  unfold assign under
  simp only [reassign?, h]
  cases reassign? name value env.locals <;> rfl

theorem reassign?_reassign? {name : String} {first : Value} (second : Value)
    {scopes after : List Scope}
    (h : reassign? name first scopes = some after) :
    reassign? name second after = reassign? name second scopes := by
  induction scopes generalizing after with
  | nil => simp [reassign?] at h
  | cons scope rest ih =>
      by_cases hbound : scope.contains name = true
      · simp only [reassign?, hbound, if_true, Option.some.injEq] at h ⊢
        subst h
        simp [reassign?, NameMap.contains_insert_self, NameMap.insert_insert]
      · rw [Bool.not_eq_true] at hbound
        simp only [reassign?, hbound, Bool.false_eq_true, if_false,
          Option.map_eq_some_iff] at h ⊢
        obtain ⟨tail, htail, rfl⟩ := h
        simp [reassign?, hbound, ih htail]

theorem reassign?_eq_none_iff {name : String} {value : Value}
    {scopes : List Scope} :
    reassign? name value scopes = none ↔
      ∀ scope ∈ scopes, scope.contains name = false := by
  induction scopes with
  | nil => simp [reassign?]
  | cons scope rest ih =>
      by_cases hbound : scope.contains name = true
      · simp [reassign?, hbound]
      · rw [Bool.not_eq_true] at hbound
        simp [reassign?, hbound, ih]

/-- The later of two assignments to one name is the one that counts. -/
theorem assign_assign (name : String) (first second : Value)
    (env : Environment) :
    (env.assign name first).assign name second = env.assign name second := by
  unfold assign
  cases h : reassign? name first env.locals with
  | some after =>
      have hsame := reassign?_reassign? second h
      cases hsecond : reassign? name second env.locals with
      | some later => simp [hsame, hsecond]
      | none =>
          have hnone : reassign? name first env.locals = none :=
            reassign?_eq_none_iff.mpr (reassign?_eq_none_iff.mp hsecond)
          simp [hnone] at h
  | none =>
      have hsecond : reassign? name second env.locals = none :=
        reassign?_eq_none_iff.mpr (reassign?_eq_none_iff.mp h)
      simp [hsecond, NameMap.insert_insert]

theorem lookup_of_reassign? {name : String} {value : Value}
    {scopes after : List Scope}
    (h : reassign? name value scopes = some after) :
    lookup name after = some value := by
  induction scopes generalizing after with
  | nil => simp [reassign?] at h
  | cons scope rest ih =>
      by_cases hbound : scope.contains name = true
      · simp only [reassign?, hbound, if_true, Option.some.injEq] at h
        subst h
        simp [lookup]
      · rw [Bool.not_eq_true] at hbound
        simp only [reassign?, hbound, Bool.false_eq_true, if_false,
          Option.map_eq_some_iff] at h
        obtain ⟨tail, htail, rfl⟩ := h
        have hfree : scope.get? name = none := by
          simpa [NameMap.contains] using hbound
        simp [lookup, hfree, ih htail]

theorem lookup_eq_none_of_free {name : String} {scopes : List Scope}
    (h : ∀ scope ∈ scopes, scope.contains name = false) :
    lookup name scopes = none := by
  induction scopes with
  | nil => rfl
  | cons scope rest ih =>
      have hfree : scope.get? name = none := by
        simpa [NameMap.contains] using h scope List.mem_cons_self
      simpa [lookup, hfree] using
        ih fun other hmem => h other (List.mem_cons_of_mem scope hmem)

/-- A name has the value it was assigned. -/
@[simp] theorem get?_assign_self (name : String) (value : Value)
    (env : Environment) : (env.assign name value).get? name = some value := by
  unfold assign
  cases h : reassign? name value env.locals with
  | some after => simp [get?, lookup_of_reassign? h]
  | none =>
      simp [get?, lookup_eq_none_of_free (reassign?_eq_none_iff.mp h)]

end Environment

end SceneQuiz
