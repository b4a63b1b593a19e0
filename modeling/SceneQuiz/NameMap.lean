import SceneQuiz.NameSet
/-!
Finite maps keyed by names, kept as lists of entries in ascending key order.
Equality of maps is equality of what they store, and a listing of a map is
always in key order.
-/

namespace SceneQuiz

/-- A finite map from names, its entries in ascending key order. -/
structure NameMap (α : Type) where
  entries : List (String × α)
  ascending : (entries.map Prod.fst).Pairwise (· < ·)

namespace NameMap

variable {α : Type}

theorem ascending_nil :
    (([] : List (String × α)).map Prod.fst).Pairwise (· < ·) :=
  List.Pairwise.nil

/-- The map that stores nothing. -/
def empty : NameMap α := ⟨[], ascending_nil⟩

instance : EmptyCollection (NameMap α) := ⟨empty⟩

instance : Inhabited (NameMap α) := ⟨empty⟩

/-- Store a value in an ascending list of entries, replacing an older one. -/
def insertEntry (name : String) (value : α) :
    List (String × α) → List (String × α)
  | [] => [(name, value)]
  | (key, old) :: rest =>
      if name < key then (name, value) :: (key, old) :: rest
      else if name = key then (name, value) :: rest
      else (key, old) :: insertEntry name value rest

theorem keys_insertEntry (name : String) (value : α)
    (entries : List (String × α)) :
    (insertEntry name value entries).map Prod.fst =
      NameSet.insertAscending name (entries.map Prod.fst) := by
  induction entries with
  | nil => rfl
  | cons entry rest ih =>
      obtain ⟨key, old⟩ := entry
      simp only [insertEntry, List.map_cons, NameSet.insertAscending]
      split
      · simp
      · split
        · next heq => simp [heq]
        · simp [ih]

/-- Store a value under a name. -/
def insert (name : String) (value : α) (map : NameMap α) : NameMap α :=
  ⟨insertEntry name value map.entries, by
    rw [keys_insertEntry]
    exact NameSet.insertAscending_ascending name map.ascending⟩

/-- The first value under a name in a list of entries. -/
def lookup (name : String) : List (String × α) → Option α
  | [] => none
  | (key, value) :: rest => if name = key then some value else lookup name rest

/-- The value stored under a name. -/
def get? (map : NameMap α) (name : String) : Option α :=
  lookup name map.entries

def contains (map : NameMap α) (name : String) : Bool :=
  (map.get? name).isSome

/-- Keys in ascending order. -/
def keys (map : NameMap α) : List String := map.entries.map Prod.fst

/-- Stored values in key order. -/
def values (map : NameMap α) : List α := map.entries.map Prod.snd

def size (map : NameMap α) : Nat := map.entries.length

def isEmpty (map : NameMap α) : Bool := map.entries.isEmpty

/-- A map from a list of entries; a later entry replaces an earlier one. -/
def ofList (entries : List (String × α)) : NameMap α :=
  entries.foldl (fun map entry => map.insert entry.1 entry.2) empty

@[simp] theorem get?_empty (name : String) :
    (empty : NameMap α).get? name = none := rfl

theorem lookup_insertEntry (name other : String) (value : α)
    (entries : List (String × α)) :
    lookup other (insertEntry name value entries) =
      if other = name then some value else lookup other entries := by
  induction entries with
  | nil => rfl
  | cons entry rest ih =>
      obtain ⟨key, old⟩ := entry
      unfold insertEntry
      split
      · rfl
      · split
        · next heq =>
            subst heq
            by_cases h : other = name <;> simp [lookup, h]
        · next hne =>
            by_cases h : other = key
            · subst h
              simp [lookup, Ne.symm hne]
            · simp [lookup, h, ih]

/-- Storing changes what one name gives and nothing else. -/
@[simp] theorem get?_insert (name other : String) (value : α)
    (map : NameMap α) :
    (map.insert name value).get? other =
      if other = name then some value else map.get? other :=
  lookup_insertEntry name other value map.entries

@[simp] theorem keys_insert (name : String) (value : α) (map : NameMap α) :
    (map.insert name value).keys = NameSet.insertAscending name map.keys :=
  keys_insertEntry name value map.entries

end NameMap

end SceneQuiz
