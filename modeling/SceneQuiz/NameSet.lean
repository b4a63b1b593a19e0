/-!
Finite sets of names, kept as strictly ascending lists.  The order is part of
the type, so two sets with the same members are equal, and every place that
lists names lists them in the same order.
-/

namespace SceneQuiz

/-- A finite set of names in ascending order. -/
structure NameSet where
  names : List String
  ascending : names.Pairwise (· < ·)
deriving DecidableEq

namespace NameSet

/-- The set without members. -/
def empty : NameSet := ⟨[], List.Pairwise.nil⟩

instance : EmptyCollection NameSet := ⟨empty⟩

instance : Inhabited NameSet := ⟨empty⟩

instance : Membership String NameSet := ⟨fun set name => name ∈ set.names⟩

instance (name : String) (set : NameSet) : Decidable (name ∈ set) :=
  inferInstanceAs (Decidable (name ∈ set.names))

/-- Put a name at its place in an ascending list, once. -/
def insertAscending (name : String) : List String → List String
  | [] => [name]
  | head :: rest =>
      if name < head then name :: head :: rest
      else if name = head then head :: rest
      else head :: insertAscending name rest

theorem mem_insertAscending (name other : String) (names : List String) :
    other ∈ insertAscending name names ↔ other = name ∨ other ∈ names := by
  induction names with
  | nil => simp [insertAscending]
  | cons head rest ih =>
      unfold insertAscending
      split
      · simp
      · split
        · next heq => simp [heq]
        · simp only [List.mem_cons, ih]
          constructor
          · rintro (h | h | h) <;> simp [h]
          · rintro (h | h | h) <;> simp [h]

theorem insertAscending_ascending (name : String) {names : List String}
    (h : names.Pairwise (· < ·)) :
    (insertAscending name names).Pairwise (· < ·) := by
  induction names with
  | nil => simp [insertAscending]
  | cons head rest ih =>
      have hhead := (List.pairwise_cons.mp h).1
      have hrest := (List.pairwise_cons.mp h).2
      unfold insertAscending
      split
      · next hlt =>
          refine List.pairwise_cons.mpr ⟨?_, h⟩
          intro other hmem
          rcases List.mem_cons.mp hmem with rfl | hmem
          · exact hlt
          · exact String.lt_trans hlt (hhead other hmem)
      · next hnot =>
          split
          · exact h
          · next hne =>
              refine List.pairwise_cons.mpr ⟨?_, ih hrest⟩
              intro other hmem
              rcases (mem_insertAscending name other rest).mp hmem with rfl | hmem
              · exact Std.lt_of_le_of_ne (String.not_lt.mp hnot) (Ne.symm hne)
              · exact hhead other hmem

/-- Add one name. -/
def insert (name : String) (set : NameSet) : NameSet :=
  ⟨insertAscending name set.names, insertAscending_ascending name set.ascending⟩

/-- The set with exactly one member. -/
def singleton (name : String) : NameSet := empty.insert name

/-- Every name of a list. -/
def ofList (names : List String) : NameSet :=
  names.foldr insert empty

/-- Names that are in at least one of two sets. -/
def union (left right : NameSet) : NameSet :=
  left.names.foldr insert right

instance : Union NameSet := ⟨union⟩

/-- Members that satisfy a test. -/
def filter (keep : String → Bool) (set : NameSet) : NameSet :=
  ⟨set.names.filter keep, set.ascending.filter keep⟩

/-- Names that are in both sets. -/
def inter (left right : NameSet) : NameSet :=
  left.filter fun name => decide (name ∈ right)

def isEmpty (set : NameSet) : Bool := set.names.isEmpty

theorem mem_names {name : String} {set : NameSet} :
    name ∈ set.names ↔ name ∈ set := Iff.rfl

@[simp] theorem not_mem_empty (name : String) : name ∉ (empty : NameSet) :=
  List.not_mem_nil

@[simp] theorem mem_insert {name other : String} {set : NameSet} :
    other ∈ set.insert name ↔ other = name ∨ other ∈ set :=
  mem_insertAscending name other set.names

@[simp] theorem mem_foldr_insert {other : String} {names : List String}
    {set : NameSet} :
    other ∈ names.foldr insert set ↔ other ∈ names ∨ other ∈ set := by
  induction names with
  | nil => simp
  | cons head rest ih => simp [ih, or_assoc]

@[simp] theorem mem_union {name : String} {left right : NameSet} :
    name ∈ left ∪ right ↔ name ∈ left ∨ name ∈ right :=
  mem_foldr_insert

@[simp] theorem mem_ofList {name : String} {names : List String} :
    name ∈ ofList names ↔ name ∈ names := by
  simp [ofList]

@[simp] theorem mem_filter {name : String} {keep : String → Bool}
    {set : NameSet} :
    name ∈ set.filter keep ↔ name ∈ set ∧ keep name = true :=
  List.mem_filter

@[simp] theorem mem_inter {name : String} {left right : NameSet} :
    name ∈ left.inter right ↔ name ∈ left ∧ name ∈ right := by
  simp [inter]

/-- Sets with the same members are the same. -/
theorem eq_of_mem_iff {left right : NameSet} (h : ∀ name, name ∈ left ↔ name ∈ right) :
    left = right := by
  obtain ⟨names, hnames⟩ := left
  obtain ⟨others, hothers⟩ := right
  have hperm : names.Perm others :=
    (List.perm_ext_iff_of_nodup (hnames.imp String.ne_of_lt) (hothers.imp String.ne_of_lt)).mpr h
  have heq : names = others :=
    hperm.eq_of_pairwise (fun _ _ _ _ hlt hgt => absurd (String.lt_trans hlt hgt)
      (String.lt_irrefl _)) hnames hothers
  subst heq
  rfl

end NameSet

end SceneQuiz
