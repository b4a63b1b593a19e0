import SceneQuiz.Proofs.Decimal.WholeNumber
import SceneQuiz.Proofs.Machine.Interposed
import SceneQuiz.Proofs.Machine.Passage
import SceneQuiz.Proofs.Template.TidyCode
/-!
The stage of a loop: the scope with its sources, its output and its iterators.
The sources become lists there, the shortest of them says how many rounds there
are, and each round gives the iterators their members.
-/

namespace SceneQuiz

namespace NameMap

variable {α : Type}

/-- A map with further entries; a later entry replaces an earlier one. -/
def insertAll (entries : List (String × α)) (map : NameMap α) : NameMap α :=
  entries.foldl (fun map entry => map.insert entry.1 entry.2) map

theorem get?_insertAll (entries : List (String × α)) (map : NameMap α) (name : String) :
    (map.insertAll entries).get? name = ((ofList entries).get? name).or (map.get? name) := by
  have hempty : ∀ entries : List (String × α), ofList entries = empty.insertAll entries :=
    fun _ => rfl
  induction entries generalizing map with
  | nil => rfl
  | cons entry rest ih =>
      change ((map.insert entry.1 entry.2).insertAll rest).get? name =
        (((empty.insert entry.1 entry.2).insertAll rest).get? name).or (map.get? name)
      rw [ih, ih, get?_insert, get?_insert]
      cases (ofList rest).get? name with
      | some value => rfl
      | none => split <;> rfl

theorem contains_insert {map : NameMap α} {name other : String} {value : α}
    (h : map.contains name = true) : (map.insert other value).contains name = true := by
  simp only [contains, get?_insert] at h ⊢
  split
  · rfl
  · exact h

end NameMap

namespace Machine

variable {machine : Machine} {outer inner : Scope} {name : String}

theorem assign_under (h : outer.contains name = true) (value : Value) :
    (machine.under outer).assign name value = machine.under (outer.insert name value) := by
  have henv : (machine.env.under outer).assign name value =
      machine.env.under (outer.insert name value) := Environment.assign_under_bound value h
  exact congrArg (fun env => { machine with env := env }) henv

/-- Assigning what the outer of two scopes binds. -/
theorem assign_through (hinner : inner.get? name = none) (houter : outer.contains name = true)
    (value : Value) : ((machine.under outer).under inner).assign name value =
      (machine.under (outer.insert name value)).under inner := by
  have hfree : inner.contains name = false := by simp [NameMap.contains, hinner]
  have henv : ((machine.env.under outer).under inner).assign name value =
      (machine.env.under (outer.insert name value)).under inner := by
    rw [Environment.assign_under_free value hfree, Environment.assign_under_bound value houter]
  exact congrArg (fun env => { machine with env := env }) henv

end Machine

namespace Builtin

open Decimal

/-- Of two numbers one is kept, the smaller one if it is small. -/
theorem exists_chosen (best next : Nat) : ∃ chosen, (chosen = next ∨ chosen = best) ∧
    (next < twoPow 53 ∨ best < twoPow 53 → chosen ≤ next ∧ chosen ≤ best) ∧
      ∀ others, extreme .min .less (.int best) (.int next :: others) =
        extreme .min .less (.int chosen) others := by
  by_cases hless : nearestInt next < nearestInt best
  · refine ⟨next, .inl rfl, fun hsmall => ?_, fun others => ?_⟩
    · have hnext := (nearestInt_lt_iff hsmall).mp hless
      omega
    · simp [extreme, Value.compare?, Value.compareInts, hless]
  · refine ⟨best, .inr rfl, fun hsmall => ?_, fun others => ?_⟩
    · have hbest : ¬ next < best := fun h => hless ((nearestInt_lt_iff hsmall).mpr h)
      omega
    · simp [extreme, Value.compare?, Value.compareInts, hless]

/-- The least of some numbers is found if it is small: then it compares with all
others as their doubles do. -/
theorem exists_least {best : Nat} {others : List Nat} (h : ∃ n ∈ best :: others, n < twoPow 53) :
    ∃ least ∈ best :: others, (∀ n ∈ best :: others, least ≤ n) ∧
      extreme .min .less (.int best) (others.map fun n : Nat => .int n) = .ok (.int least) := by
  induction others generalizing best with
  | nil => exact ⟨best, List.mem_cons_self, by simp, rfl⟩
  | cons next rest ih =>
      obtain ⟨chosen, hchosen, hbelow, hstep⟩ := exists_chosen best next
      have hnear : ∃ n ∈ chosen :: rest, n < twoPow 53 := by
        obtain ⟨n, hn, hsmall⟩ := h
        rcases List.mem_cons.mp hn with rfl | hn
        · exact ⟨chosen, List.mem_cons_self, Nat.lt_of_le_of_lt (hbelow (.inr hsmall)).2 hsmall⟩
        · rcases List.mem_cons.mp hn with rfl | hn
          · exact ⟨chosen, List.mem_cons_self, Nat.lt_of_le_of_lt (hbelow (.inl hsmall)).1 hsmall⟩
          · exact ⟨n, List.mem_cons_of_mem chosen hn, hsmall⟩
      obtain ⟨least, hmem, hleast, hrest⟩ := ih hnear
      refine ⟨least, ?_, ?_, by rw [List.map_cons, hstep, hrest]⟩
      · rcases List.mem_cons.mp hmem with rfl | hmem
        · rcases hchosen with rfl | rfl <;> simp
        · simp [hmem]
      · obtain ⟨n, hn, hsmall⟩ := hnear
        simp only [List.forall_mem_cons] at hleast ⊢
        refine ⟨?_, ?_, hleast.2⟩
        all_goals
          by_cases hcase : next < twoPow 53 ∨ best < twoPow 53
          · have hchosen := hbelow hcase
            omega
          · have hfound := (List.forall_mem_cons.mpr hleast) n hn
            omega

theorem apply_min {numbers : List Nat} (h : ∃ n ∈ numbers, n < twoPow 53) :
    Builtin.min.apply (numbers.map fun n : Nat => .int n) =
      .ok (.int (numbers.min?.getD 0 : Nat)) := by
  obtain ⟨n, hn, hsmall⟩ := h
  obtain ⟨best, others, rfl⟩ := List.exists_cons_of_ne_nil (List.ne_nil_of_mem hn)
  obtain ⟨least, hmem, hleast, hfound⟩ := exists_least ⟨n, hn, hsmall⟩
  rw [List.min?_eq_some_iff.mpr ⟨hmem, hleast⟩]
  exact hfound

end Builtin

namespace Lockstep

/-- The members of all lists at one position. -/
def row (lists : List (List Value)) (k : Nat) : List Value := lists.filterMap (·[k]?)

/-- The length of the shortest list. -/
def shortest (lists : List (List Value)) : Nat := (lists.map List.length).min?.getD 0

/-- The members of all lists at each position, as far as the shortest list goes. -/
def rows (lists : List (List Value)) : List (List Value) :=
  (List.range (shortest lists)).map (row lists)

variable {lists : List (List Value)} {k : Nat}

theorem shortest_le {list : List Value} (h : list ∈ lists) : shortest lists ≤ list.length := by
  unfold shortest
  cases hmin : (lists.map List.length).min? with
  | none => exact Nat.zero_le _
  | some least => exact (List.min?_eq_some_iff.mp hmin).2 _ (List.mem_map_of_mem h)

theorem row_cons {list : List Value} (h : k < list.length) :
    row (list :: lists) k = list[k] :: row lists k := by
  simp [row, h]

theorem getElem?_row (h : ∀ list ∈ lists, k < list.length) (i : Nat) :
    (row lists k)[i]? = lists[i]?.bind (·[k]?) := by
  induction lists generalizing i with
  | nil => simp [row]
  | cons list rest ih =>
      rw [List.forall_mem_cons] at h
      rw [row_cons h.1]
      cases i with
      | zero => simp [h.1]
      | succ i => simpa using ih h.2 i

theorem length_row (h : ∀ list ∈ lists, k < list.length) :
    (row lists k).length = lists.length := by
  induction lists with
  | nil => rfl
  | cons list rest ih =>
      rw [List.forall_mem_cons] at h
      rw [row_cons h.1, List.length_cons, List.length_cons, ih h.2]

theorem length_of_mem_rows {row : List Value} (h : row ∈ rows lists) :
    row.length = lists.length := by
  obtain ⟨k, hk, rfl⟩ := List.mem_map.mp h
  exact length_row fun list hlist => (List.mem_range.mp hk).trans_le (shortest_le hlist)

/-- An empty list leaves no rows. -/
theorem rows_of_nil_mem (h : [] ∈ lists) : rows lists = [] := by
  have hnone : shortest lists = 0 := Nat.le_zero.mp (shortest_le h)
  rw [rows, hnone]
  rfl

end Lockstep

namespace Emit

open SceneQuiz.Expr Eval

/-- The scope of the `n`-th loop, over these lists and with these iterators: the
first sources have become lists, and the output has collected some values. -/
structure Staged (n : Nat) (names : List String) (lists : List (List Value)) (listed : Nat)
    (collected : List Value) (scope : Scope) : Prop where
  sources : ∀ i list, lists[i]? = some list → ∃ value,
    scope.get? (loopList n (i + 1)) = some value ∧ value.members? = some list ∧
      (i < listed → value = .list list)
  output : scope.get? (loopOutput n) = some (.list collected)
  iterators : ∀ name ∈ names, scope.contains name = true
  others : ∀ name, name ∉ loopHelpers n lists.length → name ∉ names → scope.get? name = none

namespace Staged

variable {n listed : Nat} {names : List String} {lists : List (List Value)}
  {collected : List Value} {scope : Scope}

/-- The next source becomes a list. -/
theorem list (h : Staged n names lists listed collected scope) {list : List Value}
    (hlist : lists[listed]? = some list) :
    Staged n names lists (listed + 1) collected
      (scope.insert (loopList n (listed + 1)) (.list list)) where
  sources i other hother := by
    rw [NameMap.get?_insert]
    by_cases heq : i = listed
    · subst heq
      obtain rfl := Option.some.inj (hother.symm.trans hlist)
      exact ⟨.list other, if_pos rfl, rfl, fun _ => rfl⟩
    · have hne : loopList n (i + 1) ≠ loopList n (listed + 1) := fun hname =>
        heq (Nat.succ.inj (loopList_injective hname))
      obtain ⟨value, hvalue, hmembers, hlisted⟩ := h.sources i other hother
      exact ⟨value, by rw [if_neg hne, hvalue], hmembers, fun hi => hlisted (by omega)⟩
  output := by
    rw [NameMap.get?_insert, if_neg (loopList_ne_loopOutput n _).symm, h.output]
  iterators name hname := NameMap.contains_insert (h.iterators name hname)
  others name hname hfree := by
    have hcount := (List.getElem?_eq_some_iff.mp hlist).1
    have hne : name ≠ loopList n (listed + 1) := fun heq =>
      hname (heq ▸ loopList_mem_helpers hcount)
    rw [NameMap.get?_insert, if_neg hne, h.others name hname hfree]

/-- The output collects another value. -/
theorem collect (h : Staged n names lists listed collected scope) (value : Value) :
    Staged n names lists listed (collected ++ [value])
      (scope.insert (loopOutput n) (.list (collected ++ [value]))) where
  sources i list hlist := by
    obtain ⟨source, hsource, hrest⟩ := h.sources i list hlist
    refine ⟨source, ?_, hrest⟩
    rw [NameMap.get?_insert, if_neg (loopList_ne_loopOutput n _), hsource]
  output := by rw [NameMap.get?_insert, if_pos rfl]
  iterators name hname := NameMap.contains_insert (h.iterators name hname)
  others name hname hfree := by
    have hne : name ≠ loopOutput n := fun heq => hname (by simp [heq, loopHelpers])
    rw [NameMap.get?_insert, if_neg hne, h.others name hname hfree]

end Staged

/-- What the locals of a loop start with. -/
def loopBindings (n : Nat) (names : List String) (values : List Value) : List (String × Value) :=
  (values.zipIdx.map fun source => (loopList n (source.2 + 1), source.1)) ++
    [(loopOutput n, .list []), (loopIndex n, .symbol (loopIndex n))] ++
      names.map fun name => (name, .symbol name)

variable {n : Nat} {names : List String} {values : List Value} {lists : List (List Value)}

theorem mem_loopBindings {binding : String × Value} (h : binding ∈ loopBindings n names values) :
    (∃ i value, values[i]? = some value ∧ binding = (loopList n (i + 1), value)) ∨
      binding = (loopOutput n, .list []) ∨ binding = (loopIndex n, .symbol (loopIndex n)) ∨
        ∃ name ∈ names, binding = (name, .symbol name) := by
  simp only [loopBindings, List.mem_append, List.mem_map, List.mem_cons, List.not_mem_nil,
    or_false] at h
  rcases h with (⟨⟨value, i⟩, hmem, rfl⟩ | houtput | hindex) | ⟨name, hname, rfl⟩
  · exact .inl ⟨i, value, List.mem_zipIdx_iff_getElem?.mp hmem, rfl⟩
  · exact .inr (.inl houtput)
  · exact .inr (.inr (.inl hindex))
  · exact .inr (.inr (.inr ⟨name, hname, rfl⟩))

section Start

variable (hnames : ∀ name ∈ names, isHidden name = false)

include hnames

theorem get?_loopBindings_list {i : Nat} {value : Value} (h : values[i]? = some value) :
    (NameMap.ofList (loopBindings n names values)).get? (loopList n (i + 1)) = some value := by
  have hmem : (loopList n (i + 1), value) ∈ loopBindings n names values := by
    have hsource : (value, i) ∈ values.zipIdx := List.mem_zipIdx_iff_getElem?.mpr h
    exact List.mem_append_left _ (List.mem_append_left _ (List.mem_map.mpr ⟨_, hsource, rfl⟩))
  apply NameMap.get?_ofList_of_forall (List.mem_map_of_mem hmem)
  intro binding hbinding hname
  rcases mem_loopBindings hbinding with ⟨j, other, hother, rfl⟩ | rfl | rfl | ⟨name, hmem, rfl⟩
  · obtain rfl := Nat.succ.inj (loopList_injective hname)
    exact Option.some.inj (hother.symm.trans h)
  · exact absurd hname.symm (loopList_ne_loopOutput n _)
  · exact absurd hname.symm (loopList_ne_loopIndex n _)
  · obtain rfl : name = loopList n (i + 1) := hname
    exact absurd hmem ((isHelper_loopList n _).not_mem hnames)

theorem get?_loopBindings_output :
    (NameMap.ofList (loopBindings n names values)).get? (loopOutput n) = some (Value.list []) := by
  apply NameMap.get?_ofList_of_forall (by simp [loopBindings])
  intro binding hbinding hname
  rcases mem_loopBindings hbinding with ⟨j, other, -, rfl⟩ | rfl | rfl | ⟨name, hmem, rfl⟩
  · exact absurd hname (loopList_ne_loopOutput n _)
  · rfl
  · exact absurd hname (loopIndex_ne_loopOutput n)
  · obtain rfl : name = loopOutput n := hname
    exact absurd hmem ((isHelper_loopOutput n).not_mem hnames)

/-- At first the sources have their values, and nothing has been collected. -/
theorem Staged.start (hvalues : values.map Value.members? = lists.map some) :
    Staged n names lists 0 [] (.ofList (loopBindings n names values)) where
  sources i list hlist := by
    have hvalue := congrArg (·[i]?) hvalues
    simp only [List.getElem?_map, hlist, Option.map_some, Option.map_eq_some_iff] at hvalue
    obtain ⟨value, hvalue, hmembers⟩ := hvalue
    exact ⟨value, get?_loopBindings_list hnames hvalue, hmembers,
      fun hi => absurd hi (Nat.not_lt_zero i)⟩
  output := get?_loopBindings_output hnames
  iterators name hname := by
    apply NameMap.contains_ofList.mpr
    exact List.mem_map.mpr ⟨(name, .symbol name), by simp [loopBindings, hname], rfl⟩
  others name hhelper hname := by
    have hlength : values.length = lists.length := by simpa using congrArg List.length hvalues
    apply Option.not_isSome_iff_eq_none.mp
    intro hbound
    obtain ⟨binding, hbinding, rfl⟩ := List.mem_map.mp (NameMap.contains_ofList.mp hbound)
    rcases mem_loopBindings hbinding with ⟨i, value, hvalue, rfl⟩ | rfl | rfl | ⟨_, hmem, rfl⟩
    · have hi := (List.getElem?_eq_some_iff.mp hvalue).1
      exact hhelper (loopList_mem_helpers (hlength ▸ hi))
    · exact hhelper (by simp [loopHelpers])
    · exact hhelper (by simp [loopHelpers])
    · exact hname hmem

end Start

section Locals

variable {machine staged after : Machine} {rest : List Expr} {bindings : List (String × Value)}

theorem declares_idents (names : List String) :
    DeclaresTo machine (names.map Expr.ident) (names.map fun name => (name, .symbol name))
      machine := by
  induction names with
  | nil => exact .nil
  | cons name rest ih => exact .plain name ih

/-- The sources are evaluated in turn, by induction on them. -/
theorem declares_sources {iterators : List (String × Expr)} {fuel : Nat} (first : Nat)
    (h : Eval.all (evalWithin fuel) (iterators.map Prod.snd) machine = .ok values staged)
    (hrest : DeclaresTo staged rest bindings after) :
    DeclaresTo machine
      ((iterators.zipIdx first).map (fun source =>
        Expr.assign (loopList n (source.2 + 1)) source.1.2) ++ rest)
      ((values.zipIdx first).map (fun source => (loopList n (source.2 + 1), source.1)) ++ bindings)
      after := by
  induction iterators generalizing machine values first with
  | nil =>
      cases h
      exact hrest
  | cons iterator others ih =>
      rcases bind_cases (h.trans (lift_ok values staged).symm) with
        ⟨value, middle, hvalue, hothers⟩ | ⟨_, _, ⟨⟩⟩
      rcases bind_cases hothers with ⟨remaining, last, hlast, hend⟩ | ⟨_, _, ⟨⟩⟩
      cases hend
      have hleads : iterator.2.LeadsTo machine (.ok value) middle :=
        .of_run (hvalue.trans (lift_ok value middle).symm) (by simp)
      exact .assigned _ hleads (ih (first + 1) hlast)

/-- The locals of a loop start with the values of its sources. -/
theorem declares_loopLocals {iterators : List (String × Expr)} {fuel : Nat}
    (h : Eval.all (evalWithin fuel) (iterators.map Prod.snd) machine = .ok values staged) :
    DeclaresTo machine (loopLocals n iterators)
      (loopBindings n (iterators.map Prod.fst) values) staged := by
  have houtput : (Expr.list []).LeadsTo staged (.ok (.list [])) staged :=
    .of_evaluates fun _ => evaluates_list .nil
  have hplain : DeclaresTo staged
      ([Expr.assign (loopOutput n) (.list []), .ident (loopIndex n)] ++
        (iterators.map Prod.fst).map Expr.ident)
      ([(loopOutput n, Value.list []), (loopIndex n, .symbol (loopIndex n))] ++
        (iterators.map Prod.fst).map fun name => (name, Value.symbol name)) staged :=
    .assigned _ houtput (.plain _ (declares_idents _))
  have hall := declares_sources (n := n) 0 h hplain
  rw [← List.append_assoc, ← List.append_assoc, List.map_map] at hall
  rw [loopLocals, loopSources, List.mapIdx_eq_zipIdx_map]
  exact hall

end Locals

/-- The inner scope of a loop: the number of the round. -/
def roundScope (n : Nat) (number : Value) : Scope := NameMap.empty.insert (loopIndex n) number

/-- Each round starts with its own number. -/
theorem define_roundScope {machine : Machine} {inner : Scope}
    (h : ∀ number, inner.insert (loopIndex n) number = roundScope n number) (number : Value) :
    { machine.under inner with env := (machine.under inner).env.define (loopIndex n) number } =
      machine.under (roundScope n number) := by
  rw [← h number]
  rfl

theorem get?_roundScope (n : Nat) (number : Value) :
    (roundScope n number).get? (loopIndex n) = some number := by
  rw [roundScope, NameMap.get?_insert, if_pos rfl]

theorem get?_roundScope_of_ne {name : String} (number : Value) (hne : name ≠ loopIndex n) :
    (roundScope n number).get? name = none := by
  rw [roundScope, NameMap.get?_insert, if_neg hne]
  rfl

section Runs

variable {machine : Machine} {env : Environment} {scope : Scope} {collected : List Value}

theorem evaluates_bound {name : String} {value : Value} (h : env.get? name = some value) :
    (Expr.ident name).Evaluates machine env (.ok value) env := by
  have hread := @evaluates_ident machine env name
  rwa [h] at hread

/-- A list stays, and a set becomes the list of its members. -/
theorem leadsTo_listed {source : String} {value : Value} {list : List Value}
    (hplain : machine.HasBuiltins) (hvalue : machine.env.get? source = some value)
    (hmembers : value.members? = some list) :
    (Expr.ifThen (.call "setp" [.ident source]) (.call "listify" [.ident source])
      (some (.ident source))).LeadsTo machine (.ok (.list list)) machine := by
  refine .of_evaluates fun limit => ?_
  have hplain : { machine with limit := limit }.HasBuiltins := hplain
  have hargs : AllEvaluate { machine with limit := limit } machine.env [.ident source] [value]
      machine.env := .cons (evaluates_bound hvalue) .nil
  cases value with
  | list items =>
      cases hmembers
      exact evaluates_ifThen_else (evaluates_builtin .setp hplain hargs rfl)
        (evaluates_bound hvalue)
  | set items =>
      cases hmembers
      exact evaluates_ifThen (evaluates_builtin .setp hplain hargs rfl)
        (evaluates_builtin .listify hplain hargs rfl)
  | _ => cases hmembers

/-- The other sources become lists, by induction on how many there are. -/
theorem Staged.exists_listed (hplain : machine.HasBuiltins) {first count : Nat}
    (h : Staged n names lists first collected scope) (hcount : first + count = lists.length)
    (last : Value) :
    ∃ (full : Scope) (value : Value), Staged n names lists lists.length collected full ∧
      RunLeadsTo (machine.under scope) last ((List.range' first count).map fun i =>
        Expr.assign (loopList n (i + 1))
          (.ifThen (.call "setp" [.ident (loopList n (i + 1))])
            (.call "listify" [.ident (loopList n (i + 1))])
            (some (.ident (loopList n (i + 1)))))) (.ok value) (machine.under full) := by
  induction count generalizing first scope last with
  | zero =>
      obtain rfl : first = lists.length := hcount
      exact ⟨scope, last, h, fun _ => .lifted (.ok last)⟩
  | succ count ih =>
      have hlist : lists[first]? = some lists[first] := List.getElem?_eq_getElem (by omega)
      obtain ⟨value, hvalue, hmembers, -⟩ := h.sources first _ hlist
      obtain ⟨full, result, hfull, hrest⟩ := ih (h.list hlist) (by omega) (.list lists[first])
      refine ⟨full, result, hfull, ?_⟩
      rw [List.range'_succ, List.map_cons]
      have hbound : scope.contains (loopList n (first + 1)) = true := by
        simp [NameMap.contains, hvalue]
      have hfound : (machine.under scope).env.get? (loopList n (first + 1)) = some value :=
        Environment.get?_under_bound hvalue
      have hplain : (machine.under scope).HasBuiltins := hplain
      have hassigned := (leadsTo_listed hplain hfound hmembers).assigned (loopList n (first + 1))
      rw [Machine.assign_under hbound] at hassigned
      exact .cons hassigned hrest

/-- There are as many rounds as the shortest source has members. -/
theorem Staged.evaluates_count (hplain : machine.HasBuiltins)
    (h : Staged n names lists lists.length collected scope)
    (hshort : ∃ list ∈ lists, list.length < Decimal.twoPow 53) :
    (loopCount n lists.length).Evaluates machine (env.under scope)
      (.ok (.int (Lockstep.shortest lists : Nat))) (env.under scope) := by
  have hlengths : ∀ count ≤ lists.length, AllEvaluate machine (env.under scope)
      ((List.range' (lists.length - count) count).map fun i =>
        Expr.call "length" [.ident (loopList n (i + 1))])
      (((lists.drop (lists.length - count)).map List.length).map fun n : Nat => .int n)
      (env.under scope) := by
    intro count hcount
    induction count with
    | zero => simpa using AllEvaluate.nil
    | succ count ih =>
        have hi : lists.length - (count + 1) < lists.length := by omega
        have hnext : lists.length - (count + 1) + 1 = lists.length - count := by omega
        have hlist := List.getElem?_eq_getElem hi
        obtain ⟨value, hvalue, -, hlisted⟩ := h.sources _ _ hlist
        rw [hlisted hi, hnext] at hvalue
        have hargs : AllEvaluate machine (env.under scope)
            [.ident (loopList n (lists.length - count))] [.list lists[lists.length - (count + 1)]]
            (env.under scope) :=
          .cons (evaluates_bound (Environment.get?_under_bound hvalue)) .nil
        rw [List.range'_succ, List.map_cons, List.drop_eq_getElem_cons hi, hnext]
        exact .cons (evaluates_builtin .length hplain hargs rfl) (ih (by omega))
  have hall := hlengths lists.length (Nat.le_refl _)
  rw [Nat.sub_self, List.drop_zero, ← List.range_eq_range'] at hall
  obtain ⟨list, hlist, hsmall⟩ := hshort
  exact evaluates_builtin .min hplain hall
    (Builtin.apply_min ⟨_, List.mem_map_of_mem hlist, hsmall⟩)

theorem progression_one (count : Nat) :
    (Value.progression 1 1 count).map Value.int =
      (List.range count).map fun k : Nat => Value.int (k + 1) := by
  have hcount : (Int.fdiv (count - 1) 1 + 1).toNat = count := by
    simp
  rw [Value.progression, hcount, List.map_map]
  refine List.map_congr_left fun k _ => congrArg Value.int ?_
  change (1 : Int) + k * 1 = k + 1
  omega

/-- The rounds are numbered from 1. -/
theorem Staged.ends_range (hplain : machine.HasBuiltins)
    (h : Staged n names lists lists.length collected scope)
    (hshort : ∃ list ∈ lists, list.length < Decimal.twoPow 53) (fuel : Nat) :
    Ends machine (env.under scope)
      (rangeOf (evalWithin fuel) (.int 1) none (loopCount n lists.length))
      (.ok ((List.range (Lockstep.shortest lists)).map fun k : Nat => .int (k + 1)))
      (env.under scope) := by
  have hone : (Expr.int 1).Evaluates machine (env.under scope) (.ok (.int 1)) (env.under scope) :=
    evaluates_nat (by decide)
  have hrange : Value.range (.int 1) (.int 1) (.int (Lockstep.shortest lists : Nat)) =
      .ok ((Value.progression 1 1 (Lockstep.shortest lists)).map Value.int) := rfl
  rw [progression_one] at hrange
  have hlimit : Ends machine (env.under scope) (do
      let limit ← evalWithin fuel (loopCount n lists.length)
      lift (Value.range (.int 1) (.int 1) limit))
      (.ok ((List.range (Lockstep.shortest lists)).map fun k : Nat => .int (k + 1)))
      (env.under scope) := (h.evaluates_count hplain hshort fuel).bind (hrange ▸ Ends.lifted _)
  exact (hone fuel).bind ((Ends.value (Value.int 1)).bind hlimit)

/-- The iterators take their members, by induction on the iterators. -/
theorem exists_membersRun {iterators : List (String × Expr)} {row : List Value} {k : Nat}
    (first : Nat) (last : Value) (hlength : iterators.length = row.length)
    (hrow : ∀ i value, row[i]? = some value → ∃ list,
      scope.get? (loopList n (first + i + 1)) = some (.list list) ∧ list[k]? = some value)
    (hiterators : ∀ iterator ∈ iterators,
      isHidden iterator.1 = false ∧ scope.contains iterator.1 = true) :
    ∃ value, RunLeadsTo ((machine.under scope).under (roundScope n (.int (k + 1)))) last
      ((iterators.zipIdx first).map fun member => Expr.assign member.1.1
        (.index (.ident (loopList n (member.2 + 1))) [.ident (loopIndex n)])) (.ok value)
      ((machine.under (scope.insertAll ((iterators.map Prod.fst).zip row))).under
        (roundScope n (.int (k + 1)))) := by
  induction iterators generalizing row scope first last with
  | nil => exact ⟨last, fun _ => .lifted (.ok last)⟩
  | cons iterator rest ih =>
      obtain ⟨value, row, rfl⟩ := List.exists_cons_of_length_eq_add_one hlength.symm
      obtain ⟨list, hlist, hvalue⟩ := hrow 0 value rfl
      obtain ⟨hhere, hrest⟩ := List.forall_mem_cons.mp hiterators
      have hvisible : ∀ {name}, IsHelper n name → name ≠ iterator.1 := by
        rintro name hhelper rfl
        exact absurd hhelper.isHidden (by simp [hhere.1])
      have hfree := get?_roundScope_of_ne (.int (k + 1)) (hvisible (isHelper_loopIndex n)).symm
      have hsource : ((machine.under scope).under (roundScope n (.int (k + 1)))).env.get?
          (loopList n (first + 1)) = some (.list list) :=
        (Environment.get?_under_free (get?_roundScope_of_ne _ (loopList_ne_loopIndex n _))).trans
          (Environment.get?_under_bound hlist)
      have hnumber : ((machine.under scope).under (roundScope n (.int (k + 1)))).env.get?
          (loopIndex n) = some (.int (k + 1)) :=
        Environment.get?_under_bound (get?_roundScope n _)
      have hitem : (Value.list list).item (.int (k + 1)) = .ok value := by
        simp [Value.item, hvalue, (by omega : (1 : Int) ≤ k + 1)]
      have hassigned := (LeadsTo.of_evaluates fun _ => evaluates_item
        (evaluates_bound hsource) (evaluates_bound hnumber) hitem).assigned iterator.1
      rw [Machine.assign_through hfree hhere.2] at hassigned
      have hmembers : ∀ i other, row[i]? = some other → ∃ source,
          (scope.insert iterator.1 value).get? (loopList n (first + 1 + i + 1)) =
            some (.list source) ∧ source[k]? = some other := by
        intro i other hother
        obtain ⟨source, hsource, hmember⟩ := hrow (i + 1) other hother
        have hposition : first + 1 + i + 1 = first + (i + 1) + 1 := by omega
        refine ⟨source, ?_, hmember⟩
        rw [NameMap.get?_insert, if_neg (hvisible (isHelper_loopList n _)), hposition, hsource]
      have hothers : ∀ other ∈ rest, isHidden other.1 = false ∧
          (scope.insert iterator.1 value).contains other.1 = true :=
        fun other hother => ⟨(hrest other hother).1,
          NameMap.contains_insert (hrest other hother).2⟩
      obtain ⟨result, hrun⟩ := ih (first + 1) value (Nat.succ.inj hlength) hmembers hothers
      exact ⟨result, .cons hassigned hrun⟩

/-- What was collected is joined. -/
theorem Staged.evaluates_result (hplain : machine.HasBuiltins) {listed : Nat}
    (h : Staged n names lists listed collected scope) :
    (loopResult n true).Evaluates machine (env.under scope)
      (.ok (.str (Value.joinTexts "" collected))) (env.under scope) := by
  have hargs : AllEvaluate machine (env.under scope) [.ident (loopOutput n)] [.list collected]
      (env.under scope) := .cons (evaluates_bound (Environment.get?_under_bound h.output)) .nil
  exact evaluates_builtin .simplode hplain hargs rfl

end Runs

end Emit

end SceneQuiz
