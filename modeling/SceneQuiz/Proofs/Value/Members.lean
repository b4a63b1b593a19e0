import Mathlib.Data.List.Nodup
import Mathlib.Data.Set.Defs
import SceneQuiz.Proofs.Value.PrintedForm
/-!
Members of sets.  A set is sorted by the text of its members, and of neighbours
that are loosely equal only the first stays.  So a set has no member twice, and
does not depend on the order and the repetition of what it is made of, exactly
for values among which nothing else is sorted between two that are equal.
-/

namespace SceneQuiz

mutual

/-- The value with every integer rounded to a double. -/
def Value.asDoubles (value : Value) : Value :=
  match value with
  | .int n => .int (Decimal.nearestInt n)
  | .list items => .list (Value.itemsAsDoubles items)
  | .set items => .set (Value.itemsAsDoubles items)
  | other => other
termination_by structural value

def Value.itemsAsDoubles (items : List Value) : List Value :=
  match items with
  | [] => []
  | item :: rest => item.asDoubles :: Value.itemsAsDoubles rest
termination_by structural items

end

namespace Value

/-- Neither a float nor a value with a float inside. -/
def FloatFree (value : Value) : Prop :=
  value.Everywhere fun part => part.kind ≠ .float

theorem itemsAsDoubles_eq (items : List Value) : itemsAsDoubles items = items.map asDoubles := by
  induction items with
  | nil => rfl
  | cons item rest ih => rw [itemsAsDoubles, ih, List.map_cons]

theorem looselyEqualItems_iff {items others : List Value}
    (h : ∀ item ∈ items, ∀ other ∈ others,
      item.looselyEquals other = true ↔ item.asDoubles = other.asDoubles) :
    looselyEqualItems items others = true ↔ items.map asDoubles = others.map asDoubles := by
  induction items generalizing others with
  | nil => cases others <;> simp [looselyEqualItems]
  | cons item rest ih =>
      cases others with
      | nil => simp [looselyEqualItems]
      | cons other others =>
          have hrest := ih fun value hvalue seen hseen =>
            h value (List.mem_cons_of_mem _ hvalue) seen (List.mem_cons_of_mem _ hseen)
          have hhead := h item List.mem_cons_self other List.mem_cons_self
          simp [looselyEqualItems, hhead, hrest]

/-- Without floats, values are loosely equal if they are rounded to the same. -/
theorem looselyEquals_iff {value other : Value} (hvalue : value.FloatFree)
    (hother : other.FloatFree) :
    value.looselyEquals other = true ↔ value.asDoubles = other.asDoubles := by
  induction hvalue generalizing other with
  | @node value hkind _ ih =>
      cases value with
      | float => exact absurd rfl hkind
      | list items =>
          cases other with
          | list others =>
              have hitems : looselyEqualItems items others = true ↔
                  items.map asDoubles = others.map asDoubles :=
                looselyEqualItems_iff fun item hitem seen hseen =>
                  ih item hitem (hother.inside hseen)
              simpa [looselyEquals, asDoubles, itemsAsDoubles_eq] using hitems
          | _ => simp [looselyEquals, asDoubles]
      | set items =>
          cases other with
          | set others =>
              have hitems : looselyEqualItems items others = true ↔
                  items.map asDoubles = others.map asDoubles :=
                looselyEqualItems_iff fun item hitem seen hseen =>
                  ih item hitem (hother.inside hseen)
              simpa [looselyEquals, asDoubles, itemsAsDoubles_eq] using hitems
          | _ => simp [looselyEquals, asDoubles]
      | _ =>
          cases other with
          | float => exact absurd rfl hother.here
          | _ => simp [looselyEquals, asDoubles]

theorem looselyEquals_self {value : Value} (h : value.FloatFree) :
    value.looselyEquals value = true :=
  (looselyEquals_iff h h).mpr rfl

theorem pairwise_sortByText (items : List Value) :
    (sortByText items).Pairwise fun first second => first.text ≤ second.text := by
  have hsorted : ((items.map fun item => (item.text, item)).mergeSort
      fun a b => decide (a.1 ≤ b.1)).Pairwise fun a b => decide (a.1 ≤ b.1) = true := by
    apply List.pairwise_mergeSort
    · intro a b c hab hbc
      exact decide_eq_true (String.le_trans (of_decide_eq_true hab) (of_decide_eq_true hbc))
    · intro a b
      simpa using String.le_total a.1 b.1
  rw [sortByText, List.pairwise_map]
  apply hsorted.imp_of_mem
  intro first second hfirst hsecond hle
  obtain ⟨one, -, rfl⟩ := List.mem_map.mp (List.mem_mergeSort.mp hfirst)
  obtain ⟨two, -, rfl⟩ := List.mem_map.mp (List.mem_mergeSort.mp hsecond)
  exact of_decide_eq_true hle

/-- What is sorted already stays as it is. -/
theorem sortByText_of_pairwise {items : List Value}
    (h : items.Pairwise fun first second => first.text ≤ second.text) :
    sortByText items = items := by
  have hpairs : (items.map fun item => (item.text, item)).Pairwise
      fun a b => decide (a.1 ≤ b.1) = true := by
    rw [List.pairwise_map]
    exact h.imp decide_eq_true
  rw [sortByText, List.mergeSort_of_pairwise hpairs, List.map_map]
  simp [Function.comp_def]

section Keys

variable {items others : List Value} {pool : Set Value}

/-- Nothing stands between two equal values but their equals. -/
def Convex (items : List Value) : Prop :=
  ∀ first between last, [first, between, last].Sublist items →
    first.asDoubles = last.asDoubles → first.asDoubles = between.asDoubles

theorem Convex.sublist (h : Convex others) (hsub : items.Sublist others) : Convex items :=
  fun first between last hthree => h first between last (hthree.trans hsub)

/-- By induction on the items: one that stays differs from the last one that
stayed, and so does every later one. -/
theorem nodup_dropRepeatsAfter {last : Value} (hfree : ∀ value ∈ last :: items, value.FloatFree)
    (h : Convex (last :: items)) :
    ((last :: dropRepeatsAfter last items).map asDoubles).Nodup := by
  induction items generalizing last with
  | nil => simp [dropRepeatsAfter]
  | cons item rest ih =>
      obtain ⟨hlast, hitem, hrest⟩ : last.FloatFree ∧ item.FloatFree ∧
          ∀ value ∈ rest, value.FloatFree := by
        simpa [List.forall_mem_cons] using hfree
      unfold dropRepeatsAfter
      split
      · exact ih (List.forall_mem_cons.mpr ⟨hlast, hrest⟩)
          (h.sublist ((List.sublist_cons_self item rest).cons_cons last))
      · next hdiffers =>
          rw [looselyEquals_iff hitem hlast] at hdiffers
          have hkept := ih (List.forall_mem_cons.mpr ⟨hitem, hrest⟩)
            (h.sublist (List.sublist_cons_self last _))
          rw [List.map_cons, List.nodup_cons]
          refine ⟨fun hmem => ?_, hkept⟩
          obtain ⟨value, hvalue, heq⟩ := List.mem_map.mp hmem
          rcases List.mem_cons.mp hvalue with rfl | hlater
          · exact hdiffers heq
          · have hthree : [last, item, value].Sublist (last :: item :: rest) :=
              ((List.singleton_sublist.mpr
                ((dropRepeatsAfter_sublist item rest).mem hlater)).cons_cons item).cons_cons last
            exact hdiffers (h last item value hthree heq.symm).symm

theorem nodup_dropRepeats (hfree : ∀ value ∈ items, value.FloatFree) (h : Convex items) :
    ((dropRepeats items).map asDoubles).Nodup := by
  cases items with
  | nil => exact List.nodup_nil
  | cons item rest => exact nodup_dropRepeatsAfter hfree h

theorem exists_mem_dropRepeatsAfter {last value : Value}
    (hfree : ∀ value ∈ last :: items, value.FloatFree) (h : value ∈ last :: items) :
    ∃ kept ∈ last :: dropRepeatsAfter last items, kept.asDoubles = value.asDoubles := by
  induction items generalizing last with
  | nil => exact ⟨value, h, rfl⟩
  | cons item rest ih =>
      obtain ⟨hlast, hitem, hrest⟩ : last.FloatFree ∧ item.FloatFree ∧
          ∀ value ∈ rest, value.FloatFree := by
        simpa [List.forall_mem_cons] using hfree
      unfold dropRepeatsAfter
      split
      · next hsame =>
          rw [looselyEquals_iff hitem hlast] at hsame
          have hkept := ih (List.forall_mem_cons.mpr ⟨hlast, hrest⟩)
          rcases List.mem_cons.mp h with rfl | hmem
          · exact ⟨value, List.mem_cons_self, rfl⟩
          · rcases List.mem_cons.mp hmem with rfl | hmem
            · exact ⟨last, List.mem_cons_self, hsame.symm⟩
            · exact hkept (List.mem_cons_of_mem _ hmem)
      · rcases List.mem_cons.mp h with rfl | hmem
        · exact ⟨value, List.mem_cons_self, rfl⟩
        · obtain ⟨kept, hkept, heq⟩ := ih (List.forall_mem_cons.mpr ⟨hitem, hrest⟩) hmem
          exact ⟨kept, List.mem_cons_of_mem _ hkept, heq⟩

/-- Up to loose equality no item is lost. -/
theorem exists_mem_dropRepeats {value : Value} (hfree : ∀ value ∈ items, value.FloatFree)
    (h : value ∈ items) : ∃ kept ∈ dropRepeats items, kept.asDoubles = value.asDoubles := by
  cases items with
  | nil => cases h
  | cons item rest => exact exists_mem_dropRepeatsAfter hfree h

end Keys

section Pool

variable {pool : Set Value} {items others : List Value}

/-- Sorted by text, only loosely equal values stand between loosely equal ones. -/
def Orderly (pool : Set Value) : Prop :=
  ∀ first ∈ pool, ∀ between ∈ pool, ∀ last ∈ pool,
    first.text ≤ between.text → between.text ≤ last.text →
      first.looselyEquals last = true → first.looselyEquals between = true

theorem Orderly.asDoubles_eq (h : Orderly pool) (hfree : ∀ value ∈ pool, value.FloatFree)
    {first between last : Value} (hfirst : first ∈ pool) (hbetween : between ∈ pool)
    (hlast : last ∈ pool) (hafter : first.text ≤ between.text)
    (hbefore : between.text ≤ last.text) (hequal : first.asDoubles = last.asDoubles) :
    first.asDoubles = between.asDoubles := by
  have hends := (looselyEquals_iff (hfree first hfirst) (hfree last hlast)).mpr hequal
  exact (looselyEquals_iff (hfree first hfirst) (hfree between hbetween)).mp
    (h first hfirst between hbetween last hlast hafter hbefore hends)

theorem Orderly.convex (h : Orderly pool) (hfree : ∀ value ∈ pool, value.FloatFree)
    (hitems : ∀ item ∈ items, item ∈ pool) : Convex (sortByText items) := by
  intro first between last hthree hequal
  have hmem : ∀ value ∈ [first, between, last], value ∈ pool := fun value hvalue =>
    hitems value ((sortByText_perm items).mem_iff.mp (hthree.mem hvalue))
  have hsorted := (pairwise_sortByText items).sublist hthree
  simp only [List.pairwise_cons, List.forall_mem_cons] at hmem hsorted
  exact h.asDoubles_eq hfree hmem.1 hmem.2.1 hmem.2.2.1 hsorted.1.1 hsorted.2.1.1 hequal

/-- Two members of a pool that are not equal are sorted as all their equals are. -/
theorem Orderly.antisymm (h : Orderly pool) (hfree : ∀ value ∈ pool, value.FloatFree)
    {one two other third : Value} (hone : one ∈ pool) (htwo : two ∈ pool) (hother : other ∈ pool)
    (hthird : third ∈ pool) (hfirst : one.text ≤ two.text) (hsecond : other.text ≤ third.text)
    (hequal : third.asDoubles = one.asDoubles) (hrest : other.asDoubles = two.asDoubles) :
    one.asDoubles = two.asDoubles := by
  rcases String.le_total two.text third.text with hle | hle
  · exact h.asDoubles_eq hfree hone htwo hthird hfirst hle hequal.symm
  · have hbetween := h.asDoubles_eq hfree hother hthird htwo hsecond hle hrest
    rw [← hequal, ← hbetween, hrest]

/-- Lists with the same elements up to order, repetition and loose equality. -/
def SameElements (items others : List Value) : Prop :=
  (∀ item ∈ items, ∃ other ∈ others, item.looselyEquals other = true) ∧
    ∀ other ∈ others, ∃ item ∈ items, item.looselyEquals other = true

theorem sameElements_of_mem_iff (hfree : ∀ item ∈ items, item.FloatFree)
    (h : ∀ value, value ∈ items ↔ value ∈ others) : SameElements items others := by
  refine ⟨fun item hitem => ⟨item, (h item).mp hitem, ?_⟩,
    fun other hother => ⟨other, (h other).mpr hother, ?_⟩⟩
  · exact looselyEquals_self (hfree item hitem)
  · exact looselyEquals_self (hfree other ((h other).mpr hother))

theorem SameElements.mem_iff (hfree : ∀ value ∈ pool, value.FloatFree)
    (hitems : ∀ item ∈ items, item ∈ pool) (hothers : ∀ other ∈ others, other ∈ pool)
    (h : SameElements items others) (key : Value) :
    key ∈ items.map asDoubles ↔ key ∈ others.map asDoubles := by
  have hasDoubles : ∀ item ∈ items, ∀ other ∈ others,
      item.looselyEquals other = true → item.asDoubles = other.asDoubles :=
    fun item hitem other hother =>
      (looselyEquals_iff (hfree item (hitems item hitem)) (hfree other (hothers other hother))).mp
  simp only [List.mem_map]
  constructor
  · rintro ⟨item, hitem, rfl⟩
    obtain ⟨other, hother, hequal⟩ := h.1 item hitem
    exact ⟨other, hother, (hasDoubles item hitem other hother hequal).symm⟩
  · rintro ⟨other, hother, rfl⟩
    obtain ⟨item, hitem, hequal⟩ := h.2 other hother
    exact ⟨item, hitem, hasDoubles item hitem other hother hequal⟩

theorem mem_of_mem_kept {value : Value} (h : value ∈ dropRepeats (sortByText items)) :
    value ∈ items :=
  (sortByText_perm items).mem_iff.mp ((dropRepeats_sublist _).mem h)

theorem mem_map_asDoubles_kept (hfree : ∀ item ∈ items, item.FloatFree) (key : Value) :
    key ∈ (dropRepeats (sortByText items)).map asDoubles ↔ key ∈ items.map asDoubles := by
  have hsorted : ∀ item ∈ sortByText items, item.FloatFree := fun item hitem =>
    hfree item ((sortByText_perm items).mem_iff.mp hitem)
  simp only [List.mem_map]
  constructor
  · rintro ⟨item, hitem, rfl⟩
    exact ⟨item, mem_of_mem_kept hitem, rfl⟩
  · rintro ⟨item, hitem, rfl⟩
    exact exists_mem_dropRepeats hsorted ((sortByText_perm items).mem_iff.mpr hitem)

theorem pairwise_kept (items : List Value) :
    (dropRepeats (sortByText items)).Pairwise fun first second => first.text ≤ second.text :=
  (pairwise_sortByText items).sublist (dropRepeats_sublist _)

theorem Orderly.nodup_kept (h : Orderly pool) (hfree : ∀ value ∈ pool, value.FloatFree)
    (hitems : ∀ item ∈ items, item ∈ pool) :
    ((dropRepeats (sortByText items)).map asDoubles).Nodup :=
  nodup_dropRepeats (fun item hitem =>
    hfree item (hitems item ((sortByText_perm items).mem_iff.mp hitem))) (h.convex hfree hitems)

/-- Both lists keep the same, up to loose equality: neither keeps anything twice,
and the pool says in which order any two stand. -/
theorem Orderly.map_asDoubles_kept (h : Orderly pool) (hfree : ∀ value ∈ pool, value.FloatFree)
    (hitems : ∀ item ∈ items, item ∈ pool) (hothers : ∀ other ∈ others, other ∈ pool)
    (hsame : SameElements items others) :
    (dropRepeats (sortByText items)).map asDoubles =
      (dropRepeats (sortByText others)).map asDoubles := by
  have hordered : ∀ list : List Value, (∀ value ∈ list, value ∈ pool) →
      ((dropRepeats (sortByText list)).map asDoubles).Pairwise fun one two =>
        ∃ first ∈ pool, ∃ second ∈ pool, first.asDoubles = one ∧ second.asDoubles = two ∧
          first.text ≤ second.text := by
    intro list hlist
    rw [List.pairwise_map]
    apply (pairwise_kept list).imp_of_mem
    intro first second hfirst hsecond hle
    exact ⟨first, hlist first (mem_of_mem_kept hfirst), second,
      hlist second (mem_of_mem_kept hsecond), rfl, rfl, hle⟩
  apply List.Perm.eq_of_pairwise ?_ (hordered items hitems) (hordered others hothers)
  · rw [List.perm_ext_iff_of_nodup (h.nodup_kept hfree hitems) (h.nodup_kept hfree hothers)]
    intro key
    rw [mem_map_asDoubles_kept fun item hitem => hfree item (hitems item hitem),
      mem_map_asDoubles_kept fun other hother => hfree other (hothers other hother)]
    exact hsame.mem_iff hfree hitems hothers key
  · rintro _ _ - - ⟨one, hone, two, htwo, rfl, rfl, hfirst⟩
      ⟨other, hother, third, hthird, hrest, hequal, hsecond⟩
    exact h.antisymm hfree hone htwo hother hthird hfirst hsecond hequal hrest

/-- A set whose members are sorted by their texts. -/
def Sorted : Value → Prop
  | .set members => members.Pairwise fun first second => first.text ≤ second.text
  | _ => False

/-- A set of which no two members are loosely equal. -/
def Distinct : Value → Prop
  | .set members => members.Pairwise fun first second => first.looselyEquals second = false
  | _ => False

theorem Orderly.distinct (h : Orderly pool) (hfree : ∀ value ∈ pool, value.FloatFree)
    (hitems : ∀ item ∈ items, item ∈ pool) : (setOf items).Distinct := by
  have hnodup := List.pairwise_map.mp (h.nodup_kept hfree hitems)
  apply hnodup.imp_of_mem
  intro first second hfirst hsecond hne
  rw [← Bool.not_eq_true, looselyEquals_iff (hfree first (hitems first (mem_of_mem_kept hfirst)))
    (hfree second (hitems second (mem_of_mem_kept hsecond)))]
  exact hne

theorem Orderly.setOf_equal (h : Orderly pool) (hfree : ∀ value ∈ pool, value.FloatFree)
    (hitems : ∀ item ∈ items, item ∈ pool) (hothers : ∀ other ∈ others, other ∈ pool)
    (hsame : SameElements items others) :
    (setOf items).looselyEquals (setOf others) = true := by
  have hkept := h.map_asDoubles_kept hfree hitems hothers hsame
  rw [← looselyEqualItems_iff fun item hitem other hother =>
    looselyEquals_iff (hfree item (hitems item (mem_of_mem_kept hitem)))
      (hfree other (hothers other (mem_of_mem_kept hother)))] at hkept
  exact hkept

/-- What differs from one of two equal values differs from the other one. -/
theorem apart (hfree : ∀ value ∈ pool, value.FloatFree) {first between last : Value}
    (hfirst : first ∈ pool) (hbetween : between ∈ pool) (hlast : last ∈ pool)
    (hends : first.looselyEquals last = true) (hdiffer : first.looselyEquals between = false) :
    between.looselyEquals first = false ∧ last.looselyEquals between = false := by
  simp only [← Bool.not_eq_true] at hdiffer ⊢
  rw [looselyEquals_iff (hfree _ hfirst) (hfree _ hlast)] at hends
  rw [looselyEquals_iff (hfree _ hfirst) (hfree _ hbetween)] at hdiffer
  rw [looselyEquals_iff (hfree _ hbetween) (hfree _ hfirst),
    looselyEquals_iff (hfree _ hlast) (hfree _ hbetween)]
  exact ⟨fun h => hdiffer h.symm, fun h => hdiffer (hends.trans h)⟩

/-- Items that are sorted already, none of them equal to the one before it. -/
theorem setOf_three {first between last : Value} (hafter : first.text ≤ between.text)
    (hbefore : between.text ≤ last.text) (hleft : between.looselyEquals first = false)
    (hright : last.looselyEquals between = false) :
    setOf [first, between, last] = .set [first, between, last] := by
  have hsorted : [first, between, last].Pairwise fun first second => first.text ≤ second.text := by
    simp [hafter, hbefore, String.le_trans hafter hbefore]
  rw [setOf, sortByText_of_pairwise hsorted]
  simp [dropRepeats, dropRepeatsAfter, hleft, hright]

theorem setOf_two {first second : Value} (hle : first.text ≤ second.text)
    (hdiffer : second.looselyEquals first = false) :
    setOf [first, second] = .set [first, second] := by
  have hsorted : [first, second].Pairwise fun first second => first.text ≤ second.text := by
    simp [hle]
  rw [setOf, sortByText_of_pairwise hsorted]
  simp [dropRepeats, dropRepeatsAfter, hdiffer]

/-- The other way: three members that are sorted and not orderly are all kept. -/
theorem orderly_of_distinct (hfree : ∀ value ∈ pool, value.FloatFree)
    (h : ∀ items, (∀ item ∈ items, item ∈ pool) → (setOf items).Distinct) : Orderly pool := by
  intro first hfirst between hbetween last hlast hafter hbefore hends
  cases hdiffer : first.looselyEquals between with
  | true => rfl
  | false =>
      obtain ⟨hleft, hright⟩ := apart hfree hfirst hbetween hlast hends hdiffer
      have hthree := h [first, between, last] (by simp [hfirst, hbetween, hlast])
      rw [setOf_three hafter hbefore hleft hright] at hthree
      have hapart : first.looselyEquals last = false :=
        (List.pairwise_cons.mp hthree).1 last (by simp)
      rw [hends] at hapart
      cases hapart

theorem orderly_of_setOf_equal (hfree : ∀ value ∈ pool, value.FloatFree)
    (h : ∀ items others, (∀ item ∈ items, item ∈ pool) → (∀ other ∈ others, other ∈ pool) →
      SameElements items others → (setOf items).looselyEquals (setOf others) = true) :
    Orderly pool := by
  intro first hfirst between hbetween last hlast hafter hbefore hends
  cases hdiffer : first.looselyEquals between with
  | true => rfl
  | false =>
      obtain ⟨hleft, hright⟩ := apart hfree hfirst hbetween hlast hends hdiffer
      have hself := fun value hvalue => looselyEquals_self (hfree value hvalue)
      have hsame : SameElements [first, between] [first, between, last] := by
        simp [SameElements, hself first hfirst, hself between hbetween, hends]
      have hequal := h _ _ (by simp [hfirst, hbetween]) (by simp [hfirst, hbetween, hlast]) hsame
      rw [setOf_two hafter hleft, setOf_three hafter hbefore hleft hright] at hequal
      simp [looselyEquals, looselyEqualItems] at hequal

end Pool

/-- No float; symbols are names, and integers are doubles. -/
def HasPlainNode (value : Value) : Prop :=
  value.HasLegibleNode ∧ ∀ n, value = .int n → Decimal.nearestInt n = n

/-- A value of which texts and equality say the same. -/
def Plain (value : Value) : Prop := value.Everywhere HasPlainNode

theorem HasPlainNode.of_legible {value : Value} (h : value.HasLegibleNode)
    (hint : ∀ n, value ≠ .int n) : value.HasPlainNode :=
  ⟨h, fun n heq => absurd heq (hint n)⟩

theorem Plain.legible {value : Value} (h : value.Plain) : value.Legible :=
  h.mono fun _ hnode => hnode.1

theorem Legible.floatFree {value : Value} (h : value.Legible) : value.FloatFree := by
  apply h.mono
  intro value hnode
  cases value with
  | float => exact hnode.elim
  | _ => simp [kind]

theorem Plain.asDoubles_eq {value : Value} (h : value.Plain) : value.asDoubles = value := by
  induction h with
  | @node value hnode _ ih =>
      cases value with
      | int n => exact congrArg Value.int (hnode.2 n rfl)
      | list items =>
          have hitems : items.map asDoubles = items :=
            (List.map_congr_left ih).trans (List.map_id' items)
          rw [asDoubles, itemsAsDoubles_eq, hitems]
      | set items =>
          have hitems : items.map asDoubles = items :=
            (List.map_congr_left ih).trans (List.map_id' items)
          rw [asDoubles, itemsAsDoubles_eq, hitems]
      | _ => rfl

/-- Between two equal plain values only the same value is sorted. -/
theorem orderly_of_plain {pool : Set Value} (h : ∀ value ∈ pool, value.Plain) : Orderly pool := by
  intro first hfirst between hbetween last hlast hafter hbefore hends
  have hone := h first hfirst
  have htwo := h between hbetween
  have hequal :=
    (looselyEquals_iff hone.legible.floatFree (h last hlast).legible.floatFree).mp hends
  rw [hone.asDoubles_eq, (h last hlast).asDoubles_eq] at hequal
  subst hequal
  obtain rfl := text_injective hone.legible htwo.legible (String.le_antisymm hafter hbefore)
  exact looselyEquals_self hone.legible.floatFree

/-- Sets are always sorted.  Over a pool of values without floats, no set has two
members that are loosely equal exactly if the pool is orderly, and exactly then
lists with the same elements give the same set.  Plain values are orderly. -/
theorem setOf_canonical_iff (pool : Set Value) (hfree : ∀ value ∈ pool, value.FloatFree) :
    (∀ items, (setOf items).Sorted) ∧
    ((∀ items, (∀ item ∈ items, item ∈ pool) → (setOf items).Distinct) ↔ Orderly pool) ∧
    ((∀ items others, (∀ item ∈ items, item ∈ pool) → (∀ other ∈ others, other ∈ pool) →
      SameElements items others → (setOf items).looselyEquals (setOf others) = true) ↔
        Orderly pool) ∧
    ((∀ value ∈ pool, value.Plain) → Orderly pool) := by
  refine ⟨pairwise_kept, ⟨orderly_of_distinct hfree, fun h items hitems => ?_⟩,
    ⟨orderly_of_setOf_equal hfree, fun h items others hitems hothers hsame => ?_⟩,
    orderly_of_plain⟩
  · exact h.distinct hfree hitems
  · exact h.setOf_equal hfree hitems hothers hsame

/-- Values of every kind but floats. -/
def mixedValues : List Value :=
  [.symbol "x", .list [.int 2, .set [.symbol "x", .bool true]], .str "x", .int (-3), .bool true]

theorem mixedValues_canonical :
    (∀ value ∈ mixedValues, value.FloatFree) ∧
    (setOf mixedValues).Sorted ∧ (setOf mixedValues).Distinct ∧
    (setOf (mixedValues ++ mixedValues.reverse)).looselyEquals (setOf mixedValues) = true := by
  have hplain : ∀ value ∈ mixedValues, value.Plain := by
    have hname : (Value.symbol "x").Plain :=
      .leaf (.of_legible (by decide : isName "x" = true) (by simp)) rfl
    have htrue : (Value.bool true).Plain := .leaf (.of_legible trivial (by simp)) rfl
    have hint : ∀ n, Decimal.nearestInt n = n → (Value.int n).Plain := fun n hn =>
      .leaf ⟨trivial, fun m hm => by cases hm; exact hn⟩ rfl
    have hset : (Value.set [.symbol "x", .bool true]).Plain :=
      .node (.of_legible trivial (by simp)) (by simpa [parts] using ⟨hname, htrue⟩)
    have hlist : (Value.list [.int 2, .set [.symbol "x", .bool true]]).Plain :=
      .node (.of_legible trivial (by simp))
        (by simpa [parts] using ⟨hint 2 (by decide), hset⟩)
    have hstr : (Value.str "x").Plain := .leaf (.of_legible trivial (by simp)) rfl
    simpa [mixedValues] using ⟨hname, hlist, hstr, hint (-3) (by decide), htrue⟩
  have hfree := fun value hvalue => (hplain value hvalue).legible.floatFree
  obtain ⟨hsorted, hdistinct, hequal, hpool⟩ :=
    setOf_canonical_iff {value | value ∈ mixedValues} hfree
  have hsame : SameElements (mixedValues ++ mixedValues.reverse) mixedValues :=
    sameElements_of_mem_iff (fun item hitem => hfree item (by simpa using hitem)) (by simp)
  have htwice : ∀ item ∈ mixedValues ++ mixedValues.reverse, item ∈ mixedValues := by simp
  exact ⟨hfree, hsorted mixedValues, hdistinct.mpr (hpool hplain) mixedValues fun _ h => h,
    hequal.mpr (hpool hplain) _ _ htwice (fun _ h => h) hsame⟩

/-- The number one, and the symbol that is written like it. -/
def oneTwice : List Value := [.int 1, .symbol "1", .int 1]

/-- The number is kept twice, for the symbol stands between. -/
theorem oneTwice_not_distinct :
    (∀ item ∈ oneTwice, item.FloatFree) ∧ setOf oneTwice = .set oneTwice ∧
    ¬ (setOf oneTwice).Distinct ∧ SameElements [.int 1, .symbol "1"] oneTwice ∧
    (setOf [.int 1, .symbol "1"]).looselyEquals (setOf oneTwice) = false := by
  have hfree : ∀ item ∈ oneTwice, item.FloatFree := by
    intro item hitem
    simp only [oneTwice, List.mem_cons, List.not_mem_nil, or_false] at hitem
    rcases hitem with rfl | rfl | rfl <;> exact .leaf (by decide) rfl
  have hequal : Value.looselyEquals (.int 1) (.int 1) = true := by decide
  have hkept : setOf oneTwice = .set oneTwice :=
    setOf_three (String.le_refl _) (String.le_refl _) (by decide) (by decide)
  have hpair : setOf [.int 1, .symbol "1"] = .set [.int 1, .symbol "1"] :=
    setOf_two (String.le_refl _) (by decide)
  have hmem : ∀ value, value ∈ [.int 1, .symbol "1"] ↔ value ∈ oneTwice := by
    intro value
    simp only [oneTwice, List.mem_cons, List.not_mem_nil, or_false]
    tauto
  have hsame : SameElements [.int 1, .symbol "1"] oneTwice :=
    sameElements_of_mem_iff (fun item hitem => hfree item ((hmem item).mp hitem)) hmem
  refine ⟨hfree, hkept, fun hdistinct => ?_, hsame, ?_⟩
  · rw [hkept] at hdistinct
    have hapart := (List.pairwise_cons.mp hdistinct).1 (.int 1) (by simp)
    rw [hequal] at hapart
    cases hapart
  · rw [hpair, hkept]
    decide

end Value

end SceneQuiz
