import Mathlib.Data.List.Pairwise
import SceneQuiz.Template.MathMode
/-!
Which bytes of a template are skipped.  In a tree whose nodes stand in the bytes
of their parents, apart from their siblings, a byte belongs to the deepest node
that holds it.  Main statement: of the bytes of a template, those are skipped
that belong neither to a text nor to the outermost node.
-/

namespace SceneQuiz

namespace MathMode

theorem isSkipped_append (one two : List Position) (offset : Nat) :
    isSkipped (one ++ two) offset = (isSkipped one offset || isSkipped two offset) :=
  List.any_append

theorem isSkipped_flatMap {α : Type} {items : List α} {f : α → List Position}
    {offset : Nat} :
    isSkipped (items.flatMap f) offset = true ↔
      ∃ item ∈ items, isSkipped (f item) offset = true := by
  simp only [isSkipped, List.any_flatMap, List.any_eq_true]

/-- The gaps from a cursor on hold what lies between the cursor and the stop and
in none of the ranges that are left. -/
theorem isSkipped_gapsFrom {cursor stop offset : Nat} {ranges : List Position}
    (hsorted : ranges.Pairwise fun a b => a.start ≤ b.start)
    (hstop : ∀ range ∈ ranges, range.start ≤ stop) :
    isSkipped (gapsFrom cursor stop ranges) offset = true ↔
      (cursor ≤ offset ∧ offset < stop) ∧ isSkipped ranges offset = false := by
  induction ranges generalizing cursor with
  | nil =>
      unfold gapsFrom
      split
      · simp [isSkipped, Position.covers]
      · simp [isSkipped]
        omega
  | cons range rest ih =>
      obtain ⟨hfirst, hrest⟩ := List.pairwise_cons.mp hsorted
      have hbound := hstop range List.mem_cons_self
      have hlater : isSkipped (gapsFrom (max cursor range.stop) stop rest) offset = true ↔
          (max cursor range.stop ≤ offset ∧ offset < stop) ∧ isSkipped rest offset = false :=
        ih hrest fun other hother => hstop other (List.mem_cons_of_mem _ hother)
      have hgap : isSkipped (if cursor < range.start then [⟨cursor, range.start⟩] else [])
          offset = true ↔ cursor ≤ offset ∧ offset < range.start := by
        split
        · simp [isSkipped, Position.covers]
        · simp [isSkipped]
          omega
      have hcons : isSkipped (range :: rest) offset = false ↔
          ¬ (range.start ≤ offset ∧ offset < range.stop) ∧ isSkipped rest offset = false := by
        simp [isSkipped, Position.covers]
      have hahead : offset < range.start → isSkipped rest offset = false := by
        intro hlt
        refine List.any_eq_false.mpr fun other hother => ?_
        have hstart := hfirst other hother
        simp only [Position.covers, Bool.and_eq_true, decide_eq_true_eq]
        omega
      rw [gapsFrom, isSkipped_append, Bool.or_eq_true, hgap, hlater, hcons]
      constructor
      · rintro (⟨hcursor, hlt⟩ | ⟨⟨hcursor, hlt⟩, hrest⟩)
        · exact ⟨⟨hcursor, by omega⟩, by omega, hahead hlt⟩
        · exact ⟨⟨by omega, hlt⟩, by omega, hrest⟩
      · rintro ⟨⟨hcursor, hlt⟩, hout, hrest⟩
        by_cases hbefore : offset < range.start
        · exact .inl ⟨hcursor, hbefore⟩
        · exact .inr ⟨⟨by omega, hlt⟩, hrest⟩

/-- The gaps of a range are its bytes that no other range holds. -/
theorem isSkipped_gaps {outer : Position} {inner : List Position} {offset : Nat}
    (hinner : ∀ range ∈ inner, range.start ≤ outer.stop) :
    isSkipped (gaps outer inner) offset = true ↔
      outer.covers offset = true ∧ isSkipped inner offset = false := by
  have hperm := List.mergeSort_perm inner fun a b => decide (a.start ≤ b.start)
  have hsorted : (inner.mergeSort fun a b => decide (a.start ≤ b.start)).Pairwise
      fun a b => a.start ≤ b.start := by
    have hle := List.pairwise_mergeSort
      (fun a b c : Position => show decide (a.start ≤ b.start) → decide (b.start ≤ c.start) →
        decide (a.start ≤ c.start) by simp; omega)
      (fun a b : Position => show decide (a.start ≤ b.start) || decide (b.start ≤ a.start) by
        simp; omega) inner
    simpa using hle
  rw [gaps, isSkipped_gapsFrom hsorted fun range hrange => hinner range (hperm.mem_iff.mp hrange)]
  have hsame : isSkipped (inner.mergeSort fun a b => decide (a.start ≤ b.start)) offset =
      isSkipped inner offset := hperm.any_eq
  rw [hsame, Position.covers, Bool.and_eq_true, decide_eq_true_eq, decide_eq_true_eq]

end MathMode

namespace Node

open MathMode (isSkipped isSkipped_append isSkipped_flatMap)

theorem sizeOf_lt_of_mem_children {node child : Node} (h : child ∈ node.children) :
    sizeOf child < sizeOf node := by
  have hitems : ∀ {items : List Node}, child ∈ items → sizeOf child < sizeOf items :=
    fun hmem => List.sizeOf_lt_of_mem hmem
  cases node with
  | root site items | foreach site _ items | named site _ _ items =>
      have hsize : sizeOf child < sizeOf items := hitems h
      simp
      omega
  | cond site branches =>
      obtain ⟨branch, hbranch, hchild⟩ := List.mem_flatMap.mp h
      have hone := List.sizeOf_lt_of_mem hbranch
      have htwo := hitems hchild
      cases branch
      simp at hone htwo ⊢
      omega
  | _ => cases h

/-- What holds of a node once it holds of its children holds of every node. -/
theorem ofChildren {P : Node → Prop}
    (hstep : ∀ node : Node, (∀ child ∈ node.children, P child) → P node) (node : Node) :
    P node :=
  hstep node fun child hchild =>
    have := sizeOf_lt_of_mem_children hchild
    ofChildren hstep child
termination_by sizeOf node

/-- A node of plain text. -/
def isText : Node → Bool
  | .raw _ _ => true
  | _ => false

/-- A node of a kind that other nodes stand in. -/
def holdsNodes : Node → Bool
  | .root _ _ | .cond _ _ | .foreach _ _ _ | .named _ _ _ _ => true
  | _ => false

theorem children_of_not_holdsNodes {node : Node} (h : node.holdsNodes = false) :
    node.children = [] := by
  cases node <;> first | rfl | cases h

theorem skipsOfAll_eq (nodes : List Node) :
    skipsOfAll nodes = nodes.flatMap fun node => node.skipsWithin false := by
  induction nodes with
  | nil => rfl
  | cons node rest ih => rw [skipsOfAll, ih, List.flatMap_cons]

theorem skipsOfBranches_eq (branches : List (Branch Node)) :
    skipsOfBranches branches =
      (branches.flatMap Branch.children).flatMap fun node => node.skipsWithin false := by
  induction branches with
  | nil => rfl
  | cons branch rest ih =>
      rw [skipsOfBranches, ih, skipsOfAll_eq, List.flatMap_cons, List.flatMap_append]

/-- A node that holds nodes skips its own bytes, unless it is outermost, and what
its children skip. -/
theorem skipsWithin_of_holdsNodes {node : Node} (h : node.holdsNodes = true)
    (isFrame : Bool) :
    node.skipsWithin isFrame =
      (if isFrame then [] else MathMode.gaps node.position (node.children.map position)) ++
        node.children.flatMap fun child => child.skipsWithin false := by
  cases node with
  | root | foreach | named =>
      rw [skipsWithin, skipsOfAll_eq]
      rfl
  | cond =>
      rw [skipsWithin, skipsOfBranches_eq]
      rfl
  | _ => cases h

/-- A node without children is skipped as a whole, unless it is text. -/
theorem skipsWithin_of_not_holdsNodes {node : Node} (h : node.holdsNodes = false) :
    node.skipsWithin false = if node.isText then [] else [node.position] := by
  cases node <;> first | rfl | cases h

/-- A node of a tree, so many levels below its top. -/
inductive Below : Node → Nat → Node → Prop where
  | top (node : Node) : Below node 0 node
  | child {top child node : Node} {depth : Nat} : child ∈ top.children →
      Below child depth node → Below top (depth + 1) node

/-- No byte belongs to both nodes. -/
def Apart (one two : Node) : Prop :=
  ∀ offset, ¬ (one.position.covers offset = true ∧ two.position.covers offset = true)

instance : Std.Symm Apart := ⟨fun _ _ h offset hboth => h offset hboth.symm⟩

/-- The children of a node stand in its bytes and apart from each other, and none
is empty. -/
structure Tiles (node : Node) : Prop where
  nonempty : ∀ child ∈ node.children, child.position.start < child.position.stop
  within : ∀ child ∈ node.children, node.position.start ≤ child.position.start ∧
    child.position.stop ≤ node.position.stop
  apart : node.children.Pairwise Apart

/-- The children of every node of a tree stand so. -/
def Nested (top : Node) : Prop := ∀ depth node, top.Below depth node → node.Tiles

/-- The deepest node of a tree that holds a byte, and how deep it is. -/
structure IsDeepest (top : Node) (offset depth : Nat) (node : Node) : Prop where
  below : top.Below depth node
  covers : node.position.covers offset = true
  deepest : ∀ depth' node', top.Below depth' node' →
    node'.position.covers offset = true → depth' ≤ depth

theorem Nested.child {top child : Node} (h : top.Nested) (hchild : child ∈ top.children) :
    child.Nested :=
  fun depth node hbelow => h (depth + 1) node (.child hchild hbelow)

theorem Nested.tiles {top : Node} (h : top.Nested) : top.Tiles := h 0 top (.top top)

theorem Tiles.covers {node child : Node} (h : node.Tiles) (hchild : child ∈ node.children)
    {offset : Nat} (hcovers : child.position.covers offset = true) :
    node.position.covers offset = true := by
  have hwithin := h.within child hchild
  simp only [Position.covers, Bool.and_eq_true, decide_eq_true_eq] at hcovers ⊢
  omega

theorem Tiles.starts {node : Node} (h : node.Tiles) :
    ∀ range ∈ node.children.map position, range.start ≤ node.position.stop := by
  intro range hrange
  obtain ⟨child, hchild, rfl⟩ := List.mem_map.mp hrange
  have hnonempty := h.nonempty child hchild
  have hwithin := h.within child hchild
  omega

/-- At most one child holds a byte. -/
theorem Tiles.eq_of_covers {node one two : Node} (h : node.Tiles)
    (hone : one ∈ node.children) (htwo : two ∈ node.children) {offset : Nat}
    (hcoversOne : one.position.covers offset = true)
    (hcoversTwo : two.position.covers offset = true) : one = two := by
  by_contra hne
  exact h.apart.forall hone htwo hne offset ⟨hcoversOne, hcoversTwo⟩

/-- A node below holds only bytes of the nodes it stands in. -/
theorem Below.covers {top node : Node} {depth offset : Nat} (hbelow : top.Below depth node)
    (hnested : top.Nested) (hcovers : node.position.covers offset = true) :
    top.position.covers offset = true := by
  induction hbelow with
  | top node => exact hcovers
  | child hchild _ ih => exact hnested.tiles.covers hchild (ih (hnested.child hchild) hcovers)

theorem held_or_free (node : Node) (offset : Nat) :
    (∃ child ∈ node.children, child.position.covers offset = true) ∨
      ∀ child ∈ node.children, child.position.covers offset = false := by
  by_cases h : ∃ child ∈ node.children, child.position.covers offset = true
  · exact .inl h
  · exact .inr fun child hchild => Bool.eq_false_iff.mpr fun hcovers => h ⟨child, hchild, hcovers⟩

/-- A node that holds a byte which none of its children holds is the deepest. -/
theorem isDeepest_top_iff {top node : Node} {offset depth : Nat} (hnested : top.Nested)
    (hcovers : top.position.covers offset = true)
    (hfree : ∀ child ∈ top.children, child.position.covers offset = false) :
    top.IsDeepest offset depth node ↔ depth = 0 ∧ node = top := by
  have hnone : ∀ {depth : Nat} {node : Node}, top.Below depth node →
      node.position.covers offset = true → depth = 0 ∧ node = top := by
    intro depth node hbelow hnode
    cases hbelow with
    | top => exact ⟨rfl, rfl⟩
    | child hchild hbelow =>
        have hcovered := hbelow.covers (hnested.child hchild) hnode
        rw [hfree _ hchild] at hcovered
        cases hcovered
  constructor
  · exact fun h => hnone h.below h.covers
  · rintro ⟨rfl, rfl⟩
    exact ⟨.top node, hcovers, fun depth' node' hbelow hnode =>
      Nat.le_of_eq (hnone hbelow hnode).1⟩

/-- The deepest node in the child that holds a byte is the deepest. -/
theorem isDeepest_child_iff {top child node : Node} {offset depth : Nat}
    (hnested : top.Nested) (hchild : child ∈ top.children)
    (hcovers : child.position.covers offset = true) :
    top.IsDeepest offset depth node ↔
      ∃ below, depth = below + 1 ∧ child.IsDeepest offset below node := by
  constructor
  · rintro ⟨hbelow, hnode, hdeepest⟩
    cases hbelow with
    | top =>
        have hdeep := hdeepest 1 child (.child hchild (.top child)) hcovers
        exact absurd hdeep (by decide)
    | child hother hbelow =>
        have hsame := hnested.tiles.eq_of_covers hother hchild
          (hbelow.covers (hnested.child hother) hnode) hcovers
        subst hsame
        exact ⟨_, rfl, hbelow, hnode, fun depth' node' hbelow' hnode' =>
          Nat.le_of_succ_le_succ (hdeepest (depth' + 1) node' (.child hchild hbelow') hnode')⟩
  · rintro ⟨below, rfl, hbelow, hnode, hdeepest⟩
    refine ⟨.child hchild hbelow, hnode, fun depth' node' hbelow' hnode' => ?_⟩
    cases hbelow' with
    | top => exact Nat.zero_le _
    | child hother hbelow' =>
        have hsame := hnested.tiles.eq_of_covers hother hchild
          (hbelow'.covers (hnested.child hother) hnode') hcovers
        subst hsame
        exact Nat.succ_le_succ (hdeepest _ _ hbelow' hnode')

/-- Some node is the deepest to hold a byte of the tree. -/
theorem Nested.exists_isDeepest {top : Node} {offset : Nat} (hnested : top.Nested)
    (hcovers : top.position.covers offset = true) :
    ∃ depth node, top.IsDeepest offset depth node := by
  induction top using ofChildren with
  | hstep top ih =>
      rcases top.held_or_free offset with ⟨child, hchild, hcovered⟩ | hfree
      · obtain ⟨depth, node, hdeepest⟩ := ih child hchild (hnested.child hchild) hcovered
        exact ⟨depth + 1, node,
          (isDeepest_child_iff hnested hchild hcovered).mpr ⟨depth, rfl, hdeepest⟩⟩
      · exact ⟨0, top, (isDeepest_top_iff hnested hcovers hfree).mpr ⟨rfl, rfl⟩⟩

theorem IsDeepest.unique {top one two : Node} {offset first second : Nat}
    (hnested : top.Nested) (hone : top.IsDeepest offset first one)
    (htwo : top.IsDeepest offset second two) : second = first ∧ two = one := by
  induction top using ofChildren generalizing first second with
  | hstep top ih =>
      have hcovers := hone.below.covers hnested hone.covers
      rcases top.held_or_free offset with ⟨child, hchild, hcovered⟩ | hfree
      · obtain ⟨_, rfl, honeBelow⟩ := (isDeepest_child_iff hnested hchild hcovered).mp hone
        obtain ⟨_, rfl, htwoBelow⟩ := (isDeepest_child_iff hnested hchild hcovered).mp htwo
        obtain ⟨rfl, rfl⟩ := ih child hchild (hnested.child hchild) honeBelow htwoBelow
        exact ⟨rfl, rfl⟩
      · obtain ⟨rfl, rfl⟩ := (isDeepest_top_iff hnested hcovers hfree).mp hone
        exact (isDeepest_top_iff hnested hcovers hfree).mp htwo

/-- A node skips only bytes of its own. -/
theorem covers_of_isSkipped {node : Node} {offset : Nat} (hnested : node.Nested)
    (hskipped : isSkipped (node.skipsWithin false) offset = true) :
    node.position.covers offset = true := by
  induction node using ofChildren with
  | hstep node ih =>
      cases hholds : node.holdsNodes with
      | true =>
          rw [skipsWithin_of_holdsNodes hholds, isSkipped_append, Bool.or_eq_true] at hskipped
          rcases hskipped with hgap | hchild
          · exact ((MathMode.isSkipped_gaps hnested.tiles.starts).mp hgap).1
          · obtain ⟨child, hmem, hchild⟩ := isSkipped_flatMap.mp hchild
            exact hnested.tiles.covers hmem (ih child hmem (hnested.child hmem) hchild)
      | false =>
          rw [skipsWithin_of_not_holdsNodes hholds] at hskipped
          split at hskipped
          · cases hskipped
          · simpa [isSkipped] using hskipped

/-- What the children of a node skip of a byte is what the child skips that holds
it. -/
theorem isSkipped_children_iff {node child : Node} {offset : Nat} (hnested : node.Nested)
    (hchild : child ∈ node.children) (hcovers : child.position.covers offset = true) :
    isSkipped (node.children.flatMap fun child => child.skipsWithin false) offset = true ↔
      isSkipped (child.skipsWithin false) offset = true := by
  rw [isSkipped_flatMap]
  constructor
  · rintro ⟨other, hother, hskipped⟩
    have hcovered := covers_of_isSkipped (hnested.child hother) hskipped
    rwa [hnested.tiles.eq_of_covers hchild hother hcovers hcovered]
  · exact fun hskipped => ⟨child, hchild, hskipped⟩

/-- A node inside a template skips the bytes whose deepest node is no text. -/
theorem isSkipped_skipsWithin_iff {node deepest : Node} {offset depth : Nat}
    (hnested : node.Nested) (hdeepest : node.IsDeepest offset depth deepest) :
    isSkipped (node.skipsWithin false) offset = true ↔ deepest.isText = false := by
  induction node using ofChildren generalizing depth with
  | hstep node ih =>
      have hcovers := hdeepest.below.covers hnested hdeepest.covers
      rcases node.held_or_free offset with ⟨child, hchild, hcovered⟩ | hfree
      · obtain ⟨below, -, hbelow⟩ :=
          (isDeepest_child_iff hnested hchild hcovered).mp hdeepest
        have hholds : node.holdsNodes = true := by
          by_contra hnot
          rw [children_of_not_holdsNodes (Bool.eq_false_iff.mpr hnot)] at hchild
          cases hchild
        have hinner : isSkipped (node.children.map position) offset = true :=
          List.any_eq_true.mpr ⟨_, List.mem_map_of_mem hchild, hcovered⟩
        rw [skipsWithin_of_holdsNodes hholds, isSkipped_append, Bool.or_eq_true,
          if_neg (by decide), MathMode.isSkipped_gaps hnested.tiles.starts, hinner,
          isSkipped_children_iff hnested hchild hcovered,
          ih child hchild (hnested.child hchild) hbelow]
        simp
      · obtain ⟨-, rfl⟩ := (isDeepest_top_iff hnested hcovers hfree).mp hdeepest
        cases hholds : deepest.holdsNodes with
        | true =>
            have hinner : isSkipped (deepest.children.map position) offset = false := by
              refine List.any_eq_false.mpr fun range hrange => ?_
              obtain ⟨child, hchild, rfl⟩ := List.mem_map.mp hrange
              simp [hfree child hchild]
            have hgap := (MathMode.isSkipped_gaps hnested.tiles.starts).mpr ⟨hcovers, hinner⟩
            have hkind : deepest.isText = false := by
              cases deepest <;> first | rfl | cases hholds
            rw [skipsWithin_of_holdsNodes hholds, isSkipped_append, if_neg (by decide), hgap,
              hkind]
            simp
        | false =>
            rw [skipsWithin_of_not_holdsNodes hholds]
            cases deepest.isText <;> simp [isSkipped, hcovers]

/-- Each byte of a template has one deepest node that holds it, and it is skipped
exactly if that node is neither a text nor the outermost one. -/
theorem skipRanges_hold_iff (top : Node) (hholds : top.holdsNodes = true)
    (hnested : top.Nested) (offset : Nat) (hcovers : top.position.covers offset = true) :
    ∃ depth node,
      (∀ depth' node', top.IsDeepest offset depth' node' ↔ depth' = depth ∧ node' = node) ∧
      (isSkipped top.skipRanges offset = true ↔ node.isText = false ∧ depth ≠ 0) := by
  obtain ⟨depth, node, hdeepest⟩ := hnested.exists_isDeepest hcovers
  refine ⟨depth, node, fun depth' node' => ⟨fun h => hdeepest.unique hnested h, ?_⟩, ?_⟩
  · rintro ⟨rfl, rfl⟩
    exact hdeepest
  · rw [skipRanges, skipsWithin_of_holdsNodes hholds, if_pos rfl, List.nil_append]
    rcases top.held_or_free offset with ⟨child, hchild, hcovered⟩ | hfree
    · obtain ⟨below, rfl, hbelow⟩ := (isDeepest_child_iff hnested hchild hcovered).mp hdeepest
      rw [isSkipped_children_iff hnested hchild hcovered,
        isSkipped_skipsWithin_iff (hnested.child hchild) hbelow]
      simp
    · obtain ⟨rfl, -⟩ := (isDeepest_top_iff hnested hcovers hfree).mp hdeepest
      rw [isSkipped_flatMap]
      constructor
      · rintro ⟨child, hchild, hskipped⟩
        have hcovered := covers_of_isSkipped (hnested.child hchild) hskipped
        rw [hfree child hchild] at hcovered
        cases hcovered
      · rintro ⟨-, hdepth⟩
        exact absurd rfl hdepth

theorem Nested.of_tiles {top : Node} (h : top.Tiles)
    (hchildren : ∀ child ∈ top.children, child.Nested) : top.Nested := by
  intro depth node hbelow
  cases hbelow with
  | top => exact h
  | child hchild hbelow => exact hchildren _ hchild _ _ hbelow

theorem nested_of_children_eq_nil {node : Node} (h : node.children = []) : node.Nested :=
  .of_tiles ⟨by simp [h], by simp [h], by simp [h]⟩ (by simp [h])

/-- Children one after the other stand apart. -/
theorem Tiles.of_ascending {node : Node}
    (hnonempty : ∀ child ∈ node.children, child.position.start < child.position.stop)
    (hwithin : ∀ child ∈ node.children, node.position.start ≤ child.position.start ∧
      child.position.stop ≤ node.position.stop)
    (hascending : node.children.Pairwise fun one two =>
      one.position.stop ≤ two.position.start) : node.Tiles := by
  refine ⟨hnonempty, hwithin, hascending.imp fun hle offset => ?_⟩
  simp only [Position.covers, Bool.and_eq_true, decide_eq_true_eq]
  omega

/-- A conditional with an injection in its first arm, between a text and a
comment. -/
def conditionalTemplate : Node :=
  .root ⟨⟨0, 60⟩, false⟩ [.raw ⟨⟨0, 4⟩, false⟩ "one ",
    .cond ⟨⟨4, 40⟩, false⟩
      [⟨some "t", [.raw ⟨⟨19, 21⟩, false⟩ "ab", .inject ⟨⟨21, 26⟩, false⟩ .value "x"], ⟨4, 26⟩⟩,
        ⟨none, [.raw ⟨⟨34, 35⟩, false⟩ "c"], ⟨26, 35⟩⟩],
    .comment ⟨⟨40, 60⟩, false⟩ ""]

theorem conditionalTemplate_nested : conditionalTemplate.Nested := by
  refine .of_tiles (.of_ascending (by decide) (by decide) (by decide)) ?_
  simp only [conditionalTemplate, children, List.forall_mem_cons]
  refine ⟨nested_of_children_eq_nil rfl,
    .of_tiles (.of_ascending (by decide) (by decide) (by decide)) ?_,
    nested_of_children_eq_nil rfl, nofun⟩
  simp only [children, List.flatMap_cons, List.flatMap_nil, List.append_nil,
    List.cons_append, List.nil_append, List.forall_mem_cons]
  exact ⟨nested_of_children_eq_nil rfl, nested_of_children_eq_nil rfl,
    nested_of_children_eq_nil rfl, nofun⟩

/-- Byte 30 is in the header of the second arm. -/
theorem conditionalTemplate_holds :
    conditionalTemplate.holdsNodes = true ∧ conditionalTemplate.Nested ∧
      conditionalTemplate.position.covers 30 = true ∧
      ∃ depth node,
        (∀ depth' node', conditionalTemplate.IsDeepest 30 depth' node' ↔
          depth' = depth ∧ node' = node) ∧
        (isSkipped conditionalTemplate.skipRanges 30 = true ↔
          node.isText = false ∧ depth ≠ 0) :=
  ⟨rfl, conditionalTemplate_nested, rfl,
    skipRanges_hold_iff conditionalTemplate rfl conditionalTemplate_nested 30 rfl⟩

end Node

end SceneQuiz
