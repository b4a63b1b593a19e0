import SceneQuiz.Proofs.Page.Layout
/-!
What rendering counts.  A page counts without an end; among machine integers an id
has 32 bits, and the next number of a numbering has 64 with a sign.  Main result:
rendering leaves a page with the pieces of what was rendered added to its counters,
so the layout of a value tells whether a counter passes its end.
-/

namespace SceneQuiz

/-- The numbering of an index. -/
def Piece.scope? : Piece → Option IndexScope
  | .index scope => some scope
  | _ => none

namespace Page

/-- Do the counters of a page fit into their 32 and 64 bits? -/
structure InRange (page : Page) : Prop where
  indexes : page.indexCount < 0x100000000
  reveals : page.revealCount < 0x100000000
  numberings : ∀ numbering ∈ page.numberings, numbering.next < 0x8000000000000000

/-- The place of a numbering that is open on a page, by how many are inside of it. -/
def openPlace (depth : Nat) : List Nat := List.replicate (depth + 1) 0

/-- The numberings that are open on a page, the innermost first. -/
def scopes (page : Page) : List IndexScope :=
  page.numberings.zipIdx.map fun (numbering, depth) =>
    ⟨openPlace depth, numbering.style, numbering.next⟩

/-- How a value is laid out on a page, at a place apart from what is open on it. -/
def layout (page : Page) (value : Datum) : Layout :=
  value.layout page.language page.scopes.head? [1]

/-- A page with pieces written on it: an index counts for the page and for its
numbering. -/
def showing (page : Page) (pieces : List Piece) : Page where
  language := page.language
  indexCount := page.indexCount + pieces.countP Piece.isIndex
  revealCount := page.revealCount + pieces.countP Piece.isReveal
  numberings := page.scopes.map fun scope =>
    ⟨scope.style, scope.start + pieces.countP (Piece.isIndexOf scope.place)⟩

/-- Does no counter pass its end while pieces are written on a page, neither those
of the page nor those of the numberings that the pieces open? -/
structure HasRoom (page : Page) (pieces : List Piece) : Prop where
  inRange : (page.showing pieces).InRange
  numbers : ∀ scope ∈ pieces.filterMap Piece.scope?,
    scope.start + pieces.countP (Piece.isIndexOf scope.place) < 0x8000000000000000

instance (page : Page) : Decidable page.InRange :=
  decidable_of_iff (page.indexCount < 0x100000000 ∧ page.revealCount < 0x100000000 ∧
      ∀ numbering ∈ page.numberings, numbering.next < 0x8000000000000000)
    ⟨fun ⟨indexes, reveals, numberings⟩ => ⟨indexes, reveals, numberings⟩,
      fun h => ⟨h.indexes, h.reveals, h.numberings⟩⟩

instance (page : Page) (pieces : List Piece) : Decidable (page.HasRoom pieces) :=
  decidable_of_iff ((page.showing pieces).InRange ∧
      ∀ scope ∈ pieces.filterMap Piece.scope?,
        scope.start + (pieces.countP (Piece.isIndexOf scope.place) : Int) < 0x8000000000000000)
    ⟨fun ⟨inRange, numbers⟩ => ⟨inRange, numbers⟩, fun h => ⟨h.inRange, h.numbers⟩⟩

/-- Pieces that bring the counters of a blank page to those of a page. -/
def past (page : Page) : List Piece :=
  List.replicate page.indexCount (.index ⟨[2], .plain, 0⟩) ++
    List.replicate page.revealCount (.reveal "" "")

theorem openPlace_ne (depth : Nat) : openPlace depth ≠ [2] := by
  rw [openPlace, List.replicate_succ]
  simp

theorem openPlace_injective : Function.Injective openPlace := by
  intro depth other heq
  simpa [openPlace] using congrArg List.length heq

theorem countP_past (page : Page) (depth : Nat) :
    page.past.countP (Piece.isIndexOf (openPlace depth)) = 0 := by
  have hne : ([2] == openPlace depth) = false :=
    beq_eq_false_iff_ne.mpr (openPlace_ne depth).symm
  simp [past, List.countP_replicate, Piece.isIndexOf, hne]

/-- What is written on a page comes after its past. -/
theorem holding_past (page : Page) (pieces : List Piece) :
    holding page.language (page.past ++ pieces) page.scopes = page.showing pieces := by
  have hindexes : page.past.countP Piece.isIndex = page.indexCount := by
    simp [past, List.countP_replicate, Piece.isIndex]
  have hreveals : page.past.countP Piece.isReveal = page.revealCount := by
    simp [past, List.countP_replicate, Piece.isReveal]
  rw [holding, showing, List.countP_append, List.countP_append, hindexes, hreveals]
  congr 1
  apply List.map_congr_left
  intro scope hscope
  obtain ⟨item, hitem, rfl⟩ := List.mem_map.mp hscope
  rw [List.countP_append, countP_past, Nat.zero_add]

theorem showing_nil (page : Page) : page.showing [] = page := by
  have hnumberings : page.scopes.map (fun scope => (⟨scope.style, scope.start +
      ([] : List Piece).countP (Piece.isIndexOf scope.place)⟩ : Numbering)) =
        page.numberings := by
    simp [scopes, Function.comp_def]
  rw [showing, hnumberings]
  rfl

/-- At the place of a value that is laid out on a page nothing has been opened. -/
theorem unopened_past (page : Page) : Layout.Unopened page.past page.scopes [1] where
  unused scope hscope hplace := by
    simp only [past, List.mem_append, List.mem_replicate, Piece.index.injEq, reduceCtorEq,
      and_false, or_false] at hscope
    rw [hscope.2] at hplace
    simp at hplace
  outside := by
    intro scope hscope hplace
    obtain ⟨item, hitem, rfl⟩ := List.mem_map.mp hscope
    simp [openPlace, List.replicate_succ] at hplace
  apart := by
    have hplaces : page.scopes.map IndexScope.place =
        (List.range' 0 page.numberings.length).map openPlace := by
      rw [scopes, List.map_map, ← List.zipIdx_map_snd 0 page.numberings, List.map_map]
      rfl
    rw [hplaces]
    exact List.Nodup.map openPlace_injective List.nodup_range'

/-- A value is rendered on a page as it is laid out on it. -/
theorem render_none (page : Page) (value : Datum) :
    value.render .none page =
      match (page.layout value).fault? with
      | none => .ok (Piece.allWritten page.past (page.layout value).pieces)
          (page.showing (page.layout value).pieces)
      | some fault => .error fault (page.showing (page.layout value).pieces) := by
  have hshows := Datum.shows .none page.language value (.inr rfl) page.unopened_past
  have hpage := page.holding_past []
  rw [List.append_nil, showing_nil] at hpage
  rw [hpage, Layout.outcome, holding_past] at hshows
  exact hshows

/-- If no counter passes its end, those of the page that is left fit as well. -/
theorem HasRoom.left_inRange {page : Page} {value : Datum}
    (h : page.HasRoom (page.layout value).pieces) : (left (value.render .none page)).InRange := by
  rw [render_none]
  split <;> exact h.inRange

end Page

end SceneQuiz
