import Mathlib.Data.List.Induction
import Mathlib.Data.List.Nodup
import SceneQuiz.Page
/-!
What a page shows, laid out before anything on it is numbered.  A value is laid
out as pieces: texts, indexes with the numbering they belong to, and openings of
reveals, up to the first fault.  What is written in the place of a piece depends
on how many pieces of its kind come before it on the page.  Main result: of
values rendered one after the other, each is written as its layout after the
layouts of the earlier ones, and leaves the page with these pieces and without a
numbering that is still open, also if it ends in a fault.
-/

namespace SceneQuiz

/-- An `indexing` marker.  Its place is the number of the value that it is in,
and then its places among the items of the markers around it, from the outside
in. -/
structure IndexScope where
  place : List Nat
  style : IndexStyle
  start : Int

/-- What is shown by a marker or a text, without its number. -/
inductive Piece where
  | text (content : String)
  /-- An index, inside of the innermost numbering around it. -/
  | index (scope : IndexScope)
  /-- The opening of a reveal. -/
  | reveal (input shown : String)

namespace Piece

def isIndex : Piece → Bool
  | .index _ => true
  | _ => false

def isReveal : Piece → Bool
  | .reveal _ _ => true
  | _ => false

/-- Is this an index whose innermost numbering is the one at the place? -/
def isIndexOf (place : List Nat) : Piece → Bool
  | .index scope => scope.place == place
  | _ => false

/-- An index with its id and its label. -/
def indexText (id : Nat) (label : String) : String :=
  "<span class=\"stateq-index\" id=\"stateq-index-" ++ toString id ++ "\">" ++ label ++ "</span>"

/-- The opening of a reveal with its id. -/
def revealText (id : Nat) (input shown : String) : String :=
  "<div class=\"stateq-reveal\" id=\"stateq-reveal-" ++ toString id ++ "\" data-input=\"" ++
    Render.attributeText input ++ "\" data-value=\"" ++ Render.attributeText shown ++
    "\" style=\"display:none;\">"

/-- How a piece is written after others on the page.  Indexes and reveals are
counted from one; a label goes on from the start of its numbering by the indexes
that this already has. -/
def writtenAfter (before : List Piece) : Piece → String
  | .text content => content
  | .index scope =>
      indexText (before.countP isIndex + 1)
        (scope.style.label (scope.start + before.countP (isIndexOf scope.place)))
  | .reveal input shown => revealText (before.countP isReveal + 1) input shown

/-- How pieces are written one after the other, after others on the page. -/
def allWritten (before : List Piece) : List Piece → String
  | [] => ""
  | piece :: rest => piece.writtenAfter before ++ allWritten (before ++ [piece]) rest

theorem allWritten_append (before pieces others : List Piece) :
    allWritten before (pieces ++ others) =
      allWritten before pieces ++ allWritten (before ++ pieces) others := by
  induction pieces generalizing before with
  | nil => simp [allWritten]
  | cons piece rest ih => simp [allWritten, ih, String.append_assoc]

end Piece

/-- The pieces of a value, up to the first fault. -/
structure Layout where
  pieces : List Piece
  fault? : Option PageFault

namespace Layout

def nothing : Layout := ⟨[], none⟩

def single (piece : Piece) : Layout := ⟨[piece], none⟩

def stopped (fault : PageFault) : Layout := ⟨[], some fault⟩

/-- After a fault nothing comes. -/
def andThen (first rest : Layout) : Layout :=
  match first.fault? with
  | none => ⟨first.pieces ++ rest.pieces, rest.fault?⟩
  | some _ => first

/-- A value, and how it is laid out inside a numbering and at a place. -/
abbrev Item := Datum × (Option IndexScope → List Nat → Layout)

/-- Items of a marker from the `n`-th on, one after the other. -/
def each (scope? : Option IndexScope) (place : List Nat) (n : Nat) : List Item → Layout
  | [] => nothing
  | (_, layout) :: rest =>
      (layout scope? (place ++ [n])).andThen (each scope? place (n + 1) rest)

/-- A layout between two pieces. -/
def enclosed (opening : Piece) (body : Layout) (closing : String) : Layout :=
  ((single opening).andThen body).andThen (single (.text closing))

def indexing (place : List Nat) (items : List Item) : Layout :=
  match items with
  | [(style, _), (start, _), (_, body)] =>
      match style.asString? with
      | none => stopped (.malformed "indexing" .styleNoText)
      | some pattern =>
          match IndexStyle.ofPattern? pattern, start.asInt? with
          | none, _ => stopped (.malformed "indexing" .unknownStyle)
          | some _, none => stopped (.malformed "indexing" .startNoInteger)
          | some style, some start =>
              enclosed (.text ("<span class=\"stateq-indexing\" data-style=\"" ++
                  Render.attributeText pattern ++ "\" data-start=\"" ++ toString start ++ "\">"))
                (body (some ⟨place, style, start⟩) (place ++ [2])) "</span>"
  | _ => stopped (.malformed "indexing" .indexingShape)

def index (scope? : Option IndexScope) : Layout :=
  match scope? with
  | none => stopped .indexOutsideIndexing
  | some scope => single (.index scope)

def reveal (scope? : Option IndexScope) (place : List Nat) (items : List Item) : Layout :=
  match items with
  | [(input, _), (value, _), (_, body)] =>
      match input.asString? with
      | none => stopped (.malformed "reveal" .inputNoText)
      | some input =>
          enclosed (.reveal input value.text) (body scope? (place ++ [2])) "</div>"
  | _ => stopped (.malformed "reveal" .revealShape)

def lang (language : Option String) (scope? : Option IndexScope) (place : List Nat)
    (items : List Item) : Layout :=
  match items with
  | [(codes, _), (_, body)] =>
      match codes.asString?, language with
      | none, _ => stopped (.malformed "lang" .codesNoText)
      | some _, none => body scope? (place ++ [1])
      | some codes, some language =>
          if Render.isListed codes language then body scope? (place ++ [1]) else nothing
  | _ => stopped (.malformed "lang" .langShape)

def marker (language : Option String) (tag : String) (items : List Item)
    (scope? : Option IndexScope) (place : List Nat) : Layout :=
  if tag = rootTag then each scope? place 0 items
  else if tag = "indexing" then indexing place items
  else if tag = "index" then index scope?
  else if tag = "reveal" then reveal scope? place items
  else if tag = "lang" then lang language scope? place items
  else stopped (.unknownMarker tag)

end Layout

/-- The tags that a page renders itself. -/
def ownTags : List String := [rootTag, "indexing", "index", "reveal", "lang"]

mutual

/-- How a value is laid out inside a numbering and at a place. -/
def Datum.layout (language : Option String) (value : Datum) :
    Option IndexScope → List Nat → Layout :=
  match value with
  | .str content => fun _ _ => .single (.text content)
  | .list [] => fun _ _ => .nothing
  | .list (.str tag :: args) => Layout.marker language tag (Datum.layouts language args)
  | .list (tag :: _) => fun _ _ => .stopped (.malformed tag.text .tagNoText)
  | value => fun _ _ => .single (.text value.text)
termination_by structural value

def Datum.layouts (language : Option String) (values : List Datum) : List Layout.Item :=
  match values with
  | [] => []
  | value :: rest => (value, value.layout language) :: Datum.layouts language rest
termination_by structural values

end

mutual

/-- Does a value hold no markers but those that a page renders itself? -/
def Datum.hasOwnTags (value : Datum) : Bool :=
  match value with
  | .list (.str tag :: args) => tag ∈ ownTags && Datum.allOwnTags args
  | _ => true
termination_by structural value

def Datum.allOwnTags (values : List Datum) : Bool :=
  match values with
  | [] => true
  | value :: rest => value.hasOwnTags && Datum.allOwnTags rest
termination_by structural values

end

/-- A page with pieces on it, inside of numberings, the innermost first. -/
def Page.holding (language : Option String) (pieces : List Piece) (scopes : List IndexScope) :
    Page where
  language := language
  indexCount := pieces.countP Piece.isIndex
  revealCount := pieces.countP Piece.isReveal
  numberings := scopes.map fun scope =>
    ⟨scope.style, scope.start + pieces.countP (Piece.isIndexOf scope.place)⟩

namespace Layout

variable {language : Option String} {before : List Piece} {scopes : List IndexScope}

/-- How rendering ends that writes a layout on a page. -/
def outcome (layout : Layout) (language : Option String) (before : List Piece)
    (scopes : List IndexScope) : EStateM.Result PageFault Page String :=
  let after := Page.holding language (before ++ layout.pieces) scopes
  match layout.fault? with
  | none => .ok (Piece.allWritten before layout.pieces) after
  | some fault => .error fault after

variable {render others : Render String} {layout rest : Layout} {opening : Piece}

theorem outcome_single (piece : Piece) :
    (single piece).outcome language before scopes =
      .ok (piece.writtenAfter before) (Page.holding language (before ++ [piece]) scopes) := by
  simp [outcome, single, Piece.allWritten]

theorem holding_text (content : String) :
    Page.holding language (before ++ [Piece.text content]) scopes =
      Page.holding language before scopes := by
  simp only [Page.holding, List.countP_append, List.countP_singleton, Piece.isIndex,
    Piece.isReveal, Piece.isIndexOf, Bool.false_eq_true, if_false, Nat.add_zero]

theorem outcome_text (content : String) :
    (single (.text content)).outcome language before scopes =
      .ok content (Page.holding language before scopes) := by
  rw [outcome_single, holding_text, Piece.writtenAfter]

theorem outcome_nothing :
    (pure "" : Render String) (Page.holding language before scopes) =
      nothing.outcome language before scopes := by
  rw [outcome, nothing, List.append_nil]
  rfl

theorem outcome_stopped (fault : PageFault) :
    (stopped fault).outcome language before scopes =
      .error fault (Page.holding language before scopes) := by
  simp [outcome, stopped]

/-- What is rendered after something else is laid out after it, if nothing is
wrong with that. -/
theorem outcome_andThen
    (h : render (Page.holding language before scopes) = layout.outcome language before scopes)
    (hrest : layout.fault? = none →
      others (Page.holding language (before ++ layout.pieces) scopes) =
        rest.outcome language (before ++ layout.pieces) scopes) :
    (do let text ← render
        let more ← others
        return text ++ more : Render String) (Page.holding language before scopes) =
      (layout.andThen rest).outcome language before scopes := by
  simp only [bind, EStateM.bind, h, andThen]
  cases hfault : layout.fault? with
  | some fault => simp [outcome, hfault]
  | none =>
      simp only [outcome, hfault, hrest hfault]
      cases rest.fault? with
      | none => simp [pure, EStateM.pure, Piece.allWritten_append]
      | some fault => simp

/-- A layout between two pieces, with what the first is written as. -/
theorem outcome_enclosed (closing : String)
    (h : render (Page.holding language (before ++ [opening]) scopes) =
      layout.outcome language (before ++ [opening]) scopes) :
    (enclosed opening layout closing).outcome language before scopes =
      (do let text ← render
          return opening.writtenAfter before ++ text ++ closing : Render String)
        (Page.holding language (before ++ [opening]) scopes) := by
  simp only [bind, EStateM.bind, h]
  cases hfault : layout.fault? with
  | some fault => simp [outcome, enclosed, andThen, single, hfault]
  | none =>
      have hpieces : (enclosed opening layout closing).pieces =
          [opening] ++ layout.pieces ++ [Piece.text closing] := by
        simp [enclosed, andThen, single, hfault]
      have hnone : (enclosed opening layout closing).fault? = none := by
        simp [enclosed, andThen, single, hfault]
      have hpage : Page.holding language
          (before ++ ([opening] ++ layout.pieces ++ [Piece.text closing])) scopes =
            Page.holding language (before ++ [opening] ++ layout.pieces) scopes := by
        rw [← List.append_assoc, ← List.append_assoc]
        exact holding_text closing
      simp only [outcome, hfault, hnone, hpieces, hpage, Piece.allWritten_append,
        Piece.allWritten, Piece.writtenAfter, String.append_empty]
      rfl

/-- Numberings are told apart by their places, and at a place and inside of it
none has been opened yet. -/
structure Unopened (before : List Piece) (scopes : List IndexScope) (place : List Nat) : Prop where
  unused : ∀ scope, .index scope ∈ before → ¬ place <+: scope.place
  outside : ∀ scope ∈ scopes, ¬ place <+: scope.place
  apart : (scopes.map IndexScope.place).Nodup

/-- What a layout numbers belongs to the numbering around it, or to one that is
opened inside of its place. -/
def Within (scope? : Option IndexScope) (place : List Nat) (layout : Layout) : Prop :=
  ∀ scope, .index scope ∈ layout.pieces → scope? = some scope ∨ place <+: scope.place

theorem not_isPrefix_sibling {place longer : List Nat} {n m : Nat} (hne : n ≠ m)
    (h : place ++ [n] <+: longer) : ¬ place ++ [m] <+: longer := by
  intro hother
  have hsame := List.prefix_of_prefix_length_le h hother (by simp)
  simp at hsame
  exact hne hsame

namespace Unopened

variable {place : List Nat} {n m : Nat}

theorem inside (h : Unopened before scopes place) (n : Nat) :
    Unopened before scopes (place ++ [n]) where
  unused scope hscope hplace := h.unused scope hscope ((List.prefix_append _ _).trans hplace)
  outside scope hscope hplace := h.outside scope hscope ((List.prefix_append _ _).trans hplace)
  apart := h.apart

/-- Nothing has been opened at the place of the next item after an item. -/
theorem next (h : Unopened before scopes (place ++ [m])) (hne : n ≠ m)
    (hlayout : Within scopes.head? (place ++ [n]) layout) :
    Unopened (before ++ layout.pieces) scopes (place ++ [m]) where
  unused scope hscope := by
    rcases List.mem_append.mp hscope with hbefore | hpiece
    · exact h.unused scope hbefore
    · rcases hlayout scope hpiece with hhead | hinside
      · exact h.outside scope (List.mem_of_head? hhead)
      · exact not_isPrefix_sibling hne hinside
  outside := h.outside
  apart := h.apart

theorem not_mem (h : Unopened before scopes place) {scope : IndexScope} (hscope : scope ∈ scopes) :
    scope.place ≠ place :=
  fun heq => h.outside scope hscope (heq ▸ List.prefix_rfl)

/-- A numbering that is opened at a place without one has no index yet. -/
theorem countP_eq_zero (h : Unopened before scopes place) :
    before.countP (Piece.isIndexOf place) = 0 := by
  rw [List.countP_eq_zero]
  rintro (_ | scope | _) hpiece <;> simp only [Piece.isIndexOf, Bool.false_eq_true, not_false_eq_true]
  intro heq
  rw [beq_iff_eq] at heq
  exact h.unused scope hpiece (heq ▸ List.prefix_rfl)

/-- Only indexes use places up. -/
theorem after (h : Unopened before scopes place) {piece : Piece}
    (hpiece : piece.isIndex = false) : Unopened (before ++ [piece]) scopes place where
  unused scope hscope := by
    rcases List.mem_append.mp hscope with hbefore | hmem
    · exact h.unused scope hbefore
    · rw [← List.mem_singleton.mp hmem] at hpiece
      cases hpiece
  outside := h.outside
  apart := h.apart

/-- Inside a numbering that is opened at a place without one. -/
theorem opened (h : Unopened before scopes place) (style : IndexStyle) (start : Int) (n : Nat) :
    Unopened before (⟨place, style, start⟩ :: scopes) (place ++ [n]) where
  unused := (h.inside n).unused
  outside := by
    refine List.forall_mem_cons.mpr ⟨fun hplace => ?_, (h.inside n).outside⟩
    have hlength := hplace.length_le
    rw [List.length_append, List.length_singleton] at hlength
    exact Nat.not_succ_le_self _ hlength
  apart := by
    rw [List.map_cons, List.nodup_cons]
    refine ⟨fun hmem => ?_, h.apart⟩
    obtain ⟨scope, hscope, hsame⟩ := List.mem_map.mp hmem
    exact h.not_mem hscope hsame

end Unopened

variable {processor : Processor} {place : List Nat} {args : List Datum}

theorem numbered_holding (h : Unopened before scopes place) (style : IndexStyle) (start : Int)
    (hrender : render (Page.holding language before (⟨place, style, start⟩ :: scopes)) =
      layout.outcome language before (⟨place, style, start⟩ :: scopes)) :
    Render.numbered ⟨style, start⟩ render (Page.holding language before scopes) =
      layout.outcome language before scopes := by
  have hopened : { Page.holding language before scopes with
      numberings := ⟨style, start⟩ :: (Page.holding language before scopes).numberings } =
        Page.holding language before (⟨place, style, start⟩ :: scopes) := by
    simp [Page.holding, h.countP_eq_zero]
  rw [Render.numbered, hopened, hrender]
  cases hfault : layout.fault? <;> simp [outcome, hfault, Page.holding]

/-- An index advances the innermost numbering alone. -/
theorem index_holding (h : (scopes.map IndexScope.place).Nodup) :
    Render.index (Page.holding language before scopes) =
      (index scopes.head?).outcome language before scopes := by
  cases scopes with
  | nil => exact (outcome_stopped _).symm
  | cons scope outer =>
      have houter : outer.map (fun other => (⟨other.style, other.start +
            (before ++ [Piece.index scope]).countP (Piece.isIndexOf other.place)⟩ : Numbering)) =
          outer.map fun other => ⟨other.style, other.start +
            before.countP (Piece.isIndexOf other.place)⟩ := by
        apply List.map_congr_left
        intro other hother
        have hne : (scope.place == other.place) = false := by
          rw [beq_eq_false_iff_ne]
          intro heq
          rw [List.map_cons, List.nodup_cons] at h
          exact h.1 (heq ▸ List.mem_map_of_mem hother)
        simp [List.countP_append, Piece.isIndexOf, hne]
      have hpage : Page.holding language (before ++ [Piece.index scope]) (scope :: outer) =
          { Page.holding language before (scope :: outer) with
            indexCount := before.countP Piece.isIndex + 1
            numberings := ⟨scope.style, scope.start +
              before.countP (Piece.isIndexOf scope.place) + 1⟩ ::
                (Page.holding language before outer).numberings } := by
        simp only [Page.holding, List.map_cons, houter]
        simp [List.countP_append, Piece.isIndex, Piece.isReveal, Piece.isIndexOf, Int.add_assoc]
      rw [List.head?_cons, index, outcome_single, hpage]
      rfl

/-- A value is rendered as it is laid out, wherever it stands on whatever page. -/
def Shows (processor : Processor) (language : Option String) (value : Datum) : Prop :=
  ∀ {before : List Piece} {scopes : List IndexScope} {place : List Nat},
    Unopened before scopes place →
      value.render processor (Page.holding language before scopes) =
        (value.layout language scopes.head? place).outcome language before scopes

/-- What a value numbers belongs to the numbering around it or inside it. -/
def Nests (language : Option String) (value : Datum) : Prop :=
  ∀ scope? place, Within scope? place (value.layout language scope? place)

/-- Items one after the other, by induction on the items. -/
theorem each_holding (n : Nat) (h : ∀ arg ∈ args, Shows processor language arg)
    (hnests : ∀ arg ∈ args, Nests language arg)
    (hunopened : ∀ m, n ≤ m → Unopened before scopes (place ++ [m])) :
    Render.concat (Datum.renderings processor args) (Page.holding language before scopes) =
      (each scopes.head? place n (Datum.layouts language args)).outcome language before scopes := by
  induction args generalizing before n with
  | nil => exact outcome_nothing
  | cons arg rest ih =>
      rw [List.forall_mem_cons] at h hnests
      apply outcome_andThen (h.1 (hunopened n (Nat.le_refl n)))
      intro _
      apply ih (n + 1) h.2 hnests.2
      intro m hm
      exact (hunopened m (by omega)).next (by omega) (hnests.1 _ _)

theorem needText_eq (tag : String) (fault : MarkerFault) (value : Datum) :
    Render.needText tag fault value =
      match value.asString? with
      | some text => pure text
      | none => Render.malformed tag fault := by
  cases value <;> rfl

/-- Between two texts. -/
theorem quoted_holding (content closing : String)
    (h : render (Page.holding language (before ++ [Piece.text content]) scopes) =
      layout.outcome language (before ++ [Piece.text content]) scopes) :
    (do let text ← render
        return content ++ text ++ closing : Render String)
      (Page.holding language before scopes) =
        (enclosed (.text content) layout closing).outcome language before scopes := by
  rw [outcome_enclosed closing h, holding_text]
  rfl

theorem indexing_holding (h : ∀ arg ∈ args, Shows processor language arg)
    (hunopened : Unopened before scopes place) :
    Render.indexing (Datum.renderings processor args) (Page.holding language before scopes) =
      (indexing place (Datum.layouts language args)).outcome language before scopes := by
  match args, h with
  | [style, start, body], h =>
      have hbody : Shows processor language body := h body (by simp)
      simp only [Datum.renderings, Datum.layouts, Render.indexing, indexing, needText_eq]
      cases style.asString? with
      | none => exact (outcome_stopped _).symm
      | some pattern =>
          rw [pure_bind]
          dsimp only
          cases IndexStyle.ofPattern? pattern with
          | none => exact (outcome_stopped _).symm
          | some found =>
              cases start.asInt? with
              | none => exact (outcome_stopped _).symm
              | some first =>
                  have hopened : ∀ content, Unopened (before ++ [Piece.text content]) scopes place :=
                    fun _ => hunopened.after rfl
                  exact quoted_holding _ _ (numbered_holding (hopened _) found first
                    (hbody ((hopened _).opened found first 2)))
  | [], _ | [_], _ | [_, _], _ | _ :: _ :: _ :: _ :: _, _ => exact (outcome_stopped _).symm

theorem reveal_holding (h : ∀ arg ∈ args, Shows processor language arg)
    (hunopened : Unopened before scopes place) :
    Render.reveal (Datum.renderings processor args) (Page.holding language before scopes) =
      (reveal scopes.head? place (Datum.layouts language args)).outcome language before scopes := by
  match args, h with
  | [input, value, body], h =>
      have hbody : Shows processor language body := h body (by simp)
      simp only [Datum.renderings, Datum.layouts, Render.reveal, reveal, needText_eq]
      cases input.asString? with
      | none => exact (outcome_stopped _).symm
      | some name =>
          have hpage : Page.holding language (before ++ [Piece.reveal name value.text]) scopes =
              { Page.holding language before scopes with
                revealCount := before.countP Piece.isReveal + 1 } := by
            simp [Page.holding, List.countP_append, Piece.isIndex, Piece.isReveal,
              Piece.isIndexOf]
          rw [pure_bind]
          dsimp only
          rw [outcome_enclosed "</div>" (hbody ((hunopened.after rfl).inside 2)), hpage]
          rfl
  | [], _ | [_], _ | [_, _], _ | _ :: _ :: _ :: _ :: _, _ => exact (outcome_stopped _).symm

theorem lang_holding (h : ∀ arg ∈ args, Shows processor language arg)
    (hunopened : Unopened before scopes place) :
    Render.lang (Datum.renderings processor args) (Page.holding language before scopes) =
      (lang language scopes.head? place (Datum.layouts language args)).outcome
        language before scopes := by
  match args, h with
  | [codes, body], h =>
      have hbody : Shows processor language body := h body (by simp)
      simp only [Datum.renderings, Datum.layouts, Render.lang, lang, needText_eq]
      cases codes.asString? with
      | none => exact (outcome_stopped _).symm
      | some listed =>
          rw [pure_bind]
          cases language with
          | none => exact hbody (hunopened.inside 1)
          | some shown =>
              change (if Render.isListed listed shown = true then body.render processor
                else pure "") (Page.holding (some shown) before scopes) = _
              dsimp only
              split
              · exact hbody (hunopened.inside 1)
              · exact outcome_nothing
  | [], _ | [_], _ | _ :: _ :: _ :: _, _ => exact (outcome_stopped _).symm

/-- A marker that a page renders itself, or that nothing renders. -/
theorem marker_holding {tag : String} (htag : tag ∈ ownTags ∨ processor = .none)
    (h : ∀ arg ∈ args, Shows processor language arg) (hnests : ∀ arg ∈ args, Nests language arg)
    (hunopened : Unopened before scopes place) :
    Render.marker processor tag (Datum.renderings processor args)
        (Page.holding language before scopes) =
      (marker language tag (Datum.layouts language args) scopes.head? place).outcome
        language before scopes := by
  rw [Render.marker, marker]
  split
  · exact each_holding 0 h hnests fun m _ => hunopened.inside m
  · split
    · exact indexing_holding h hunopened
    · split
      · exact index_holding hunopened.apart
      · split
        · exact reveal_holding h hunopened
        · split
          · exact lang_holding h hunopened
          · rcases htag with htag | rfl
            · simp_all [ownTags]
            · exact (outcome_stopped _).symm

variable {scope? : Option IndexScope}

theorem within_of_none (h : ∀ piece ∈ layout.pieces, piece.isIndex = false) :
    Within scope? place layout := by
  intro scope hscope
  have hindex := h _ hscope
  cases hindex

theorem Within.andThen (h : Within scope? place layout) (hrest : Within scope? place rest) :
    Within scope? place (layout.andThen rest) := by
  intro scope hscope
  rw [Layout.andThen] at hscope
  split at hscope
  · exact (List.mem_append.mp hscope).elim (h scope) (hrest scope)
  · exact h scope hscope

theorem Within.enclosed (hopening : opening.isIndex = false) (h : Within scope? place layout)
    (closing : String) : Within scope? place (enclosed opening layout closing) :=
  ((within_of_none (by simpa [single] using hopening)).andThen h).andThen
    (within_of_none (by simp [single, Piece.isIndex]))

theorem Within.outward {n : Nat} (h : Within scope? (place ++ [n]) layout) :
    Within scope? place layout :=
  fun scope hscope => (h scope hscope).imp_right (List.prefix_append _ _).trans

theorem within_each (n : Nat) (h : ∀ arg ∈ args, Nests language arg) :
    Within scope? place (each scope? place n (Datum.layouts language args)) := by
  induction args generalizing n with
  | nil => exact within_of_none (by simp [Datum.layouts, each, nothing])
  | cons arg rest ih =>
      rw [List.forall_mem_cons] at h
      exact (h.1 scope? (place ++ [n])).outward.andThen (ih (n + 1) h.2)

theorem within_stopped (fault : PageFault) : Within scope? place (stopped fault) :=
  within_of_none (by simp [stopped])

theorem within_indexing (h : ∀ arg ∈ args, Nests language arg) :
    Within scope? place (indexing place (Datum.layouts language args)) := by
  match args, h with
  | [style, start, body], h =>
      have hbody : Nests language body := h body (by simp)
      simp only [Datum.layouts, indexing]
      cases style.asString? with
      | none => exact within_stopped _
      | some pattern =>
          dsimp only
          split
          · exact within_stopped _
          · exact within_stopped _
          · next found first _ _ =>
              apply Within.enclosed rfl
              intro scope hscope
              rcases hbody _ _ scope hscope with hopened | hinside
              · obtain rfl := Option.some.inj hopened
                exact .inr List.prefix_rfl
              · exact .inr ((List.prefix_append _ _).trans hinside)
  | [], _ | [_], _ | [_, _], _ | _ :: _ :: _ :: _ :: _, _ => exact within_stopped _

theorem within_reveal (h : ∀ arg ∈ args, Nests language arg) :
    Within scope? place (reveal scope? place (Datum.layouts language args)) := by
  match args, h with
  | [input, value, body], h =>
      have hbody : Nests language body := h body (by simp)
      simp only [Datum.layouts, reveal]
      cases input.asString? with
      | none => exact within_stopped _
      | some name => exact (hbody scope? (place ++ [2])).outward.enclosed rfl "</div>"
  | [], _ | [_], _ | [_, _], _ | _ :: _ :: _ :: _ :: _, _ => exact within_stopped _

theorem within_lang (h : ∀ arg ∈ args, Nests language arg) :
    Within scope? place (lang language scope? place (Datum.layouts language args)) := by
  match args, h with
  | [codes, body], h =>
      have hbody : Within scope? place (body.layout language scope? (place ++ [1])) :=
        (h body (by simp) scope? (place ++ [1])).outward
      simp only [Datum.layouts, lang]
      split
      · exact within_stopped _
      · exact hbody
      · split
        · exact hbody
        · exact within_of_none (List.forall_mem_nil _)
  | [], _ | [_], _ | _ :: _ :: _ :: _, _ => exact within_stopped _

theorem within_marker (tag : String) (h : ∀ arg ∈ args, Nests language arg) :
    Within scope? place (marker language tag (Datum.layouts language args) scope? place) := by
  rw [marker]
  split
  · exact within_each 0 h
  · split
    · exact within_indexing h
    · split
      · cases scope? with
        | none => exact within_stopped _
        | some scope =>
            intro found hfound
            rw [index, single, List.mem_singleton, Piece.index.injEq] at hfound
            exact .inl (by rw [hfound])
      · split
        · exact within_reveal h
        · split
          · exact within_lang h
          · exact within_stopped _

end Layout

open Layout

mutual

theorem Datum.nests (language : Option String) (value : Datum) : Nests language value :=
  match value with
  | .list (.str tag :: args) => fun _ _ => within_marker tag (Datum.all_nest language args)
  | .str _ | .list [] | .int _ | .float _ | .bool _ | .set _ | .other _ =>
      fun _ _ => within_of_none (by simp [Datum.layout, single, nothing, Piece.isIndex])
  | .list (.int _ :: _) | .list (.float _ :: _) | .list (.bool _ :: _) | .list (.list _ :: _)
  | .list (.set _ :: _) | .list (.other _ :: _) => fun _ _ => within_stopped _
termination_by structural value

theorem Datum.all_nest (language : Option String) (values : List Datum) :
    ∀ value ∈ values, Nests language value :=
  match values with
  | [] => List.forall_mem_nil _
  | value :: rest =>
      List.forall_mem_cons.mpr ⟨Datum.nests language value, Datum.all_nest language rest⟩
termination_by structural values

end

mutual

/-- A value is rendered as it is laid out, by the cases of the value. -/
theorem Datum.shows (processor : Processor) (language : Option String) (value : Datum)
    (h : value.hasOwnTags = true ∨ processor = .none) : Shows processor language value :=
  match value with
  | .list (.str tag :: args) => by
      rw [Datum.hasOwnTags, Bool.and_eq_true, decide_eq_true_iff] at h
      exact marker_holding (h.imp_left And.left)
        (Datum.all_show processor language args (h.imp_left And.right))
        (Datum.all_nest language args)
  | .str _ => fun _ => (outcome_text _).symm
  | .list [] => fun _ => outcome_nothing
  | .int _ | .float _ | .bool _ | .set _ | .other _ => fun _ => (outcome_text _).symm
  | .list (.int _ :: _) | .list (.float _ :: _) | .list (.bool _ :: _) | .list (.list _ :: _)
  | .list (.set _ :: _) | .list (.other _ :: _) => fun _ => (outcome_stopped _).symm
termination_by structural value

theorem Datum.all_show (processor : Processor) (language : Option String) (values : List Datum)
    (h : Datum.allOwnTags values = true ∨ processor = .none) :
    ∀ value ∈ values, Shows processor language value :=
  match values with
  | [] => List.forall_mem_nil _
  | value :: rest => by
      rw [Datum.allOwnTags, Bool.and_eq_true] at h
      exact List.forall_mem_cons.mpr
        ⟨Datum.shows processor language value (h.imp_left And.left),
          Datum.all_show processor language rest (h.imp_left And.right)⟩
termination_by structural values

end

/-- The pieces of values one after the other.  What stands in the `k`-th of them
has a place that starts with `k`. -/
def Datum.piecesOf (language : Option String) (values : List Datum) : List Piece :=
  (values.mapIdx fun k value => (value.layout language none [k]).pieces).flatten

theorem Datum.piecesOf_concat (language : Option String) (values : List Datum) (value : Datum) :
    Datum.piecesOf language (values ++ [value]) = Datum.piecesOf language values ++
      (value.layout language none [values.length]).pieces := by
  simp [Datum.piecesOf, List.mapIdx_append]

namespace Page

/-- The page that a rendering leaves, with a text or with a fault. -/
def left : EStateM.Result PageFault Page String → Page
  | .ok _ page | .error _ page => page

/-- The page after values were rendered on it one after the other. -/
def after (page : Page) (processor : Processor) (values : List Datum) : Page :=
  values.foldl (fun page value => left (value.render processor page)) page

variable {processor : Processor} {language : Option String} {values : List Datum}

theorem after_concat (page : Page) (values : List Datum) (value : Datum) :
    page.after processor (values ++ [value]) =
      left (value.render processor (page.after processor values)) := by
  simp [after]

theorem left_outcome (layout : Layout) (before : List Piece) (scopes : List IndexScope) :
    left (layout.outcome language before scopes) =
      holding language (before ++ layout.pieces) scopes := by
  rw [Layout.outcome]
  cases layout.fault? <;> rfl

/-- Nothing has been opened at the place of the next value after some values. -/
theorem unopened_next (language : Option String) (values : List Datum) :
    Unopened (Datum.piecesOf language values) [] [values.length] where
  unused scope hscope hplace := by
    obtain ⟨pieces, hpieces, hmem⟩ := List.mem_flatten.mp hscope
    obtain ⟨k, hk, rfl⟩ := List.mem_mapIdx.mp hpieces
    rcases Datum.nests language values[k] none [k] scope hmem with hnone | hinside
    · cases hnone
    · have hchild : [] ++ [k] <+: scope.place := hinside
      exact not_isPrefix_sibling (Nat.ne_of_lt hk) hchild hplace
  outside := List.forall_mem_nil _
  apart := List.nodup_nil

/-- Values rendered one after the other leave a page with their pieces, by
induction on how many there are. -/
theorem after_blank (h : ∀ value ∈ values, value.hasOwnTags = true) :
    (blank language).after processor values =
      holding language (Datum.piecesOf language values) [] := by
  induction values using List.reverseRecOn with
  | nil => rfl
  | append_singleton earlier value ih =>
      rw [List.forall_mem_append, List.forall_mem_singleton] at h
      have hshows := Datum.shows processor language value (.inl h.2) (unopened_next language earlier)
      rw [after_concat, ih h.1, hshows, left_outcome, Datum.piecesOf_concat]
      rfl

end Page

/-- Of values rendered one after the other on a blank page, whatever became of the
earlier ones, each finds no numbering open and leaves none open, and it is
written as its layout after the pieces of all the earlier ones; a fault comes
after the pieces before it. -/
theorem Datum.render_numbers (processor : Processor) (language : Option String)
    {earlier : List Datum} {value : Datum} (hearlier : ∀ item ∈ earlier, item.hasOwnTags = true)
    (hvalue : value.hasOwnTags = true) :
    let page := (Page.blank language).after processor earlier
    let before := Datum.piecesOf language earlier
    let layout := value.layout language none [earlier.length]
    page.numberings = [] ∧
      (Page.left (value.render processor page)).numberings = [] ∧
        value.render processor page =
          match layout.fault? with
          | none => .ok (Piece.allWritten before layout.pieces)
              (Page.holding language (before ++ layout.pieces) [])
          | some fault => .error fault (Page.holding language (before ++ layout.pieces) []) := by
  intro page before layout
  have hpage : page = Page.holding language before [] := Page.after_blank hearlier
  have hrender : value.render processor page = layout.outcome language before [] := by
    rw [hpage]
    exact Datum.shows processor language value (.inl hvalue) (Page.unopened_next language earlier)
  refine ⟨by rw [hpage]; rfl, ?_, hrender⟩
  rw [hrender, Page.left_outcome]
  rfl

namespace Datum

/-- Two numberings, one inside the other, and then a marker that is no good. -/
def brokenValue : Datum :=
  .list [.str "%root", .list [.str "indexing", .str "1", .int 5,
      .list [.str "%root", .list [.str "index"],
        .list [.str "indexing", .str "i", .int 1, .list [.str "index"]],
        .list [.str "reveal", .str "a", .bool true, .list [.str "index"]]]],
    .list [.str "index"]]

/-- A numbering with a text between its indexes. -/
def listedValue : Datum :=
  .list [.str "indexing", .str "1.", .int 0,
    .list [.str "%root", .list [.str "index"], .str " and ", .list [.str "index"]]]

theorem render_numbers_after_broken :
    (∀ item ∈ [brokenValue], item.hasOwnTags = true) ∧ listedValue.hasOwnTags = true ∧
      ((Page.blank none).after .none [brokenValue]).numberings = [] ∧
        listedValue.render .none ((Page.blank none).after .none [brokenValue]) =
          .ok ("<span class=\"stateq-indexing\" data-style=\"1.\" data-start=\"0\">" ++
              "<span class=\"stateq-index\" id=\"stateq-index-4\">0.</span> and " ++
              "<span class=\"stateq-index\" id=\"stateq-index-5\">1.</span></span>")
            ⟨none, 5, 1, []⟩ := by
  have hbroken : ∀ item ∈ [brokenValue], item.hasOwnTags = true := by decide
  have hlisted : listedValue.hasOwnTags = true := by decide
  obtain ⟨hopen, -, hrender⟩ := render_numbers .none none hbroken hlisted
  exact ⟨hbroken, hlisted, hopen, hrender.trans rfl⟩

end Datum

end SceneQuiz
